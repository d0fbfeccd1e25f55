import CoercionTrace.Proofs.Syntax.Edits
import CoercionTrace.Proofs.Syntax.Text
import Mathlib.Data.List.Sort
import Mathlib.Data.List.TakeWhile

/-!
# Where texts are cut

Bodies and the program are cut behind their directives. Main statements: they are cut between children
(`bodyCut_between`, `insertionPoint_between`), and nothing is lost at such a cut
(`textBetween_append`).
-/

namespace CoercionTrace

namespace SyntaxTree

variable {t : SyntaxTree} {id b c d : NodeId}

def lastOr {α : Type} (f : NodeId → α) (x : α) (nodes : List NodeId) : α :=
  (nodes.getLast?.map f).getD x

theorem lastOr_cons {α : Type} (f : NodeId → α) (x : α) (c : NodeId) (rest : List NodeId) :
    lastOr f x (c :: rest) = lastOr f (f c) rest := by
  simp only [lastOr, List.getLast?_cons, Option.map_some, Option.getD_some]
  cases rest.getLast? <;> rfl

theorem lastOr_cases {α : Type} (f : NodeId → α) (x : α) (nodes : List NodeId) :
    lastOr f x nodes = x ∨ ∃ c ∈ nodes, lastOr f x nodes = f c := by
  unfold lastOr
  cases hlast : nodes.getLast? with
  | none => exact .inl rfl
  | some c => exact .inr ⟨c, List.mem_of_getLast? hlast, rfl⟩

def isDirectiveStatement (t : SyntaxTree) (id : NodeId) : Bool :=
  t.kind id = .expressionStatement && t.isDirective id

def isHeadStatement (t : SyntaxTree) (id : NodeId) : Bool :=
  t.kind id == .hashBangLine || t.isDirectiveStatement id

def headStop (t : SyntaxTree) (id : NodeId) : Nat :=
  if t.kind id = .hashBangLine then t.lineEnd id else (t.node id).stop

theorem kind_of_isDirectiveStatement (h : t.isDirectiveStatement c = true) :
    t.kind c = .expressionStatement := by
  simpa using (Bool.and_eq_true_iff.1 h).1

theorem directivesEnd_eq (start : Nat) (statements : List NodeId) :
    t.directivesEnd start statements =
      lastOr (fun c => (t.node c).stop) start (statements.takeWhile t.isDirectiveStatement) := by
  induction statements generalizing start with
  | nil => rfl
  | cons c rest ih =>
    rw [directivesEnd]
    split
    · next h =>
      have hc : t.isDirectiveStatement c = true := h
      rw [List.takeWhile_cons_of_pos hc, lastOr_cons, ih]
    · next h =>
      have hc : ¬ t.isDirectiveStatement c = true := h
      rw [List.takeWhile_cons_of_neg hc]
      rfl

theorem headEnd_eq (cut : Nat) (afterDirective : Bool) (statements : List NodeId) :
    t.headEnd cut afterDirective statements =
      (lastOr t.headStop cut (statements.takeWhile t.isHeadStatement),
        lastOr (fun c => t.kind c != .hashBangLine) afterDirective
          (statements.takeWhile t.isHeadStatement)) := by
  induction statements generalizing cut afterDirective with
  | nil => rfl
  | cons c rest ih =>
    rw [headEnd]
    split
    · next hkind =>
      have hstop : t.headStop c = t.lineEnd c := if_pos hkind
      rw [List.takeWhile_cons_of_pos (by simp [isHeadStatement, hkind]), lastOr_cons, lastOr_cons,
        ih, hstop, hkind]
      rfl
    · next hkind =>
      have hstop : t.headStop c = (t.node c).stop := if_neg (by simp [hkind])
      split
      · next hdirective =>
        have hhead : t.isHeadStatement c = true := by
          simp [isHeadStatement, isDirectiveStatement, hkind, hdirective]
        rw [List.takeWhile_cons_of_pos hhead, lastOr_cons, lastOr_cons, ih, hstop, hkind]
        rfl
      · next hdirective =>
        have hhead : ¬ t.isHeadStatement c = true := by
          simp [isHeadStatement, isDirectiveStatement, hkind, hdirective]
        rw [List.takeWhile_cons_of_neg hhead]
        rfl
    · next hhash hexpression =>
      have hhead : ¬ t.isHeadStatement c = true := by
        simpa [isHeadStatement, isDirectiveStatement] using
          ⟨hhash, fun e => (hexpression e).elim⟩
      rw [List.takeWhile_cons_of_neg hhead]
      rfl

theorem directivesEnd_cases (t : SyntaxTree) (start : Nat) (statements : List NodeId) :
    t.directivesEnd start statements = start ∨ ∃ c ∈ statements, t.kind c = .expressionStatement ∧
      t.directivesEnd start statements = (t.node c).stop := by
  rw [directivesEnd_eq]
  refine (lastOr_cases _ _ _).imp_right ?_
  rintro ⟨c, hc, hstop⟩
  exact ⟨c, (List.takeWhile_sublist _).subset hc,
    kind_of_isDirectiveStatement (List.mem_takeWhile_imp hc), hstop⟩

theorem bodyCut_cases (t : SyntaxTree) (b : NodeId) : t.bodyCut b = t.bodyStart b ∨
    ∃ c ∈ t.children b, t.kind c = .expressionStatement ∧ t.bodyCut b = (t.node c).stop := by
  refine (t.directivesEnd_cases _ _).imp_right ?_
  rintro ⟨c, hc, hrest⟩
  exact ⟨c, mem_of_significant hc, hrest⟩

theorem headEnd_cases (t : SyntaxTree) (cut : Nat) (afterDirective : Bool)
    (statements : List NodeId) : (t.headEnd cut afterDirective statements).1 = cut ∨
      ∃ c ∈ statements, (t.headEnd cut afterDirective statements).1 = (t.node c).stop ∨
        t.kind c = .hashBangLine ∧ (t.headEnd cut afterDirective statements).1 = t.lineEnd c := by
  rw [headEnd_eq]
  refine (lastOr_cases _ _ _).imp_right ?_
  rintro ⟨c, hc, hstop⟩
  refine ⟨c, (List.takeWhile_sublist _).subset hc, ?_⟩
  rw [hstop]
  unfold headStop
  split
  · next hkind => exact .inr ⟨hkind, rfl⟩
  · exact .inl rfl

theorem headEnd_afterDirective {cut : Nat} {statements : List NodeId}
    (h : (t.headEnd cut false statements).2 = true) : ∃ c ∈ statements,
      t.kind c = .expressionStatement ∧ (t.headEnd cut false statements).1 = (t.node c).stop := by
  rw [headEnd_eq] at h ⊢
  unfold lastOr at h ⊢
  cases hlast : (statements.takeWhile t.isHeadStatement).getLast? with
  | none => simp [hlast] at h
  | some c =>
    have hmem := List.mem_of_getLast? hlast
    have hkind : t.kind c ≠ .hashBangLine := by simpa [hlast] using h
    have hdirective : t.isDirectiveStatement c = true := by
      simpa [isHeadStatement, hkind] using List.mem_takeWhile_imp hmem
    refine ⟨c, (List.takeWhile_sublist _).subset hmem, kind_of_isDirectiveStatement hdirective, ?_⟩
    exact if_neg hkind

namespace WellFormed

variable (hw : t.WellFormed)
include hw

theorem bodyStart_le (hb : t.kind b = .statementBlock) :
    t.bodyStart b ≤ t.bodyCut b ∧ t.bodyCut b ≤ t.bodyStop b := by
  have hopens := (hw.opens hb).1
  rw [bodyStart, bodyStop] at *
  rcases t.bodyCut_cases b with e | ⟨c, hc, hkind, e⟩
  · rw [e, bodyStart]
    omega
  · have hproper := hw.proper hc
    obtain ⟨hstart, hstop | hleaf⟩ := hw.closes hb hc
    · rw [e]
      omega
    · obtain ⟨-, hleaf⟩ := hleaf
      rw [hkind] at hleaf
      exact absurd hleaf (by decide)

theorem le_insertionPoint : (t.node root).start ≤ t.insertionPoint.1 ∧
    t.insertionPoint.1 ≤ (t.node root).stop := by
  refine ⟨Nat.le_min.2 ⟨?_, hw.range.1⟩, Nat.min_le_right _ _⟩
  rcases t.headEnd_cases (t.node root).start false (t.significantChildren root) with
    e | ⟨c, hc, e | ⟨-, e⟩⟩
  · exact Nat.le_of_eq e.symm
  · have hmem := mem_of_significant hc
    exact e ▸ Nat.le_trans (hw.nested hmem).1 (Nat.le_of_lt (hw.proper hmem))
  · have hmem := mem_of_significant hc
    have hstop := Nat.le_trans (hw.nested hmem).1 (Nat.le_of_lt (hw.proper hmem))
    exact e ▸ Nat.le_trans hstop (Nat.le_add_right _ _)

theorem siblings (hc : c ∈ t.children b) (hd : d ∈ t.children b) :
    (t.node c).stop ≤ (t.node d).stop ∨ d < c ∧ (t.node d).stop ≤ (t.node c).start := by
  rcases Nat.lt_trichotomy c d with h | rfl | h
  · exact .inl (Nat.le_trans (hw.before_of_lt hc hd h) (Nat.le_of_lt (hw.proper hd)))
  · exact .inl (Nat.le_refl _)
  · exact .inr ⟨h, hw.before_of_lt hd hc h⟩

theorem bodyCut_between (hb : t.kind b = .statementBlock) (hc : c ∈ t.children b) :
    (t.node c).stop ≤ t.bodyCut b ∨ t.bodyCut b ≤ (t.node c).start := by
  rcases t.bodyCut_cases b with e | ⟨d, hd, -, e⟩
  · exact .inr (e ▸ (hw.closes hb hc).1)
  · rw [e]
    exact (hw.siblings hc hd).imp_right And.right

theorem insertionPoint_between (hc : c ∈ t.children root) :
    (t.node c).stop ≤ t.insertionPoint.1 ∨ t.insertionPoint.1 ≤ (t.node c).start := by
  have hcut : (t.node c).stop ≤ (t.headEnd (t.node root).start false (t.significantChildren root)).1 ∨
      (t.headEnd (t.node root).start false (t.significantChildren root)).1 ≤ (t.node c).start := by
    rcases t.headEnd_cases (t.node root).start false (t.significantChildren root) with
      e | ⟨d, hd, e | ⟨hkind, e⟩⟩
    · rw [e]
      exact .inr (hw.nested hc).1
    · rw [e]
      exact (hw.siblings hc (mem_of_significant hd)).imp_right And.right
    · rw [e]
      have hmem := mem_of_significant hd
      rcases hw.siblings hc hmem with h | h
      · exact .inl (Nat.le_trans h (Nat.le_add_right _ _))
      · exact .inr (hw.lines hmem hkind hc h.1)
  exact hcut.imp (fun h => Nat.le_min.2 ⟨h, (hw.nested hc).2⟩) (Nat.le_trans (Nat.min_le_left _ _))

end WellFormed

section

variable {start cut stop : Nat}

theorem mem_between : c ∈ t.childrenBetween id start stop ↔
    c ∈ t.children id ∧ start ≤ (t.node c).start ∧ (t.node c).stop ≤ stop := by
  simp [childrenBetween]

theorem splice_append {f : NodeId → String} {nodes more : List NodeId} {cursor : Nat}
    (hcursor : cursor ≤ cut) (hcut : cut ≤ stop) (hnodes : ∀ c ∈ nodes, (t.node c).stop ≤ cut)
    (hmore : ∀ c ∈ more, cut ≤ (t.node c).start) : t.splice f cursor stop (nodes ++ more) =
      t.splice f cursor cut nodes ++ t.splice f cut stop more := by
  induction nodes generalizing cursor with
  | nil =>
    cases more with
    | nil => exact slice_append hcursor hcut t.source
    | cons c rest =>
      rw [List.nil_append, splice, splice, splice,
        slice_append hcursor (hmore c List.mem_cons_self)]
      simp only [String.append_assoc]
  | cons c rest ih =>
    obtain ⟨hc, hrest⟩ := List.forall_mem_cons.1 hnodes
    rw [List.cons_append, splice, splice, ih hc hrest]
    simp only [String.append_assoc]

theorem splice_filter {f : NodeId → String} {keep : NodeId → Bool} {nodes : List NodeId}
    {cursor : Nat} (hf : ∀ c ∈ nodes, keep c = false → f c = t.rawSource c)
    (hnodes : ∀ c ∈ nodes, cursor ≤ (t.node c).start ∧ (t.node c).start ≤ (t.node c).stop ∧
      (t.node c).stop ≤ stop) (hordered : nodes.Pairwise t.Before) :
    t.splice f cursor stop (nodes.filter keep) = t.splice f cursor stop nodes := by
  induction nodes generalizing cursor with
  | nil => rfl
  | cons c rest ih =>
    obtain ⟨hfc, hf⟩ := List.forall_mem_cons.1 hf
    obtain ⟨⟨hstart, hc, hstop⟩, hrest⟩ := List.forall_mem_cons.1 hnodes
    obtain ⟨hbefore, hordered⟩ := List.pairwise_cons.1 hordered
    have ih := ih hf (fun d hd => ⟨hbefore d hd, (hrest d hd).2⟩) hordered
    cases hkeep : keep c with
    | true => rw [List.filter_cons_of_pos hkeep, splice, splice, ih]
    | false =>
      have hskip : t.splice f cursor stop ([] ++ rest.filter keep) =
          t.splice f cursor (t.node c).stop [] ++ t.splice f (t.node c).stop stop (rest.filter keep) :=
        splice_append (Nat.le_trans hstart hc) hstop (fun _ h => absurd h List.not_mem_nil)
          fun d hd => hbefore d (List.mem_filter.1 hd).1
      rw [List.filter_cons_of_neg (by simp [hkeep]), splice, hfc hkeep, rawSource, ← ih,
        ← slice_append hstart hc]
      exact hskip

theorem between_append (hw : t.WellFormed) (id start cut stop : Nat) :
    t.childrenBetween id start cut ++ t.childrenBetween id cut stop =
      (t.children id).filter fun c => start ≤ (t.node c).start ∧ (t.node c).stop ≤ cut ∨
        cut ≤ (t.node c).start ∧ (t.node c).stop ≤ stop := by
  have hsorted : ∀ p : NodeId → Bool, ((t.children id).filter p).Pairwise (· < ·) := fun p =>
    ((hw.ordered id).filter p).imp And.left
  have hacross : (t.childrenBetween id start cut ++ t.childrenBetween id cut stop).Pairwise
      (· < ·) := by
    refine List.pairwise_append.2 ⟨hsorted _, hsorted _, fun a ha b hb => ?_⟩
    obtain ⟨ha, -, hacut⟩ := mem_between.1 ha
    obtain ⟨hb, hbcut, -⟩ := mem_between.1 hb
    rcases hw.siblings hb ha with hle | hlt
    · have := hw.proper hb
      omega
    · exact hlt.1
  refine hacross.eq_of_mem_iff (hsorted _) fun c => ?_
  simp only [List.mem_append, mem_between, List.mem_filter, decide_eq_true_eq, and_or_left]

theorem textBetween_append (hw : t.WellFormed) (hstart : start ≤ cut) (hstop : cut ≤ stop)
    (hcut : ∀ c ∈ t.children id, (t.node c).stop ≤ cut ∨ cut ≤ (t.node c).start) :
    t.textBetween id start cut ++ t.textBetween id cut stop = t.textBetween id start stop := by
  have hchildren : t.childrenBetween id start cut ++ t.childrenBetween id cut stop =
      t.childrenBetween id start stop := by
    rw [between_append hw]
    refine List.filter_congr fun c hc => ?_
    have hproper := hw.proper hc
    have hside := hcut c hc
    rw [← Bool.decide_and]
    exact decide_eq_decide.2 (by omega)
  change t.splice t.text start cut (t.childrenBetween id start cut) ++
    t.splice t.text cut stop (t.childrenBetween id cut stop) =
    t.splice t.text start stop (t.childrenBetween id start stop)
  rw [← hchildren]
  exact (splice_append hstart hstop (fun c hc => (mem_between.1 hc).2.2)
    fun c hc => (mem_between.1 hc).2.1).symm

theorem ownText_between (hw : t.WellFormed) (hstart : (t.node id).start ≤ start) (hle : start ≤ stop)
    (hstop : stop ≤ (t.node id).stop) (h : ∀ c ∈ t.children id,
      start ≤ (t.node c).start ∧ (t.node c).stop ≤ stop ∨ t.text c = t.rawSource c) :
    t.ownText id = slice t.source (t.node id).start start ++ t.textBetween id start stop ++
      slice t.source stop (t.node id).stop := by
  have hraw : ∀ c ∈ t.children id,
      (decide (start ≤ (t.node c).start) && decide ((t.node c).stop ≤ stop)) = false →
      t.text c = t.rawSource c := by
    intro c hc hout
    exact (h c hc).resolve_left fun hin => by simp [hin] at hout
  have hnodes : ∀ c ∈ t.children id, (t.node id).start ≤ (t.node c).start ∧
      (t.node c).start ≤ (t.node c).stop ∧ (t.node c).stop ≤ (t.node id).stop := fun c hc =>
    ⟨(hw.nested hc).1, Nat.le_of_lt (hw.proper hc), (hw.nested hc).2⟩
  have hbehind : t.splice t.text (t.node id).start (t.node id).stop
      (t.childrenBetween id start stop ++ []) = t.splice t.text (t.node id).start stop
        (t.childrenBetween id start stop) ++ slice t.source stop (t.node id).stop :=
    splice_append (Nat.le_trans hstart hle) hstop (fun c hc => (mem_between.1 hc).2.2)
      fun _ hc => absurd hc List.not_mem_nil
  have hahead : t.splice t.text (t.node id).start stop ([] ++ t.childrenBetween id start stop) =
      slice t.source (t.node id).start start ++ t.textBetween id start stop :=
    splice_append hstart hle (fun _ hc => absurd hc List.not_mem_nil)
      fun c hc => (mem_between.1 hc).2.1
  rw [ownText, ← splice_filter hraw hnodes (hw.children_before id), ← hahead]
  rw [List.append_nil] at hbehind
  exact hbehind

theorem bodyParts_fst (t : SyntaxTree) (b : NodeId) : (t.bodyParts b).1 =
    t.textBetween b (t.bodyStart b) (t.bodyCut b) ++ if t.lacksSemicolon b then ";" else "" := by
  rw [bodyParts]
  split <;> simp

end

end SyntaxTree

end CoercionTrace
