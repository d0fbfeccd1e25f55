import Mathlib.Data.List.TakeWhile
import CoercionTrace.Proofs.Instrument.Pass
import CoercionTrace.Proofs.Instrument.Start
import CoercionTrace.Proofs.Syntax.Cuts

/-!
# Terminated statements

Statements are visited in the order in which they end, so what a statement is separated from stands
when it is visited. Main statement: a statement that comes to begin with a bracket, behind one that
ends without a semicolon, is separated from it if that one is a statement that takes a semicolon
itself, and not if it merely ends in one (`pass_separates`).
-/

namespace CoercionTrace

open InstrumentM

namespace SyntaxTree

variable {t t' : SyntaxTree} {id c d p u : NodeId} {skip : NodeId → Bool}

theorem text_of_bare (hw : t.WellFormed) (hid : id < t.size)
    (h : ∀ d, t.Below id d → (t.node d).replacement = none) : t.text id = t.rawSource id := by
  have key : ∀ depth {id}, id < t.size → t.size - id ≤ depth →
      (∀ d, t.Below id d → (t.node d).replacement = none) → t.textWithin depth id = t.rawSource id := by
    intro depth
    induction depth with
    | zero => exact fun hid hd => absurd (Nat.le_zero.1 hd) (Nat.sub_ne_zero_of_lt hid)
    | succ depth ih =>
      intro id hid hd h
      rw [textWithin, h id .refl]
      have htexts : ∀ c ∈ t.children id, t.textWithin depth c = t.rawSource c := by
        intro c hc
        obtain ⟨hlt, hsize, -⟩ := hw.child hc
        apply ih hsize (WellFormed.sub_le_of_lt hlt hd)
        exact fun d hd => h d ((Below.of_mem hc).trans hd)
      have hslice : t.splice (t.textWithin depth) (t.node id).start (t.node id).stop
          ((t.children id).filter fun _ => false) = _ := splice_filter (fun c hc _ => htexts c hc)
        (fun c hc => ⟨(hw.nested hc).1, Nat.le_of_lt (hw.proper hc), (hw.nested hc).2⟩)
        (hw.children_before id)
      rw [List.filter_false] at hslice
      exact hslice.symm
  exact key t.size hid (Nat.sub_le _ _) h

theorem proper_of_below (hw : t.WellFormed) (hc : c ∈ t.children p) (h : t.Below c d) :
    (t.node d).start < (t.node d).stop := by
  rcases h.eq_or_mem with rfl | ⟨q, hq, -⟩
  · exact hw.proper hc
  · exact hw.proper hq

theorem postOrder_stop (hw : t.WellFormed) :
    (t.postOrder skip).Pairwise fun a b => (t.node a).stop ≤ (t.node b).stop := by
  have key : ∀ depth id,
      (t.postOrderWithin skip depth id).Pairwise fun a b => (t.node a).stop ≤ (t.node b).stop := by
    intro depth
    induction depth with
    | zero => exact fun _ => List.Pairwise.nil
    | succ depth ih =>
      intro id
      rw [postOrderWithin]
      split
      · exact List.Pairwise.nil
      · refine List.pairwise_append.2 ⟨List.pairwise_flatMap.2 ⟨fun d _ => ih d, ?_⟩,
          List.pairwise_singleton _ _, fun a ha b hb => ?_⟩
        · refine (hw.children_before id).imp_of_mem fun {d e} hd he hbefore a ha b hb => ?_
          have hb := below_of_postOrderWithin hb
          calc (t.node a).stop
            _ ≤ (t.node d).stop := (hw.inside_of_below (below_of_postOrderWithin ha)).2
            _ ≤ (t.node e).start := hbefore
            _ ≤ (t.node b).start := (hw.inside_of_below hb).1
            _ ≤ (t.node b).stop := Nat.le_of_lt (proper_of_below hw he hb)
        · obtain rfl := List.mem_singleton.1 hb
          obtain ⟨d, hd, ha⟩ := List.mem_flatMap.1 ha
          exact Nat.le_trans (hw.inside_of_below (below_of_postOrderWithin ha)).2 (hw.nested hd).2
  exact key t.size root

theorem previousSibling_before (hw : t.WellFormed) (hc : t.kind c ≠ .comment)
    (h : t.previousSibling? c = some p) :
    ∃ q, c ∈ t.children q ∧ p ∈ t.children q ∧ t.Before p c := by
  obtain ⟨q, hq, hlast⟩ := Option.bind_eq_some_iff.1 h
  have hmem := List.mem_of_getLast? hlast
  have hordered : (t.significantChildren q).Pairwise t.Before := (hw.children_before q).filter _
  have hin : c ∈ t.significantChildren q := List.mem_filter.2 ⟨hw.mem hq, by simpa using hc⟩
  refine ⟨q, hw.mem hq, mem_of_significant ((List.takeWhile_sublist _).subset hmem), ?_⟩
  rw [← List.takeWhile_append_dropWhile (p := fun d => decide (d ≠ c))
    (l := t.significantChildren q)] at hordered hin
  rcases List.mem_append.1 hin with hin | hin
  · simpa using List.mem_takeWhile_imp hin
  · exact (List.pairwise_append.1 hordered).2.2 p hmem c hin

theorem not_below_previousSibling (hw : t.WellFormed) (hc : t.kind c ≠ .comment)
    (h : t.previousSibling? c = some p) (hstop : (t.node c).stop ≤ (t.node d).stop) :
    ¬ t.Below p d := by
  intro hbelow
  obtain ⟨q, hcq, hpq, hbefore⟩ := previousSibling_before hw hc h
  have hlt := calc (t.node c).start
    _ < (t.node c).stop := hw.proper hcq
    _ ≤ (t.node d).stop := hstop
    _ ≤ (t.node p).stop := (hw.inside_of_below hbelow).2
    _ ≤ (t.node c).start := hbefore
  exact Nat.lt_irrefl _ hlt

theorem SameShape.previousSibling? (h : t.SameShape t') :
    t'.previousSibling? id = t.previousSibling? id := by
  simp only [SyntaxTree.previousSibling?, h.parent, h.significantChildren]

end SyntaxTree

variable {P : Option ScopeId → Prop} {rules : List Rule} {s₀ s s' : Instrumentation}
  {done : List NodeId} {id T p u : NodeId}

theorem VisitForm.apart (hw : s.tree.WellFormed) (h : VisitForm P rules s id s')
    (hnot : ¬ s.tree.Below T id) (hkind : s.tree.kind T ≠ .statementBlock) :
    s'.tree = s.tree ∨ ∃ c rep, s.tree.Replaces c rep s'.tree ∧ ¬ s.tree.Below T c := by
  cases h with
  | idle _ hs => exact .inl (by rw [hs])
  | bare _ hb => exact .inl (by rw [hb.state])
  | rewrite _ _ _ _ _ hreplaces _ => exact .inr ⟨id, _, hreplaces, hnot⟩
  | @body number body rep u hhandles hb hreplaces _ =>
    refine .inr ⟨body, rep, hreplaces, fun hbelow => ?_⟩
    rcases hbelow.eq_or_mem with rfl | ⟨q, hq, hbelow⟩
    · apply hkind
      exact hw.block (by simpa [Kind.IsPlainFunction, Rule.handles] using hhandles) hb.child
    · obtain rfl := hw.parent_unique hq (SyntaxTree.child?_mem hb.child)
      exact hnot hbelow

theorem VisitForm.text (hw : s.tree.WellFormed) (h : VisitForm P rules s id s')
    (hnot : ¬ s.tree.Below T id) (hkind : s.tree.kind T ≠ .statementBlock) :
    s'.tree.text T = s.tree.text T ∧ s'.tree.ownText T = s.tree.ownText T := by
  rcases h.apart hw hnot hkind with htree | ⟨c, rep, hreplaces, hc⟩
  · rw [htree]
    exact ⟨rfl, rfl⟩
  · refine ⟨hreplaces.text hc, hreplaces.shape.ownText fun d hd => hreplaces.text fun hdc => hc ?_⟩
    exact (SyntaxTree.Below.of_mem hd).trans hdc

theorem Kind.ne_block_of_isTerminable {kind : Kind} (h : kind.isTerminable = true) :
    kind ≠ .statementBlock ∧ kind ≠ .comment := by
  constructor
  · rintro rfl
    simp [Kind.isTerminable] at h
  · rintro rfl
    simp [Kind.isTerminable] at h

theorem missingSemicolons_eq (hshape : s.tree.SameShape s'.tree)
    (hp : ∀ p, s.tree.previousSibling? T = some p → (s.tree.kind p).isTerminable = true →
      s'.tree.text p = s.tree.text p) (text : String) :
    s'.missingSemicolons T text = s.missingSemicolons T text := by
  have hfollows : s'.followsUnterminated T = s.followsUnterminated T := by
    unfold Instrumentation.followsUnterminated
    rw [hshape.previousSibling?, hshape.kind]
    cases hprevious : s.tree.previousSibling? T with
    | none => rfl
    | some p =>
      cases hkind : (s.tree.kind p).isTerminable with
      | false => simp [hkind]
      | true => simp [hkind, hp p hprevious hkind]
  unfold Instrumentation.missingSemicolons
  rw [hfollows]

def Instrumentation.Terminated (s : Instrumentation) (T : NodeId) : Prop :=
  s.tree.text T = (Replacement.statement (s.missingSemicolons T (s.tree.ownText T)).1
    (s.tree.ownText T) (s.missingSemicolons T (s.tree.ownText T)).2).print

theorem Instrumentation.Terminated.visit (hw : s.tree.WellFormed) (h : s.Terminated T)
    (hkind : (s.tree.kind T).isTerminable = true) (hv : VisitForm P rules s id s')
    (hnot : ¬ s.tree.Below T id)
    (hp : ∀ p, s.tree.previousSibling? T = some p → ¬ s.tree.Below p id) : s'.Terminated T := by
  obtain ⟨htext, hown⟩ := hv.text hw hnot (Kind.ne_block_of_isTerminable hkind).1
  unfold Instrumentation.Terminated
  rw [htext, hown, missingSemicolons_eq hv.fixed.shape]
  · exact h
  · exact fun p hprevious hkind =>
      (hv.text hw (hp p hprevious) (Kind.ne_block_of_isTerminable hkind).1).1

theorem visit_terminated (hw : s.tree.WellFormed) (hv : Yields (visit Rule.all T) s () s')
    (hhandles : Rule.terminator.handles (s.tree.kind T) = true)
    (hrows : s.touchesSuppressed T = false) (hnone : (s.tree.node T).replacement = none) :
    s'.Terminated T := by
  have hid := lt_size_of_handles hhandles
  have hown := SyntaxTree.text_of_none hw hid hnone
  have hterminable : (s.tree.kind T).isTerminable = true := by
    simp only [Rule.handles, Bool.and_eq_true] at hhandles
    exact hhandles.1
  obtain ⟨changed, happly⟩ := visit_applies hv hhandles (.inr hrows)
  have hchange : ∀ {result : Option Change} {v : Instrumentation},
      Yields (Rule.terminator.change? T) s result v → result = s.terminated T ∧ v = s :=
    fun h => Yields.pure_iff.1 (Yields.get_bind_iff.1 h)
  rcases apply_ok happly with ⟨-, hnochange⟩ | ⟨-, change, v, hsome, hreplaces, -⟩
  · obtain ⟨hresult, rfl⟩ := hchange hnochange
    rw [Instrumentation.terminated] at hresult
    dsimp only at hresult
    split at hresult
    · cases hresult
    · next hno =>
      simp only [Bool.or_eq_true, not_or, Bool.not_eq_true] at hno
      rw [Instrumentation.Terminated, ← hown, hno.1, hno.2]
      simp [Replacement.print]
  · obtain ⟨hresult, rfl⟩ := hchange hsome
    rw [Instrumentation.terminated] at hresult
    dsimp only at hresult
    split at hresult
    · cases hresult
      have hchildren : ∀ c ∈ v.tree.children T, s'.tree.text c = v.tree.text c := fun c hc =>
        hreplaces.text fun hbelow =>
          Nat.not_le_of_lt (hw.child hc).1 (hw.le_of_below hbelow)
      have hsize : T < s'.tree.size := by
        rw [hreplaces.shape.size]
        exact hid
      rw [Instrumentation.Terminated, SyntaxTree.text_of_some hsize (hreplaces.at_ hid),
        hreplaces.shape.ownText hchildren, ← hown, missingSemicolons_eq hreplaces.shape]
      intro p hp _
      apply hreplaces.text
      exact SyntaxTree.not_below_previousSibling hw (Kind.ne_block_of_isTerminable hterminable).2 hp
        (Nat.le_refl _)
    · cases hresult

structure Separated (s₀ : Instrumentation) (done : List NodeId) (s : Instrumentation) : Prop where
  passed : Passed s₀ done s
  terminated : ∀ T ∈ done, Rule.terminator.handles (s₀.tree.kind T) = true →
    s₀.touchesSuppressed T = false → s.Terminated T

theorem isTerminable_of_handles {kind : Kind} (h : Rule.terminator.handles kind = true) :
    kind.isTerminable = true := by
  simp only [Rule.handles, Bool.and_eq_true] at h
  exact h.1

theorem Separated.visit (hw : s₀.tree.WellFormed) (hfresh : s₀.tree.IsFresh)
    (h : Separated s₀ done s) (hnot : ∀ f ∈ done, ¬ s₀.tree.Below f id)
    (hstop : ∀ f ∈ done, (s₀.tree.node f).stop ≤ (s₀.tree.node id).stop)
    (hv : Yields (visit Rule.all id) s () s') : Separated s₀ (done ++ [id]) s' := by
  have hfixed := h.passed.visited.fixed
  have hws := h.passed.visited.wellFormed hw
  refine ⟨h.passed.visit hw hfresh hnot hv, fun T hT hhandles hrows => ?_⟩
  rw [← hfixed.shape.kind] at hhandles
  have hterminable := isTerminable_of_handles hhandles
  rcases List.mem_append.1 hT with hT | hT
  · apply (h.terminated T hT (hfixed.shape.kind ▸ hhandles) hrows).visit hws hterminable
      (visit_ok hv (hostsIn_true s id))
    · exact fun hbelow => hnot T hT (hfixed.shape.symm.below hbelow)
    · intro p hp
      apply SyntaxTree.not_below_previousSibling hws (Kind.ne_block_of_isTerminable hterminable).2 hp
      rw [hfixed.shape.stop, hfixed.shape.stop]
      exact hstop T hT
  · obtain rfl := List.mem_singleton.1 hT
    rw [← hfixed.touchesSuppressed] at hrows
    exact visit_terminated hws hv hhandles hrows (h.passed.bare_above hnot .refl)

theorem pass_separated (hw : s₀.tree.WellFormed) (hfresh : s₀.tree.IsFresh)
    (h : Yields (pass Rule.all) s₀ () s) : Separated s₀ s₀.agenda s := by
  have hstart : Separated s₀ [] s₀ := ⟨.start hfresh, by simp⟩
  refine visitAll_induction (Q := Separated s₀) hstart (fun hagenda hQ hv => ?_)
    (Yields.get_bind_iff.1 h)
  have hordered : s₀.agenda.Pairwise fun a b => (s₀.tree.node a).stop ≤ (s₀.tree.node b).stop :=
    SyntaxTree.postOrder_stop hw
  rw [hagenda] at hordered
  exact hQ.visit hw hfresh (not_below_of_agenda hw hagenda)
    (fun f hf => (List.pairwise_append.1 hordered).2.2 f hf _ List.mem_cons_self) hv

theorem below_root_or_eq (hw : s₀.tree.WellFormed) {d : NodeId}
    (hroot : s₀.tree.Below SyntaxTree.root d) (h : s₀.tree.Below T d) :
    s₀.tree.Below SyntaxTree.root T := by
  rcases hw.below_or_below hroot h with hbelow | hbelow
  · exact hbelow
  · have hle : T ≤ 0 := hw.le_of_below hbelow
    rw [Nat.le_zero.1 hle]
    exact .refl

theorem mem_agenda_of_below (hw : s₀.tree.WellFormed) {d : NodeId} (hd : d ∈ s₀.agenda)
    (h : s₀.tree.Below T d) : T ∈ s₀.agenda := by
  obtain ⟨hroot, hclear⟩ := (SyntaxTree.mem_postOrder hw.linked).1 hd
  exact (SyntaxTree.mem_postOrder hw.linked).2
    ⟨below_root_or_eq hw hroot h, fun a ha haT => hclear a ha (haT.trans h)⟩

theorem Passed.bare_of_notMem (hw : s₀.tree.WellFormed) (h : Passed s₀ s₀.agenda s)
    (hkind : s₀.tree.kind T ≠ .statementBlock) (hT : T ∉ s₀.agenda) {d : NodeId}
    (hd : s₀.tree.Below T d) : (s.tree.node d).replacement = none := by
  refine Option.eq_none_iff_forall_ne_some.2 fun rep hrep => ?_
  obtain ⟨f, hf, rfl | ⟨number, hb⟩⟩ := (h.replaced d rep hrep).visited
  · exact hT (mem_agenda_of_below hw hf hd)
  · rcases hd.eq_or_mem with rfl | ⟨q, hq, hbelow⟩
    · exact hkind (hw.block hb.kind hb.child)
    · obtain rfl := hw.parent_unique hq (SyntaxTree.child?_mem hb.child)
      exact hT (mem_agenda_of_below hw hf hbelow)

def Kind.endsInStatement : Kind → Bool
  | .forInStatement => true
  | .other name => ["if_statement", "else_clause", "for_statement", "while_statement",
      "with_statement", "labeled_statement"].contains name
  | _ => false

namespace SyntaxTree

inductive EndsIn (t : SyntaxTree) : NodeId → NodeId → Prop
  | self {id : NodeId} : EndsIn t id id
  | nested {id c u : NodeId} : (t.kind id).endsInStatement = true →
      (t.significantChildren id).getLast? = some c → EndsIn t c u → EndsIn t id u

structure Unterminated (t : SyntaxTree) (u : NodeId) : Prop where
  kind : (t.kind u).isTerminable = true ∨
    t.kind u = .other "export_statement" ∧ (t.child? u "value").isSome = true
  text : endsWithSemicolon (t.text u) = false

theorem EndsIn.eq_of_isTerminable {t : SyntaxTree} (h : t.EndsIn p u)
    (hp : (t.kind p).isTerminable = true) : u = p := by
  cases h with
  | self => rfl
  | nested hcompound _ _ =>
    cases hkind : t.kind p with
    | other name =>
      rw [hkind] at hcompound hp
      simp only [Kind.endsInStatement, List.contains_eq_mem, List.mem_cons, List.not_mem_nil,
        or_false, decide_eq_true_eq] at hcompound
      rcases hcompound with rfl | rfl | rfl | rfl | rfl | rfl <;> cases hp
    | _ => simp_all [Kind.endsInStatement, Kind.isTerminable]

end SyntaxTree

theorem head_of_startsWithBracket {text : String} (h : startsWithBracket text = true) :
    ∃ c, text.toList.head? = some c ∧ (c = '(' ∨ c = '[') := by
  unfold startsWithBracket at h
  split at h
  · next c hc => exact ⟨c, hc, by simpa using h⟩
  · cases h

theorem startsWithBracket_append {text : String} (h : startsWithBracket text = true)
    (rest : String) : startsWithBracket (text ++ rest) = true := by
  obtain ⟨c, hc, hbracket⟩ := head_of_startsWithBracket h
  unfold startsWithBracket
  rw [String.toList_append, List.head?_append, hc]
  simpa using hbracket

theorem print_statement (leading : Bool) {own : String} (trailing : Bool)
    (h : startsWithBracket own = true) :
    ((Replacement.statement leading own trailing).print.toList.head? = some ';' ↔ leading = true) ∧
      (startsWithBracket (Replacement.statement leading own trailing).print = true ↔
        leading = false) := by
  cases leading with
  | true => simp [Replacement.print, startsWithBracket]
  | false =>
    obtain ⟨c, hc, hbracket⟩ := head_of_startsWithBracket h
    have hprint : (Replacement.statement false own trailing).print =
        own ++ if trailing then ";" else "" := by simp [Replacement.print]
    rw [hprint]
    refine ⟨?_, by simp [startsWithBracket_append h]⟩
    rw [String.toList_append, List.head?_append, hc]
    rcases hbracket with rfl | rfl <;> simp

/-- The visited statement, whose text begins with a bracket, gets a semicolon before it exactly if
the statement before it needs one and has none. -/
theorem missingSemicolons_leading {own : String} (h : startsWithBracket own = true) :
    (s.missingSemicolons T own).1 = s.followsUnterminated T := by
  unfold Instrumentation.missingSemicolons
  dsimp only
  split
  · rw [startsWithBracket_append h, Bool.true_and]
  · rw [h, Bool.true_and]

theorem Passed.mem_agenda_of_ownText (hw : s₀.tree.WellFormed) (h : Passed s₀ s₀.agenda s)
    (hid : T < s₀.tree.size) (hkind : s₀.tree.kind T ≠ .statementBlock)
    (hchanged : s.tree.ownText T ≠ s₀.tree.rawSource T) : T ∈ s₀.agenda := by
  have hshape := h.visited.fixed.shape
  have hws := h.visited.wellFormed hw
  apply Decidable.not_not.1
  intro hT
  have hbare : ∀ d, s.tree.Below T d → (s.tree.node d).replacement = none := fun d hd =>
    h.bare_of_notMem hw hkind hT (hshape.symm.below hd)
  have hid : T < s.tree.size := hshape.size ▸ hid
  apply hchanged
  rw [← SyntaxTree.text_of_none hws hid (hbare T .refl), SyntaxTree.text_of_bare hws hid hbare,
    hshape.rawSource]

theorem Passed.bare_of_suppressed (hw : s₀.tree.WellFormed) (h : Passed s₀ s₀.agenda s)
    (hkind : s₀.tree.kind T ≠ .statementBlock) (hrows : s₀.touchesSuppressed T = true) :
    (s.tree.node T).replacement = none := by
  refine Option.eq_none_iff_forall_ne_some.2 fun rep hrep => ?_
  obtain ⟨-, hclear⟩ := (h.replaced T rep hrep).own_visit hw hkind
  rw [hrows] at hclear
  cases hclear

theorem followsUnterminated_eq (hshape : s₀.tree.SameShape s.tree)
    (hp : s₀.tree.previousSibling? T = some p) (hu : s₀.tree.EndsIn p u)
    (hopen : s.tree.Unterminated u) :
    s.followsUnterminated T = (s₀.tree.kind p).isTerminable := by
  unfold Instrumentation.followsUnterminated
  rw [hshape.previousSibling?, hp]
  simp only [hshape.kind]
  cases hkind : (s₀.tree.kind p).isTerminable with
  | false => rfl
  | true =>
    rw [← hu.eq_of_isTerminable hkind, hopen.text]
    rfl

/-- A statement comes to begin with a bracket, behind one that ends, or the last statement of which
ends, without a semicolon. There is a semicolon between them exactly if the one before it is itself a
statement that takes a semicolon, and no row of the later one is suppressed. -/
theorem pass_separates {tree : SyntaxTree} {scopes : ScopeTable} {suppression : Suppression}
    {hook file : String} (hw : tree.WellFormed) (hfresh : tree.IsFresh)
    (h : Yields (pass Rule.all) (.start tree scopes suppression hook file) () s)
    (hhandles : Rule.terminator.handles (tree.kind T) = true)
    (hbegins : startsWithBracket (s.tree.ownText T) = true)
    (hsource : startsWithBracket (tree.rawSource T) = false)
    (hp : tree.previousSibling? T = some p) (hu : tree.EndsIn p u)
    (hopen : s.tree.Unterminated u) :
    ((s.tree.text T).toList.head? = some ';' ↔ (tree.kind p).isTerminable = true ∧
      tree.touchesRows T suppression.isSuppressed = false) ∧
    (startsWithBracket (s.tree.text T) = true ↔ ¬ ((tree.kind p).isTerminable = true ∧
      tree.touchesRows T suppression.isSuppressed = false)) := by
  obtain ⟨htree, -, hsuppression, -⟩ := start_same tree scopes suppression hook file
  have hrows : (Instrumentation.start tree scopes suppression hook file).touchesSuppressed T =
      tree.touchesRows T suppression.isSuppressed := by
    rw [Instrumentation.touchesSuppressed, htree, hsuppression]
  rw [← hrows]
  generalize Instrumentation.start tree scopes suppression hook file = s₀ at *
  subst htree
  have hterminable := isTerminable_of_handles hhandles
  obtain ⟨hblock, -⟩ := Kind.ne_block_of_isTerminable hterminable
  obtain ⟨hpassed, hterminated⟩ := pass_separated hw hfresh h
  have hshape := hpassed.visited.fixed.shape
  have hid : T < s₀.tree.size := lt_size_of_handles hhandles
  -- off the suppressed rows the statement was visited after its parts; on them nothing changed
  cases hsuppressed : s₀.touchesSuppressed T with
  | false =>
    have hagenda : T ∈ s₀.agenda := by
      apply hpassed.mem_agenda_of_ownText hw hid hblock
      intro hsame
      rw [hsame, hsource] at hbegins
      cases hbegins
    have htext := hterminated T hagenda hhandles hsuppressed
    obtain ⟨hsemicolon, hbracket⟩ := print_statement (s.missingSemicolons T (s.tree.ownText T)).1
      (s.missingSemicolons T (s.tree.ownText T)).2 hbegins
    rw [htext, hsemicolon, hbracket, missingSemicolons_leading hbegins,
      followsUnterminated_eq hshape hp hu hopen]
    simp
  | true =>
    have hws := hpassed.visited.wellFormed hw
    rw [SyntaxTree.text_of_none hws (hshape.size ▸ hid) (hpassed.bare_of_suppressed hw hblock hsuppressed)]
    obtain ⟨c, hc, hbracket⟩ := head_of_startsWithBracket hbegins
    rw [hc, hbegins]
    rcases hbracket with rfl | rfl <;> simp

def suppressedCall : List Char := "if (a) // JSane: ignore\n  b()\nc = d".toList

def suppressedCallTree : SyntaxTree :=
  .ofConcrete suppressedCall (.named "program" 0 35 none [
    .named "if_statement" 0 29 none [
      .named "parenthesized_expression" 3 6 (some "condition") [.named "identifier" 4 5 none []],
      .named "comment" 7 23 none [],
      .named "expression_statement" 26 29 (some "consequence") [
        .named "call_expression" 26 29 none [
          .named "identifier" 26 27 (some "function") [],
          .named "arguments" 27 29 (some "arguments") []]]],
    .named "expression_statement" 30 35 none [
      .named "assignment_expression" 30 35 none [
        .named "identifier" 30 31 (some "left") [],
        .named "identifier" 34 35 (some "right") []]]])

def suppressedCallScopes : ScopeTable := (ScopeTable.analyze suppressedCallTree).toOption.getD {}

def suppressedCallStart : Instrumentation :=
  .start suppressedCallTree suppressedCallScopes ⟨[false, true, false]⟩ "__rt" "t.js"

theorem pass_separates_suppressedCall :
    let s := (suppressedCallStart.afterPass Rule.all).2
    suppressedCallTree.WellFormed ∧
      (Suppression.scan "t.js" suppressedCall).toOption.map Prod.fst = some ⟨[false, true, false]⟩ ∧
      ScopeTable.analyze suppressedCallTree = .ok suppressedCallScopes ∧
      Yields (pass Rule.all) suppressedCallStart () s ∧
      suppressedCallTree.previousSibling? 9 = some 1 ∧ suppressedCallTree.EndsIn 1 5 ∧
      s.tree.Unterminated 5 ∧ startsWithBracket (suppressedCallTree.rawSource 9) = false ∧
      startsWithBracket (s.tree.text 9) = true ∧
      s.tree.render = "if (a) // JSane: ignore\n  b()\n" ++
        "(c = __rt.assign(d, __rt, \"c\", __rt, \"d\", \"t.js:3\"));" := by
  intro s
  have hw : suppressedCallTree.WellFormed := by decide +kernel
  have hscopes : ScopeTable.analyze suppressedCallTree = .ok suppressedCallScopes :=
    ok_of_toBool {} (by decide +kernel)
  have hrun : Yields (pass Rule.all) suppressedCallStart () s := .of_toBool (by decide +kernel)
  have hprevious : suppressedCallTree.previousSibling? 9 = some 1 := by decide +kernel
  have hends : suppressedCallTree.EndsIn 1 5 :=
    .nested (by decide +kernel) (by decide +kernel) .self
  have hopen : s.tree.Unterminated 5 := ⟨.inl (by decide +kernel), by decide +kernel⟩
  have hsource : startsWithBracket (suppressedCallTree.rawSource 9) = false := by decide +kernel
  have hseparates := pass_separates hw (SyntaxTree.isFresh_ofConcrete _ _) hrun (T := 9)
    (by decide +kernel) (by decide +kernel) hsource hprevious hends hopen
  exact ⟨hw, by decide +kernel, hscopes, hrun, hprevious, hends, hopen, hsource,
    hseparates.2.2 (by decide +kernel), by decide +kernel⟩

end CoercionTrace
