import CoercionTrace.Proofs.Syntax.Cuts

/-!
# Prologues

In front of a body stand its directives, in front of a program the hashbang line and its directives.
Main statements: cut behind what the program takes for them, a body (`takenApart_body`) and the program
(`takenApart_program`) lose nothing, and the first part holds the whole prologue unless an HTML comment
stands in it.
-/

namespace CoercionTrace

section

variable {l : List Nat} {p q r : Nat → Bool} {c d : Nat}

theorem mem_takeWhile_of_le (hl : l.Pairwise (· < ·)) (hc : c ∈ l) (hd : d ∈ l.takeWhile p)
    (hle : c ≤ d) : c ∈ l.takeWhile p := by
  induction l with
  | nil => cases hc
  | cons x l ih =>
    obtain ⟨hx, hl⟩ := List.pairwise_cons.1 hl
    rw [List.takeWhile_cons] at hd ⊢
    split at hd
    · next hp =>
      rw [if_pos hp]
      rcases List.mem_cons.1 hc with rfl | hc
      · exact List.mem_cons_self
      · rcases List.mem_cons.1 hd with e | hd
        · exact absurd (hx c hc) (Nat.not_lt_of_le (e ▸ hle))
        · exact List.mem_cons_of_mem _ (ih hl hc hd)
    · cases hd

theorem mem_takeWhile_filter (hp : ∀ c, p c = true → q c = true ∧ r c = true)
    (hc : c ∈ l.takeWhile p) : c ∈ (l.filter q).takeWhile r := by
  induction l with
  | nil => cases hc
  | cons x l ih =>
    rw [List.takeWhile_cons] at hc
    split at hc
    · next hx =>
      obtain ⟨hq, hr⟩ := hp x hx
      rw [List.filter_cons_of_pos hq, List.takeWhile_cons_of_pos hr]
      exact (List.mem_cons.1 hc).elim (fun e => e ▸ List.mem_cons_self) fun hc =>
        List.mem_cons_of_mem _ (ih hc)
    · cases hc

theorem mem_takeWhile_of_filter (hl : l.Pairwise (· < ·))
    (hp : ∀ c ∈ (l.filter q).takeWhile r, p c = true)
    (hq : ∀ c ∈ (l.filter q).takeWhile r, ∀ x ∈ l, q x = false → ¬ x < c)
    (hc : c ∈ (l.filter q).takeWhile r) : c ∈ l.takeWhile p := by
  induction l with
  | nil => cases hc
  | cons x l ih =>
    obtain ⟨hx, hl⟩ := List.pairwise_cons.1 hl
    cases hqx : q x with
    | false =>
      have hmem : c ∈ l := by
        rw [List.filter_cons_of_neg (by simp [hqx])] at hc
        exact (List.mem_filter.1 ((List.takeWhile_sublist _).subset hc)).1
      exact absurd (hx c hmem) (hq c hc x List.mem_cons_self hqx)
    | true =>
      rw [List.filter_cons_of_pos hqx] at hc hp hq
      cases hrx : r x with
      | false =>
        rw [List.takeWhile_cons_of_neg (by simp [hrx])] at hc
        cases hc
      | true =>
        rw [List.takeWhile_cons_of_pos hrx] at hc hp hq
        rw [List.takeWhile_cons_of_pos (hp x List.mem_cons_self)]
        rcases List.mem_cons.1 hc with rfl | hc
        · exact List.mem_cons_self
        · refine List.mem_cons_of_mem _ (ih hl (fun c hc => hp c (List.mem_cons_of_mem _ hc)) ?_ hc)
          exact fun c hc y hy => hq c (List.mem_cons_of_mem _ hc) y (List.mem_cons_of_mem _ hy)

theorem le_of_getLast? (hl : l.Pairwise (· < ·)) (hlast : l.getLast? = some d) (hc : c ∈ l) :
    c ≤ d := by
  obtain ⟨front, rfl⟩ := List.getLast?_eq_some_iff.1 hlast
  rcases List.mem_append.1 hc with hc | hc
  · exact Nat.le_of_lt ((List.pairwise_append.1 hl).2.2 c hc d List.mem_cons_self)
  · exact Nat.le_of_eq (List.mem_singleton.1 hc)

end

namespace SyntaxTree

def isRemark (t : SyntaxTree) (c : NodeId) : Bool :=
  t.kind c == .comment || t.kind c == .other "html_comment"

def isPlainString (t : SyntaxTree) (c : NodeId) : Bool :=
  t.kind c == .expressionStatement && match (t.children c).filter fun d => !t.isRemark d with
    | [only] => t.kind only == .stringLiteral
    | _ => false

def isProgramHead (t : SyntaxTree) (c : NodeId) : Bool :=
  t.kind c == .hashBangLine || t.isPlainString c

def prologue (t : SyntaxTree) (isHead : NodeId → Bool) (id : NodeId) : List NodeId :=
  ((t.children id).filter fun c => !t.isRemark c).takeWhile isHead

structure Interrupts (t : SyntaxTree) (isHead : NodeId → Bool) (id d : NodeId) : Prop where
  kind : t.kind d = .other "html_comment"
  place : ∃ c ∈ t.prologue isHead id,
    d ∈ t.children id ∧ d < c ∨ t.kind c = .expressionStatement ∧ d ∈ t.children c

/-- What stands in a node between `start` and `stop` is taken apart at `cut`, behind the prologue of
the node, and a semicolon may go there. -/
structure TakenApart (t : SyntaxTree) (isHead : NodeId → Bool) (id : NodeId) (start cut stop : Nat)
    (first rest : String) (semicolon : Bool) : Prop where
  bounds : start ≤ cut ∧ cut ≤ stop
  before : first = t.textBetween id start cut
  behind : rest = t.textBetween id cut stop
  whole : first ++ rest = t.textBetween id start stop
  own : t.ownText id = slice t.source (t.node id).start start ++ first ++ rest ++
    slice t.source stop (t.node id).stop
  head : ∀ c ∈ t.childrenBetween id start cut, t.isRemark c = true ∨ c ∈ t.prologue isHead id
  prologue : (t.prologue isHead id).Sublist (t.childrenBetween id start cut) ↔
    ∀ d, ¬ t.Interrupts isHead id d
  closes : semicolon = true → endsWithSemicolon first = false ∧
    ∃ c ∈ t.childrenBetween id start cut, t.isPlainString c = true ∧ (t.node c).stop = cut

variable {t : SyntaxTree} {id b c d : NodeId} {start cut stop : Nat}

theorem SameShape.isProgramHead {t' : SyntaxTree} (h : t.SameShape t') :
    t'.isProgramHead = t.isProgramHead := by
  funext c
  simp only [SyntaxTree.isProgramHead, isPlainString, isRemark, h.kind, h.children]

theorem SameShape.prologue {t' : SyntaxTree} (h : t.SameShape t') : t'.prologue = t.prologue := by
  funext isHead id
  simp only [SyntaxTree.prologue, isRemark, h.kind, h.children]

theorem filter_isRemark (t : SyntaxTree) (id : NodeId) :
    ((t.children id).filter fun c => !t.isRemark c) =
      (t.significantChildren id).filter fun c => !(t.kind c == .other "html_comment") := by
  rw [significantChildren, List.filter_filter]
  refine List.filter_congr fun c _ => ?_
  by_cases h : t.kind c = .comment <;> simp [isRemark, h]

theorem isDirective_iff : t.isDirective c = true ↔
    ∃ only, t.significantChildren c = [only] ∧ t.kind only = .stringLiteral := by
  unfold isDirective
  split
  · next only h => simp [h]
  · next h =>
    simp only [Bool.false_eq_true, false_iff, not_exists, not_and]
    exact fun only honly => absurd honly (h only)

theorem isDirectiveStatement_iff : t.isDirectiveStatement c = true ↔
    t.isPlainString c = true ∧ ∀ h ∈ t.children c, t.kind h ≠ .other "html_comment" := by
  rw [isDirectiveStatement, Bool.and_eq_true, decide_eq_true_eq, isDirective_iff]
  constructor
  · rintro ⟨hkind, only, honly, hstring⟩
    refine ⟨by simp [isPlainString, filter_isRemark, hkind, honly, hstring], fun h hh hhtml => ?_⟩
    have hmem : h ∈ t.significantChildren c := List.mem_filter.2 ⟨hh, by simp [hhtml]⟩
    rw [honly, List.mem_singleton] at hmem
    rw [hmem, hstring] at hhtml
    cases hhtml
  · rintro ⟨hplain, hnone⟩
    obtain ⟨hkind, hplain⟩ := Bool.and_eq_true_iff.1 hplain
    have hall : ((t.significantChildren c).filter fun d => !(t.kind d == .other "html_comment")) =
        t.significantChildren c :=
      List.filter_eq_self.2 fun d hd => by simpa using hnone d (mem_of_significant hd)
    rw [filter_isRemark, hall] at hplain
    refine ⟨by simpa using hkind, isDirective_iff.1 ?_⟩
    unfold isDirective
    exact hplain

theorem kind_of_isPlainString (h : t.isPlainString c = true) : t.kind c = .expressionStatement :=
  eq_of_beq (Bool.and_eq_true_iff.1 h).1

theorem isRemark_eq_false (c : NodeId) (h : t.isPlainString c = true) :
    t.isRemark c = false := by
  simp [isRemark, kind_of_isPlainString h]

variable {stopOf : NodeId → Nat} {p q : NodeId → Bool}

theorem significant_sorted (hw : t.WellFormed) (id : NodeId) :
    (t.significantChildren id).Pairwise (· < ·) :=
  ((hw.ordered id).imp And.left).sublist List.filter_sublist

theorem stop_le_lastOr_iff (hw : t.WellFormed) (hc : c ∈ t.children id)
    (hstart : start ≤ (t.node c).start)
    (hstop : ∀ d ∈ t.children id, p d = true → (t.node d).stop ≤ stopOf d ∧
      (d < c → stopOf d ≤ (t.node c).start)) :
    (t.node c).stop ≤ lastOr stopOf start ((t.significantChildren id).takeWhile p) ↔
      ∃ d ∈ (t.significantChildren id).takeWhile p, c ≤ d := by
  have hproper := hw.proper hc
  have hsorted := (significant_sorted hw id).sublist (List.takeWhile_sublist p)
  have htaken : ∀ d ∈ (t.significantChildren id).takeWhile p, d ∈ t.children id ∧ p d = true :=
    fun d hd => ⟨mem_of_significant ((List.takeWhile_sublist p).subset hd),
      List.mem_takeWhile_imp hd⟩
  rw [lastOr]
  cases hlast : ((t.significantChildren id).takeWhile p).getLast? with
  | none =>
    rw [List.getLast?_eq_none_iff.1 hlast]
    simp only [Option.map_none, Option.getD_none, List.not_mem_nil, false_and, exists_false,
      iff_false]
    omega
  | some last =>
    have hmem := List.mem_of_getLast? hlast
    obtain ⟨hchild, hp⟩ := htaken last hmem
    obtain ⟨hle, hbehind⟩ := hstop last hchild hp
    rw [Option.map_some, Option.getD_some]
    constructor
    · -- Behind the last one a node would have to end before it begins.
      intro h
      refine ⟨last, hmem, Nat.le_of_not_lt fun hlt => ?_⟩
      have := hbehind hlt
      omega
    · rintro ⟨d, hd, hcd⟩
      have hclast := Nat.le_trans hcd (le_of_getLast? hsorted hlast hd)
      rcases hw.siblings hc hchild with h | ⟨h, -⟩
      · exact Nat.le_trans h hle
      · exact absurd h (Nat.not_lt_of_le hclast)

/-- The program scans for nodes with `p` to find those with `q`, and cuts behind the last of them. -/
structure Scans (t : SyntaxTree) (p q : NodeId → Bool) (id : NodeId) (start cut : Nat) : Prop where
  taken : ∀ c, p c = true ↔ q c = true ∧ (t.kind c = .expressionStatement →
    ∀ h ∈ t.children c, t.kind h ≠ .other "html_comment")
  remark : ∀ c, q c = true → t.isRemark c = false
  plain : ∀ c, q c = true → t.kind c = .expressionStatement → t.isPlainString c = true
  window : ∀ c, c ∈ t.childrenBetween id start cut ↔
    c ∈ t.children id ∧ ∃ d ∈ (t.significantChildren id).takeWhile p, c ≤ d

theorem prologue_eq (t : SyntaxTree) (q : NodeId → Bool) (id : NodeId) : t.prologue q id =
    ((t.significantChildren id).filter fun c => !(t.kind c == .other "html_comment")).takeWhile q := by
  rw [prologue, filter_isRemark]

namespace Scans

variable (h : t.Scans p q id start cut)
include h

theorem kind_ne (hp : p c = true) : t.kind c ≠ .other "html_comment" := by
  intro hkind
  have hremark := h.remark c ((h.taken c).1 hp).1
  simp [isRemark, hkind] at hremark

variable (hw : t.WellFormed)
include hw

theorem mem_taken (hc : c ∈ t.childrenBetween id start cut) (hkind : t.kind c ≠ .comment) :
    c ∈ (t.significantChildren id).takeWhile p := by
  obtain ⟨hchild, d, hd, hle⟩ := (h.window c).1 hc
  have hsignificant : c ∈ t.significantChildren id :=
    List.mem_filter.2 ⟨hchild, decide_eq_true hkind⟩
  exact mem_takeWhile_of_le (significant_sorted hw id) hsignificant hd hle

theorem head (hc : c ∈ t.childrenBetween id start cut) :
    t.isRemark c = true ∨ c ∈ t.prologue q id := by
  by_cases hkind : t.kind c = .comment
  · exact .inl (by simp [isRemark, hkind])
  · rw [prologue_eq]
    refine .inr (mem_takeWhile_filter (fun c hp => ?_) (h.mem_taken hw hc hkind))
    exact ⟨by simpa using h.kind_ne hp, ((h.taken c).1 hp).1⟩

theorem not_interrupts (hsub : (t.prologue q id).Sublist (t.childrenBetween id start cut))
    (d : NodeId) : ¬ t.Interrupts q id d := by
  rintro ⟨hkind, c, hc, hplace⟩
  have hremark := h.remark c (List.mem_takeWhile_imp hc)
  have hcomment : t.kind c ≠ .comment := by
    intro e
    simp [isRemark, e] at hremark
  have htaken := h.mem_taken hw (hsub.subset hc) hcomment
  rcases hplace with ⟨hchild, hlt⟩ | ⟨hexpression, hchild⟩
  · have hbetween : d ∈ t.childrenBetween id start cut :=
      (h.window d).2 ⟨hchild, c, htaken, Nat.le_of_lt hlt⟩
    have hd := h.mem_taken hw hbetween (by simp [hkind])
    exact h.kind_ne (List.mem_takeWhile_imp hd) hkind
  · exact ((h.taken c).1 (List.mem_takeWhile_imp htaken)).2 hexpression d hchild hkind

theorem mem_of_prologue (hnone : ∀ d, ¬ t.Interrupts q id d) (hc : c ∈ t.prologue q id) :
    c ∈ t.childrenBetween id start cut := by
  have htaken : c ∈ (t.significantChildren id).takeWhile p := by
    refine mem_takeWhile_of_filter (significant_sorted hw id) (fun d hd => ?_)
      (fun d hd x hx hkind hlt => ?_) (t.prologue_eq q id ▸ hc)
    · refine (h.taken d).2 ⟨List.mem_takeWhile_imp hd, fun hexpression x hx hkind => ?_⟩
      exact hnone x ⟨hkind, d, t.prologue_eq q id ▸ hd, .inr ⟨hexpression, hx⟩⟩
    · exact hnone x ⟨by simpa using hkind, d, t.prologue_eq q id ▸ hd,
        .inl ⟨mem_of_significant hx, hlt⟩⟩
  have hsignificant := (List.takeWhile_sublist p).subset htaken
  exact (h.window c).2 ⟨mem_of_significant hsignificant, c, htaken, Nat.le_refl c⟩

theorem prologue_sublist_iff : (t.prologue q id).Sublist (t.childrenBetween id start cut) ↔
    ∀ d, ¬ t.Interrupts q id d := by
  refine ⟨h.not_interrupts hw, fun hnone => ?_⟩
  have hsub : (t.prologue q id).Sublist (t.children id) :=
    (List.takeWhile_sublist q).trans List.filter_sublist
  have hfilter := hsub.filter fun c => start ≤ (t.node c).start && (t.node c).stop ≤ cut
  rwa [List.filter_eq_self.2 fun c hc =>
    (List.mem_filter.1 (h.mem_of_prologue hw hnone hc)).2] at hfilter

theorem takenApart {semicolon : Bool} (hle : start ≤ cut ∧ cut ≤ stop)
    (hrange : (t.node id).start ≤ start ∧ stop ≤ (t.node id).stop)
    (hcut : ∀ c ∈ t.children id, (t.node c).stop ≤ cut ∨ cut ≤ (t.node c).start)
    (hends : ∀ c ∈ t.children id,
      start ≤ (t.node c).start ∧ (t.node c).stop ≤ stop ∨ t.text c = t.rawSource c)
    (hcloses : semicolon = true → endsWithSemicolon (t.textBetween id start cut) = false ∧
      ∃ c ∈ t.children id, t.kind c = .expressionStatement ∧ start ≤ (t.node c).start ∧
        (t.node c).stop = cut) :
    t.TakenApart q id start cut stop (t.textBetween id start cut) (t.textBetween id cut stop)
      semicolon := by
  have hwhole := textBetween_append hw hle.1 hle.2 hcut
  refine ⟨hle, rfl, rfl, hwhole, ?_, fun c => h.head hw, h.prologue_sublist_iff hw, fun hs => ?_⟩
  · rw [ownText_between hw hrange.1 (Nat.le_trans hle.1 hle.2) hrange.2 hends, ← hwhole,
      ← String.append_assoc]
  · obtain ⟨hopen, c, hc, hkind, hstart, hstop⟩ := hcloses hs
    have hbetween : c ∈ t.childrenBetween id start cut :=
      mem_between.2 ⟨hc, hstart, Nat.le_of_eq hstop⟩
    have hprologue := (h.head hw hbetween).resolve_left (by simp [isRemark, hkind])
    exact ⟨hopen, c, hbetween, h.plain c (List.mem_takeWhile_imp hprologue) hkind, hstop⟩

end Scans

variable (hw : t.WellFormed)
include hw

theorem mem_directives (hb : t.kind b = .statementBlock) :
    c ∈ t.childrenBetween b (t.bodyStart b) (t.bodyCut b) ↔ c ∈ t.children b ∧
      ∃ d ∈ (t.significantChildren b).takeWhile t.isDirectiveStatement, c ≤ d := by
  rw [mem_between, bodyCut, directivesEnd_eq]
  refine and_congr_right fun hc => ?_
  have hstart := (hw.closes hb hc).1
  rw [and_iff_right (show t.bodyStart b ≤ (t.node c).start from hstart)]
  exact stop_le_lastOr_iff hw hc hstart fun d hd _ => ⟨Nat.le_refl _, hw.before_of_lt hd hc⟩

theorem mem_programHead : c ∈ t.childrenBetween root (t.node root).start t.insertionPoint.1 ↔
    c ∈ t.children root ∧
      ∃ d ∈ (t.significantChildren root).takeWhile t.isHeadStatement, c ≤ d := by
  have hcut : t.insertionPoint.1 = min (lastOr t.headStop (t.node root).start
      ((t.significantChildren root).takeWhile t.isHeadStatement)) (t.node root).stop := by
    rw [insertionPoint, headEnd_eq]
  rw [mem_between, hcut]
  refine and_congr_right fun hc => ?_
  obtain ⟨hstart, hstop⟩ := hw.nested hc
  rw [and_iff_right hstart, Nat.le_min, and_iff_left hstop]
  refine stop_le_lastOr_iff hw hc hstart fun d hd _ => ?_
  unfold headStop
  split
  · next hkind => exact ⟨Nat.le_add_right _ _, hw.lines hd hkind hc⟩
  · exact ⟨Nat.le_refl _, hw.before_of_lt hd hc⟩

theorem takenApart_body (hb : t.kind b = .statementBlock)
    (hleaf : ∀ c, t.IsLeaf c → (t.node c).replacement = none) :
    t.TakenApart t.isPlainString b (t.bodyStart b) (t.bodyCut b) (t.bodyStop b)
      (t.textBetween b (t.bodyStart b) (t.bodyCut b)) (t.textBetween b (t.bodyCut b) (t.bodyStop b))
      (t.lacksSemicolon b) := by
  have hscan : t.Scans t.isDirectiveStatement t.isPlainString b (t.bodyStart b) (t.bodyCut b) := by
    refine ⟨fun c => ?_, isRemark_eq_false, fun c hc _ => hc, fun c => mem_directives hw hb⟩
    rw [isDirectiveStatement_iff]
    exact and_congr_right fun hc => ⟨fun h _ => h, fun h => h (kind_of_isPlainString hc)⟩
  refine hscan.takenApart hw (hw.bodyStart_le hb) ⟨Nat.le_succ _, Nat.sub_le _ _⟩
    (fun c hc => hw.bodyCut_between hb hc) (fun c hc => ?_) fun h => ?_
  · obtain ⟨hopen, hclose⟩ := hw.closes hb hc
    -- What crosses the end of the interior is never replaced.
    refine hclose.imp (fun hclose => ⟨hopen, Nat.le_sub_one_of_lt hclose⟩) fun hc' => ?_
    rw [text_of_none hw (hw.child hc).2.1 (hleaf c hc'), ownText, hc'.1]
    rfl
  · obtain ⟨hlt, hends⟩ := Bool.and_eq_true_iff.1 h
    refine ⟨by simpa using hends, ?_⟩
    rcases t.bodyCut_cases b with hcut | ⟨c, hc, hkind, hcut⟩
    · exact absurd (of_decide_eq_true hlt) (by simp [hcut])
    · exact ⟨c, hc, hkind, (hw.closes hb hc).1, hcut.symm⟩

theorem takenApart_program : t.TakenApart t.isProgramHead root (t.node root).start
    t.insertionPoint.1 (t.node root).stop
    (t.textBetween root (t.node root).start t.insertionPoint.1)
    (t.textBetween root t.insertionPoint.1 (t.node root).stop) (t.insertionPoint.2 &&
      !endsWithSemicolon (t.textBetween root (t.node root).start t.insertionPoint.1)) := by
  have hscan : t.Scans t.isHeadStatement t.isProgramHead root (t.node root).start
      t.insertionPoint.1 := by
    refine ⟨fun c => ?_, fun c hc => ?_, fun c hc hkind => ?_, fun c => mem_programHead hw⟩
    · rw [isHeadStatement, isProgramHead, Bool.or_eq_true, Bool.or_eq_true, isDirectiveStatement_iff]
      by_cases hkind : t.kind c = .hashBangLine
      · simp [hkind]
      · simp only [beq_iff_eq, hkind, false_or]
        exact and_congr_right fun hc => ⟨fun h _ => h, fun h => h (kind_of_isPlainString hc)⟩
    · rcases Bool.or_eq_true_iff.1 hc with hkind | hplain
      · simp [isRemark, eq_of_beq hkind]
      · exact isRemark_eq_false c hplain
    · exact (Bool.or_eq_true_iff.1 hc).resolve_left (by simp [hkind])
  refine hscan.takenApart hw hw.le_insertionPoint ⟨Nat.le_refl _, Nat.le_refl _⟩
    (fun c hc => hw.insertionPoint_between hc) (fun c hc => .inl (hw.nested hc)) fun h => ?_
  obtain ⟨hafter, hends⟩ := Bool.and_eq_true_iff.1 h
  obtain ⟨c, hc, hkind, hcut⟩ := headEnd_afterDirective hafter
  have hchild := mem_of_significant hc
  refine ⟨by simpa using hends, c, hchild, hkind, (hw.nested hchild).1, ?_⟩
  change _ = min _ _
  rw [hcut]
  exact (Nat.min_eq_left (hw.nested hchild).2).symm

end SyntaxTree

end CoercionTrace
