import CoercionTrace.Instrument.Program
import Mathlib.Data.List.Pairwise

/-!
# Well-formed trees

What the grammar promises of a tree: links between parents and children agree, ranges are nested and
in order, and some fields come before others. Main statements: what is below a node lies in its
range (`WellFormed.inside_of_below`), and of two nodes above a third one is above the other
(`WellFormed.below_or_below`).
-/

namespace CoercionTrace

def Kind.IsPlainFunction (kind : Kind) : Prop :=
  kind = .functionDeclaration ∨ kind = .functionExpression

namespace SyntaxTree

def fieldOrder : List (String × String) :=
  [("left", "right"), ("object", "index"), ("function", "arguments")]

def IsLeaf (t : SyntaxTree) (id : NodeId) : Prop :=
  t.children id = [] ∧ t.kind id ∈ [Kind.identifier, .comment, .other "html_comment"]

def lineEnd (t : SyntaxTree) (id : NodeId) : Nat :=
  (t.node id).stop + lineBreakSize (sliceFrom (t.node id).stop ((t.node id).stop + 2) 0 t.source)

structure WellFormed (t : SyntaxTree) : Prop where
  root_lt : root < t.size
  program : t.kind root = .program
  range : (t.node root).start ≤ (t.node root).stop ∧ (t.node root).stop ≤ byteLength t.source
  child : ∀ {p c}, c ∈ t.children p → p < c ∧ c < t.size ∧ t.parent c = some p
  mem : ∀ {p c}, t.parent c = some p → c ∈ t.children p
  ordered : ∀ p, (t.children p).Pairwise fun a b => a < b ∧ (t.node a).stop ≤ (t.node b).start
  nested : ∀ {p c}, c ∈ t.children p →
    (t.node p).start ≤ (t.node c).start ∧ (t.node c).stop ≤ (t.node p).stop
  proper : ∀ {p c}, c ∈ t.children p → (t.node c).start < (t.node c).stop
  rows : ∀ {id}, id < t.size → (t.node id).startRow = (position t.source (t.node id).start).1 ∧
    (t.node id).endRow = (position t.source (t.node id).stop).1
  fields : ∀ {p f g a b}, (f, g) ∈ fieldOrder → t.child? p f = some a → t.child? p g = some b → a < b
  block : ∀ {f b}, (t.kind f).IsPlainFunction → t.child? f "body" = some b →
    t.kind b = .statementBlock
  /-- Beside its body a plain function has its parameters and its name. -/
  parts : ∀ {f c}, (t.kind f).IsPlainFunction → c ∈ t.children f →
    t.child? f "body" = some c ∨ t.kind c = .formalParameters ∨ t.IsLeaf c
  opens : ∀ {b}, t.kind b = .statementBlock → (t.node b).start + 2 ≤ (t.node b).stop ∧
    slice t.source (t.node b).start ((t.node b).start + 1) = "\x7b"
  /-- Nothing but a comment stands behind the closing brace of a block. -/
  closes : ∀ {b c}, t.kind b = .statementBlock → c ∈ t.children b →
    (t.node b).start < (t.node c).start ∧ ((t.node c).stop < (t.node b).stop ∨ t.IsLeaf c)
  /-- No statement begins in the line break behind the hashbang line. -/
  lines : ∀ {h c}, h ∈ t.children root → t.kind h = .hashBangLine → c ∈ t.children root → h < c →
    t.lineEnd h ≤ (t.node c).start

structure Arranged (t : SyntaxTree) : Prop where
  root_lt : root < t.size
  range : (t.node root).start ≤ (t.node root).stop ∧ (t.node root).stop ≤ byteLength t.source
  child : ∀ {p c}, c ∈ t.children p → p < c ∧ c < t.size ∧ t.parent c = some p
  ordered : ∀ p, (t.children p).Pairwise fun a b => a ≠ b ∧ (t.node a).stop ≤ (t.node b).start
  nested : ∀ {p c}, c ∈ t.children p →
    (t.node p).start ≤ (t.node c).start ∧ (t.node c).stop ≤ (t.node p).stop
  proper : ∀ {p c}, c ∈ t.children p → (t.node c).start ≤ (t.node c).stop

structure Descending (t : SyntaxTree) : Prop where
  child : ∀ {p c}, c ∈ t.children p → p < c ∧ c < t.size ∧ t.parent c = some p

structure Linked (t : SyntaxTree) : Prop extends Descending t where
  root_lt : root < t.size
  mem : ∀ {p c}, t.parent c = some p → c ∈ t.children p
  children_nodup : ∀ p, (t.children p).Nodup

structure Rooted (t : SyntaxTree) : Prop extends Linked t where
  eq_root : ∀ {c}, c < t.size → t.parent c = none → c = root

theorem WellFormed.arranged {t : SyntaxTree} (hw : t.WellFormed) : t.Arranged where
  root_lt := hw.root_lt
  range := hw.range
  child := hw.child
  ordered p := (hw.ordered p).imp fun h => ⟨Nat.ne_of_lt h.1, h.2⟩
  nested := hw.nested
  proper hc := Nat.le_of_lt (hw.proper hc)

theorem WellFormed.linked {t : SyntaxTree} (hw : t.WellFormed) : t.Linked where
  child := hw.child
  root_lt := hw.root_lt
  mem := hw.mem
  children_nodup p := (hw.ordered p).imp fun h => Nat.ne_of_lt h.1

theorem Arranged.descending {t : SyntaxTree} (ha : t.Arranged) : t.Descending := ⟨ha.child⟩

inductive Below (t : SyntaxTree) (a : NodeId) : NodeId → Prop
  | refl : Below t a a
  | child {p c : NodeId} : Below t a p → c ∈ t.children p → Below t a c

def Inside (t : SyntaxTree) (a b : NodeId) : Prop :=
  (t.node a).start ≤ (t.node b).start ∧ (t.node b).stop ≤ (t.node a).stop

def Before (t : SyntaxTree) (a b : NodeId) : Prop := (t.node a).stop ≤ (t.node b).start

def Apart (t : SyntaxTree) (a b : NodeId) : Prop := t.Before a b ∨ t.Before b a

variable {t : SyntaxTree} {a b c p : NodeId}

theorem child?_mem {field : String} (h : t.child? p field = some c) : c ∈ t.children p :=
  List.mem_of_find?_eq_some h

theorem mem_of_significant (h : c ∈ t.significantChildren p) : c ∈ t.children p :=
  (List.mem_filter.1 h).1

theorem node_of_size_le (h : t.size ≤ p) : t.node p = default := by
  rw [node, Array.getD_eq_getD_getElem?, Array.getElem?_eq_none h]
  rfl

theorem children_of_size_le (h : t.size ≤ p) : t.children p = [] := by
  rw [children, node_of_size_le h]
  rfl

theorem kind_of_isPlainMember (h : t.isPlainMember a = true) :
    t.kind a = .memberExpression ∨ t.kind a = .subscriptExpression := by
  unfold isPlainMember at h
  split at h
  · cases h
  · split at h
    · cases h
    · split at h
      · next hk => exact .inl hk
      · next hk => exact .inr hk
      · cases h

theorem unwrap_of_kind (h : t.kind a ≠ .parenthesizedExpression) : t.unwrap a = a := by
  unfold unwrap
  cases t.size with
  | zero => rfl
  | succ depth => rw [unwrapWithin, if_neg h]

namespace Below

theorem trans (h : t.Below a b) (h' : t.Below b c) : t.Below a c := by
  induction h' with
  | refl => exact h
  | child _ hc ih => exact .child ih hc

theorem of_mem (h : c ∈ t.children p) : t.Below p c := .child .refl h

theorem eq_or_mem (h : t.Below a b) : b = a ∨ ∃ p, b ∈ t.children p ∧ t.Below a p := by
  cases h with
  | refl => exact .inl rfl
  | child hp hc => exact .inr ⟨_, hc, hp⟩

theorem eq_or_child (h : t.Below a b) : b = a ∨ ∃ c ∈ t.children a, t.Below c b := by
  induction h with
  | refl => exact .inl rfl
  | child _ hc ih =>
    rcases ih with rfl | ⟨d, hd, hb⟩
    · exact .inr ⟨_, hc, .refl⟩
    · exact .inr ⟨d, hd, .child hb hc⟩

end Below

namespace Descending

theorem le_of_below (hd : t.Descending) (h : t.Below a b) : a ≤ b := by
  induction h with
  | refl => exact Nat.le_refl _
  | child _ hc ih => exact Nat.le_trans ih (Nat.le_of_lt (hd.child hc).1)

theorem below_antisymm (hd : t.Descending) (h : t.Below a b) (h' : t.Below b a) : a = b :=
  Nat.le_antisymm (hd.le_of_below h) (hd.le_of_below h')

theorem lt_size_of_below (hd : t.Descending) (h : t.Below a b) (hlt : a < t.size) : b < t.size := by
  cases h with
  | refl => exact hlt
  | child _ hc => exact (hd.child hc).2.1

theorem parent_unique (hd : t.Descending) {q : NodeId} (h : c ∈ t.children p)
    (h' : c ∈ t.children q) : p = q :=
  Option.some.inj ((hd.child h).2.2.symm.trans (hd.child h').2.2)

theorem below_or_below (hd : t.Descending) (h : t.Below a c) (hb : t.Below b c) :
    t.Below a b ∨ t.Below b a := by
  induction h with
  | refl => exact .inr hb
  | child hp hc ih =>
    rcases hb.eq_or_mem with rfl | ⟨q, hq, hbq⟩
    · exact .inl (.child hp hc)
    · obtain rfl := hd.parent_unique hc hq
      exact ih hbq

theorem child_unique (hd : t.Descending) {c' : NodeId} (hc : c ∈ t.children p)
    (hc' : c' ∈ t.children p) (h : t.Below c a) (h' : t.Below c' a) : c = c' := by
  have key : ∀ {x y}, x ∈ t.children p → y ∈ t.children p → t.Below x y → x = y := by
    intro x y hx hy hxy
    rcases hxy.eq_or_mem with rfl | ⟨q, hq, hxq⟩
    · rfl
    · obtain rfl := hd.parent_unique hy hq
      exact absurd (hd.le_of_below hxq) (Nat.not_le_of_lt (hd.child hx).1)
  rcases hd.below_or_below h h' with h | h
  · exact key hc hc' h
  · exact (key hc' hc h).symm

end Descending

namespace WellFormed

theorem le_of_below (hw : t.WellFormed) (h : t.Below a b) : a ≤ b := hw.linked.le_of_below h

theorem below_antisymm (hw : t.WellFormed) (h : t.Below a b) (h' : t.Below b a) : a = b :=
  hw.linked.below_antisymm h h'

theorem lt_of_below (hw : t.WellFormed) (h : t.Below a b) (hne : a ≠ b) : a < b :=
  Nat.lt_of_le_of_ne (hw.le_of_below h) hne

theorem lt_size_of_below (hw : t.WellFormed) (h : t.Below a b) (ha : a < t.size) : b < t.size :=
  hw.linked.lt_size_of_below h ha

theorem parent_unique (hw : t.WellFormed) {q : NodeId} (h : c ∈ t.children p)
    (h' : c ∈ t.children q) : p = q := hw.linked.parent_unique h h'

theorem below_child? (hw : t.WellFormed) {field : String} (h : t.child? p field = some c) :
    t.Below p c ∧ p < c :=
  ⟨.of_mem (child?_mem h), (hw.child (child?_mem h)).1⟩

theorem below_or_below (hw : t.WellFormed) (ha : t.Below a c) (hb : t.Below b c) :
    t.Below a b ∨ t.Below b a := hw.linked.below_or_below ha hb

theorem child_unique (hw : t.WellFormed) {c' : NodeId} (hc : c ∈ t.children p)
    (hc' : c' ∈ t.children p) (h : t.Below c a) (h' : t.Below c' a) : c = c' :=
  hw.linked.child_unique hc hc' h h'

theorem sub_le_of_lt {size id c depth : Nat} (h : id < c) (hd : size - id ≤ depth + 1) :
    size - c ≤ depth := by omega

theorem inside_of_below (hw : t.WellFormed) (h : t.Below a b) : t.Inside a b := by
  induction h with
  | refl => exact ⟨Nat.le_refl _, Nat.le_refl _⟩
  | child _ hc ih =>
    exact ⟨Nat.le_trans ih.1 (hw.nested hc).1, Nat.le_trans (hw.nested hc).2 ih.2⟩

theorem before_of_lt (hw : t.WellFormed) (ha : a ∈ t.children p) (hb : b ∈ t.children p)
    (h : a < b) : t.Before a b := by
  have hpair := List.pairwise_iff_getElem.1 (hw.ordered p)
  obtain ⟨i, hi, rfl⟩ := List.getElem_of_mem ha
  obtain ⟨j, hj, rfl⟩ := List.getElem_of_mem hb
  rcases Nat.lt_trichotomy i j with hij | rfl | hij
  · exact (hpair i j hi hj hij).2
  · exact absurd h (Nat.lt_irrefl _)
  · exact absurd (hpair j i hj hi hij).1 (Nat.lt_asymm h)

theorem before_of_fields (hw : t.WellFormed) {f g : String} (hfg : (f, g) ∈ fieldOrder)
    (ha : t.child? p f = some a) (hb : t.child? p g = some b) : t.Before a b :=
  hw.before_of_lt (child?_mem ha) (child?_mem hb) (hw.fields hfg ha hb)

theorem children_before (hw : t.WellFormed) (p : NodeId) : (t.children p).Pairwise t.Before :=
  (hw.ordered p).imp And.right

theorem children_nodup (hw : t.WellFormed) (p : NodeId) : (t.children p).Nodup :=
  hw.linked.children_nodup p

end WellFormed

theorem Before.of_inside {a' b' : NodeId} (h : t.Before a b) (ha : t.Inside a a')
    (hb : t.Inside b b') : t.Before a' b' :=
  Nat.le_trans ha.2 (Nat.le_trans h hb.1)

instance : Std.Symm t.Apart := ⟨fun _ _ => Or.symm⟩

theorem Apart.not_inside (h : t.Apart a b) (ha : t.Inside a c) (hb : t.Inside b c) :
    ¬ (t.node c).start < (t.node c).stop := by
  have hc : (t.node c).stop ≤ (t.node c).start := h.elim (·.of_inside ha hb) (·.of_inside hb ha)
  exact Nat.not_lt_of_le hc

instance (t : SyntaxTree) (id : NodeId) : Decidable (t.IsLeaf id) :=
  inferInstanceAs (Decidable (_ ∧ _))

structure WellFormedAt (t : SyntaxTree) (p : NodeId) : Prop where
  child : ∀ c ∈ t.children p, (p < c ∧ c < t.size ∧ t.parent c = some p) ∧
    ((t.node p).start ≤ (t.node c).start ∧ (t.node c).stop ≤ (t.node p).stop) ∧
    (t.node c).start < (t.node c).stop
  mem : ∀ q ∈ t.parent p, p ∈ t.children q
  ordered : (t.children p).Pairwise fun a b => a < b ∧ (t.node a).stop ≤ (t.node b).start
  rows : (t.node p).startRow = (position t.source (t.node p).start).1 ∧
    (t.node p).endRow = (position t.source (t.node p).stop).1
  fields : ∀ fg ∈ fieldOrder, ∀ a ∈ t.child? p fg.1, ∀ b ∈ t.child? p fg.2, a < b
  function : t.kind p ∈ [Kind.functionDeclaration, .functionExpression] →
    (∀ b ∈ t.child? p "body", t.kind b = .statementBlock) ∧
      ∀ c ∈ t.children p, t.child? p "body" = some c ∨ t.kind c = .formalParameters ∨ t.IsLeaf c
  block : t.kind p = .statementBlock → ((t.node p).start + 2 ≤ (t.node p).stop ∧
    slice t.source (t.node p).start ((t.node p).start + 1) = "\x7b") ∧
      ∀ c ∈ t.children p, (t.node p).start < (t.node c).start ∧
        ((t.node c).stop < (t.node p).stop ∨ t.IsLeaf c)

instance (t : SyntaxTree) (p : NodeId) : Decidable (t.WellFormedAt p) :=
  decidable_of_iff (_ ∧ _ ∧ _ ∧ _ ∧ _ ∧ _ ∧ _)
    ⟨fun ⟨h₁, h₂, h₃, h₄, h₅, h₆, h₇⟩ => ⟨h₁, h₂, h₃, h₄, h₅, h₆, h₇⟩,
      fun ⟨h₁, h₂, h₃, h₄, h₅, h₆, h₇⟩ => ⟨h₁, h₂, h₃, h₄, h₅, h₆, h₇⟩⟩

structure WellFormedRoot (t : SyntaxTree) : Prop where
  lt : root < t.size
  program : t.kind root = .program
  range : (t.node root).start ≤ (t.node root).stop ∧ (t.node root).stop ≤ byteLength t.source
  lines : ∀ h ∈ t.children root, t.kind h = .hashBangLine → ∀ c ∈ t.children root, h < c →
    t.lineEnd h ≤ (t.node c).start

instance (t : SyntaxTree) : Decidable t.WellFormedRoot :=
  decidable_of_iff (_ ∧ _ ∧ _ ∧ _)
    ⟨fun ⟨h₁, h₂, h₃, h₄⟩ => ⟨h₁, h₂, h₃, h₄⟩, fun ⟨h₁, h₂, h₃, h₄⟩ => ⟨h₁, h₂, h₃, h₄⟩⟩

theorem WellFormed.of_nodes (hroot : t.WellFormedRoot) (h : ∀ p < t.size, t.WellFormedAt p) :
    t.WellFormed := by
  have hat : ∀ {p c}, c ∈ t.children p → t.WellFormedAt p := by
    intro p c hc
    refine h p (Nat.lt_of_not_le fun hp => ?_)
    simp [children_of_size_le hp] at hc
  have hfield : ∀ {p f c}, t.child? p f = some c → t.WellFormedAt p := fun hc => hat (child?_mem hc)
  refine {
    root_lt := hroot.lt
    program := hroot.program
    range := hroot.range
    child := fun hc => ((hat hc).child _ hc).1
    mem := fun {p c} hp => (h c (Nat.lt_of_not_le fun hc => ?_)).mem p hp
    ordered := fun p => ?_
    nested := fun hc => ((hat hc).child _ hc).2.1
    proper := fun hc => ((hat hc).child _ hc).2.2
    rows := fun hid => (h _ hid).rows
    fields := fun hfg ha hb => (hfield ha).fields _ hfg _ ha _ hb
    block := fun {f b} hf hb => ((hfield hb).function (by simpa [Kind.IsPlainFunction] using hf)).1 b hb
    parts := fun {f c} hf hc => ((hat hc).function (by simpa [Kind.IsPlainFunction] using hf)).2 c hc
    opens := fun {b} hb => ((h b (Nat.lt_of_not_le fun hle => ?_)).block hb).1
    closes := fun hb hc => ((hat hc).block hb).2 _ hc
    lines := fun hh hkind hc hlt => hroot.lines _ hh hkind _ hc hlt }
  · rw [parent, node_of_size_le hc] at hp
    cases hp
  · by_cases hp : p < t.size
    · exact (h p hp).ordered
    · simp [children_of_size_le (Nat.le_of_not_lt hp)]
  · rw [kind, node_of_size_le hle] at hb
    cases hb

theorem wellFormed_iff : t.WellFormed ↔ t.WellFormedRoot ∧ ∀ p < t.size, t.WellFormedAt p := by
  constructor
  · refine fun hw => ⟨⟨hw.root_lt, hw.program, hw.range, fun _ hh hkind _ hc hlt => hw.lines hh hkind hc hlt⟩, fun p hp => ?_⟩
    exact {
      child := fun c hc => ⟨hw.child hc, hw.nested hc, hw.proper hc⟩
      mem := fun q hq => hw.mem hq
      ordered := hw.ordered p
      rows := hw.rows hp
      fields := fun fg hfg a ha b hb => hw.fields hfg ha hb
      function := fun hf => by
        have hf : (t.kind p).IsPlainFunction := by simpa [Kind.IsPlainFunction] using hf
        exact ⟨fun b hb => hw.block hf hb, fun c hc => hw.parts hf hc⟩
      block := fun hb => ⟨hw.opens hb, fun c hc => hw.closes hb hc⟩ }
  · exact fun ⟨hroot, h⟩ => .of_nodes hroot h

instance (t : SyntaxTree) : Decidable t.WellFormed := decidable_of_iff _ wellFormed_iff.symm

end SyntaxTree

namespace Concrete

def named (kind : String) (start stop : Nat) (field : Option String) (children : List Concrete) :
    Concrete :=
  .node { kind, start, stop, named := true, isError := false, isMissing := false, hasError := false,
          field } children

def mark (kind : String) (start stop : Nat) (field : Option String) : Concrete :=
  .node { kind, start, stop, named := false, isError := false, isMissing := false, hasError := false,
          field } []

end Concrete

end CoercionTrace
