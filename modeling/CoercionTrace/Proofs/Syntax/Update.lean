import CoercionTrace.Proofs.Syntax.WellFormed

/-!
# What a replacement leaves alone

Two trees have the same shape when they differ in replacements only. Main statement: what a rule
asks of a tree, its current text aside, has the same answer on trees of the same shape.
-/

namespace CoercionTrace

def Node.bare (n : Node) : Node := { n with replacement := none }

namespace SyntaxTree

structure SameShape (t t' : SyntaxTree) : Prop where
  source : t'.source = t.source
  size : t'.size = t.size
  node : ∀ id, (t'.node id).bare = (t.node id).bare

namespace SameShape

variable {t t' t'' : SyntaxTree}

theorem refl (t : SyntaxTree) : SameShape t t := ⟨rfl, rfl, fun _ => rfl⟩

theorem trans (h : SameShape t t') (h' : SameShape t' t'') : SameShape t t'' :=
  ⟨h'.source.trans h.source, h'.size.trans h.size, fun id => (h'.node id).trans (h.node id)⟩

theorem symm (h : SameShape t t') : SameShape t' t :=
  ⟨h.source.symm, h.size.symm, fun id => (h.node id).symm⟩

theorem start (h : SameShape t t') (id : NodeId) : (t'.node id).start = (t.node id).start :=
  (congrArg Node.start (h.node id) :)

theorem stop (h : SameShape t t') (id : NodeId) : (t'.node id).stop = (t.node id).stop :=
  (congrArg Node.stop (h.node id) :)

theorem field (h : SameShape t t') (id : NodeId) : (t'.node id).field = (t.node id).field :=
  (congrArg Node.field (h.node id) :)

theorem operator (h : SameShape t t') (id : NodeId) :
    (t'.node id).operator = (t.node id).operator :=
  (congrArg Node.operator (h.node id) :)

theorem kind (h : SameShape t t') : t'.kind = t.kind :=
  funext fun id => (congrArg Node.kind (h.node id) :)

theorem parent (h : SameShape t t') : t'.parent = t.parent :=
  funext fun id => (congrArg Node.parent (h.node id) :)

theorem children (h : SameShape t t') : t'.children = t.children :=
  funext fun id => (congrArg Node.children (h.node id) :)

theorem line (h : SameShape t t') : t'.line = t.line :=
  funext fun id => (congrArg Node.line (h.node id) :)

theorem significantChildren (h : SameShape t t') :
    t'.significantChildren = t.significantChildren := by
  funext id
  simp only [SyntaxTree.significantChildren, h.children, h.kind]

theorem child? (h : SameShape t t') : t'.child? = t.child? := by
  funext id f
  simp only [SyntaxTree.child?, h.children, h.field]

theorem rawSource (h : SameShape t t') : t'.rawSource = t.rawSource := by
  funext id
  simp only [SyntaxTree.rawSource, h.source, h.start, h.stop]

theorem startRow (h : SameShape t t') (id : NodeId) :
    (t'.node id).startRow = (t.node id).startRow :=
  (congrArg Node.startRow (h.node id) :)

theorem endRow (h : SameShape t t') (id : NodeId) : (t'.node id).endRow = (t.node id).endRow :=
  (congrArg Node.endRow (h.node id) :)

theorem touchesRows (h : SameShape t t') : t'.touchesRows = t.touchesRows := by
  funext id p
  simp only [SyntaxTree.touchesRows, h.startRow, h.endRow]

theorem unwrap (h : SameShape t t') : t'.unwrap = t.unwrap := by
  have hwithin : ∀ depth, t'.unwrapWithin depth = t.unwrapWithin depth := by
    intro depth
    induction depth with
    | zero => rfl
    | succ depth ih =>
      funext id
      simp only [unwrapWithin, h.kind, h.significantChildren, ih]
  funext id
  simp only [SyntaxTree.unwrap, hwithin, h.size]

theorem hasOptionalLink (h : SameShape t t') : t'.hasOptionalLink = t.hasOptionalLink := by
  have hwithin : ∀ depth, t'.hasOptionalLinkWithin depth = t.hasOptionalLinkWithin depth := by
    intro depth
    induction depth with
    | zero => rfl
    | succ depth ih =>
      funext id
      simp only [hasOptionalLinkWithin, h.kind, h.child?, ih]
  funext id
  simp only [SyntaxTree.hasOptionalLink, hwithin, h.size]

theorem isPlainMember (h : SameShape t t') : t'.isPlainMember = t.isPlainMember := by
  funext id
  simp only [SyntaxTree.isPlainMember, h.child?, h.kind, h.hasOptionalLink]

theorem isInert (h : SameShape t t') : t'.isInert = t.isInert := by
  funext id
  simp only [SyntaxTree.isInert, h.unwrap, h.kind]

theorem isDirective (h : SameShape t t') : t'.isDirective = t.isDirective := by
  funext id
  simp only [SyntaxTree.isDirective, h.significantChildren, h.kind]

theorem directivesEnd (h : SameShape t t') : t'.directivesEnd = t.directivesEnd := by
  funext start statements
  induction statements generalizing start with
  | nil => rfl
  | cons statement rest ih =>
    simp only [SyntaxTree.directivesEnd, h.kind, h.isDirective, h.stop, ih]

theorem ancestors (h : SameShape t t') : t'.ancestors = t.ancestors := by
  have hwithin : ∀ steps, t'.ancestorsWithin steps = t.ancestorsWithin steps := by
    intro steps
    induction steps with
    | zero => rfl
    | succ steps ih =>
      funext id
      simp only [ancestorsWithin, h.parent, ih]
  funext id
  simp only [SyntaxTree.ancestors, hwithin, h.size]

theorem below (h : SameShape t t') {a b : NodeId} (hb : t.Below a b) : t'.Below a b := by
  induction hb with
  | refl => exact .refl
  | child _ hc ih => exact .child ih (by rwa [h.children])

theorem wellFormed (h : SameShape t t') (hw : t.WellFormed) : t'.WellFormed where
  program := h.kind ▸ hw.program
  range := by
    rw [h.start, h.stop, h.source]
    exact hw.range
  root_lt := h.size ▸ hw.root_lt
  child hc := by
    rw [h.children] at hc
    rw [h.size, h.parent]
    exact hw.child hc
  mem hp := by
    rw [h.parent] at hp
    rw [h.children]
    exact hw.mem hp
  ordered p := by
    simp only [h.children, h.start, h.stop]
    exact hw.ordered p
  nested hc := by
    rw [h.children] at hc
    simp only [h.start, h.stop]
    exact hw.nested hc
  proper hc := by
    rw [h.children] at hc
    simp only [h.start, h.stop]
    exact hw.proper hc
  fields hfg ha hb := by
    rw [h.child?] at ha hb
    exact hw.fields hfg ha hb
  rows hid := by
    rw [h.size] at hid
    simp only [h.start, h.stop, h.startRow, h.endRow, h.source]
    exact hw.rows hid
  block hf hb := by
    rw [h.kind] at hf ⊢
    rw [h.child?] at hb
    exact hw.block hf hb
  parts hf hc := by
    rw [h.kind] at hf
    rw [h.children] at hc
    rw [h.child?, h.kind, IsLeaf, h.children, h.kind]
    exact hw.parts hf hc
  opens hb := by
    rw [h.kind] at hb
    rw [h.source, h.start, h.stop]
    exact hw.opens hb
  closes hb hc := by
    rw [h.kind] at hb
    rw [h.children] at hc
    rw [h.start, h.start, h.stop, h.stop, IsLeaf, h.children, h.kind]
    exact hw.closes hb hc
  lines hh hkind hc hlt := by
    rw [h.children] at hh hc
    rw [h.kind] at hkind
    rw [lineEnd, h.source, h.stop, h.start]
    exact hw.lines hh hkind hc hlt

end SameShape

def IsFresh (t : SyntaxTree) : Prop := ∀ id, (t.node id).replacement = none

theorem IsFresh.not_replaced {t : SyntaxTree} {rep : Replacement} (h : t.IsFresh) (id : NodeId) :
    (t.node id).replacement ≠ some rep := by
  rw [h id]
  simp

mutual

theorem replacement_of_toNodes {source : List Char} {parent : Option NodeId} {id : NodeId}
    {tree : Concrete} {n : Node} (h : n ∈ tree.toNodes source parent id) : n.replacement = none := by
  cases tree with
  | node token children =>
    rw [Concrete.toNodes] at h
    rcases List.mem_cons.1 h with rfl | h
    · rfl
    · exact replacement_of_childNodes h

theorem replacement_of_childNodes {source : List Char} {parent next : NodeId}
    {children : List Concrete} {n : Node}
    (h : n ∈ (Concrete.childNodes source parent next children).2) : n.replacement = none := by
  cases children with
  | nil => cases h
  | cons c rest =>
    rw [Concrete.childNodes] at h
    split at h
    · rcases List.mem_append.1 h with h | h
      · exact replacement_of_toNodes h
      · exact replacement_of_childNodes h
    · exact replacement_of_childNodes h

end

theorem isFresh_ofConcrete (source : List Char) (tree : Concrete) :
    (ofConcrete source tree).IsFresh := by
  intro id
  by_cases h : id < (ofConcrete source tree).size
  · have hmem : (ofConcrete source tree).node id ∈ tree.toNodes source none 0 := by
      rw [node, Array.getD_eq_getD_getElem?, Array.getElem?_eq_getElem h]
      simp [ofConcrete]
    exact replacement_of_toNodes hmem
  · rw [node_of_size_le (Nat.le_of_not_lt h)]
    rfl

variable {t t' : SyntaxTree} {c : NodeId} {r : Replacement}

structure Replaces (t : SyntaxTree) (c : NodeId) (r : Replacement) (t' : SyntaxTree) : Prop where
  shape : SameShape t t'
  before : (t.node c).replacement = none
  at_ : c < t.size → (t'.node c).replacement = some r
  elsewhere : ∀ id, id ≠ c → t'.node id = t.node id

theorem replaces_of_update (h : t.update c r = .ok t') : t.Replaces c r t' := by
  unfold update at h
  split at h
  · cases h
  · next hc =>
    cases h
    have hnode : ∀ id, node { t with nodes := t.nodes.modify c fun n =>
        { n with replacement := some r } } id =
        if id = c ∧ c < t.size then { t.node c with replacement := some r } else t.node id := by
      intro id
      simp only [node, size, Array.getD_eq_getD_getElem?, Array.getElem?_modify]
      by_cases hid : c = id
      · subst hid
        by_cases hlt : c < t.nodes.size
        · simp [hlt]
        · simp [hlt]
      · simp [hid, Ne.symm hid]
    refine { shape := ⟨rfl, by simp [size], fun id => ?_⟩, before := by simpa [Node.isReplaced] using hc,
             at_ := fun hlt => ?_, elsewhere := fun id hid => ?_ }
    · rw [hnode]
      split
      · next h =>
        rw [h.1]
        rfl
      · rfl
    · rw [hnode, if_pos ⟨rfl, hlt⟩]
    · rw [hnode, if_neg fun h => hid h.1]

end SyntaxTree

end CoercionTrace
