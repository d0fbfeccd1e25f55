import CoercionTrace.Proofs.Syntax.Fragments
import Mathlib.Data.List.Nodup

/-!
# Opaque regions

Functions that are no plain ones, classes and parameter lists keep their text. Main statements: the
regions of a node are the outermost opaque nodes at and below it (`mem_regions`), in source order
(`regions_before`); and what the grammar puts around the operands of a construct shows none of them
(`Composed.shown_pieces`, `Composed.shown_inert`).
-/

namespace CoercionTrace

def Kind.isAtom (kind : Kind) : Bool :=
  kind == .identifier || kind == .propertyIdentifier || kind == .comment || kind.isConstant

theorem flatMap_filter_eq {α β : Type} {q : α → Bool} {f : α → List β} {l : List α}
    (h : ∀ a ∈ l, q a = false → f a = []) : (l.filter q).flatMap f = l.flatMap f := by
  induction l with
  | nil => rfl
  | cons a rest ih =>
    have hrest := ih fun b hb => h b (List.mem_cons_of_mem _ hb)
    rw [List.flatMap_cons, List.filter_cons]
    split
    · rw [List.flatMap_cons, hrest]
    · next hq => rw [hrest, h a List.mem_cons_self (by simpa using hq), List.nil_append]

namespace SyntaxTree

def isOpaque (t : SyntaxTree) (id : NodeId) : Bool :=
  match t.kind id with
  | .arrowFunction | .methodDefinition | .generatorFunction | .generatorFunctionDeclaration
  | .classExpression | .classDeclaration | .formalParameters => true
  | .functionDeclaration | .functionExpression => (t.node id).isAsync
  | _ => false

def regionsWithin (t : SyntaxTree) : Nat → NodeId → List NodeId
  | 0, _ => []
  | depth + 1, id => if t.isOpaque id then [id] else (t.children id).flatMap (regionsWithin t depth)

/-- The opaque nodes at and below a node that are not inside another one, from left to right. -/
def regions (t : SyntaxTree) (id : NodeId) : List NodeId := t.regionsWithin t.size id

variable {t t' : SyntaxTree} {p : NodeId → Bool} {id c q : NodeId} {nodes : List NodeId}

theorem SameShape.isOpaque (h : t.SameShape t') : t'.isOpaque = t.isOpaque := by
  funext id
  have hasync : (t'.node id).isAsync = (t.node id).isAsync :=
    (congrArg Node.isAsync (h.node id) :)
  simp only [SyntaxTree.isOpaque, h.kind, hasync]

theorem shown_of_fresh (hfresh : t.IsFresh) (id : NodeId) : t.shown t.isOpaque id = t.regions id := by
  have key : ∀ (depth : Nat) (id : NodeId),
      t.shownWithin t.isOpaque depth id = t.regionsWithin depth id := by
    intro depth
    induction depth with
    | zero => exact fun _ => rfl
    | succ depth ih =>
      intro id
      rw [shownWithin, regionsWithin, takenOver_of_none (hfresh id)]
      split
      · rfl
      · exact List.flatMap_congr fun c _ => ih c
  exact key t.size id

structure IsRegion (t : SyntaxTree) (id q : NodeId) : Prop where
  isOpaque : t.isOpaque q = true
  below : t.Below id q
  outermost : ∀ a, t.Below id a → t.Below a q → t.isOpaque a = true → a = q

theorem mem_regions (hw : t.WellFormed) (hid : id < t.size) :
    q ∈ t.regions id ↔ t.IsRegion id q := by
  have key : ∀ {depth : Nat} {id : NodeId}, id < t.size → t.size - id ≤ depth →
      (q ∈ t.regionsWithin depth id ↔ t.IsRegion id q) := by
    intro depth
    induction depth with
    | zero => exact fun hid hd => absurd (Nat.le_zero.1 hd) (Nat.sub_ne_zero_of_lt hid)
    | succ depth ih =>
      intro id hid hd
      rw [regionsWithin]
      split
      · next hself =>
        refine ⟨fun h => ?_, fun h => List.mem_singleton.2 (h.outermost id .refl h.below hself).symm⟩
        obtain rfl := List.mem_singleton.1 h
        exact ⟨hself, .refl, fun a ha haq _ => hw.below_antisymm haq ha⟩
      · next hself =>
        rw [List.mem_flatMap]
        constructor
        · rintro ⟨c, hc, h⟩
          obtain ⟨hlt, hsize, -⟩ := hw.child hc
          have hregion := (ih hsize (WellFormed.sub_le_of_lt hlt hd)).1 h
          refine ⟨hregion.isOpaque, (Below.of_mem hc).trans hregion.below, fun a ha haq hwhole => ?_⟩
          rcases ha.eq_or_child with rfl | ⟨d, hdid, hda⟩
          · exact absurd hwhole hself
          · rw [hw.child_unique hdid hc (hda.trans haq) hregion.below] at hda
            exact hregion.outermost a hda haq hwhole
        · rintro ⟨hwhole, hbelow, houter⟩
          rcases hbelow.eq_or_child with rfl | ⟨c, hc, hcq⟩
          · exact absurd hwhole hself
          · obtain ⟨hlt, hsize, -⟩ := hw.child hc
            refine ⟨c, hc, (ih hsize (WellFormed.sub_le_of_lt hlt hd)).2 ⟨hwhole, hcq, ?_⟩⟩
            exact fun a ha => houter a ((Below.of_mem hc).trans ha)
  exact key hid (Nat.sub_le _ _)

theorem below_of_regionsWithin {depth : Nat} (h : q ∈ t.regionsWithin depth id) : t.Below id q := by
  induction depth generalizing id with
  | zero => cases h
  | succ depth ih =>
    rw [regionsWithin] at h
    split at h
    · obtain rfl := List.mem_singleton.1 h
      exact .refl
    · obtain ⟨c, hc, hq⟩ := List.mem_flatMap.1 h
      exact (Below.of_mem hc).trans (ih hq)

theorem regions_before (hw : t.WellFormed) (id : NodeId) : (t.regions id).Pairwise t.Before := by
  have key : ∀ (depth : Nat) (id : NodeId), (t.regionsWithin depth id).Pairwise t.Before := by
    intro depth
    induction depth with
    | zero => exact fun _ => .nil
    | succ depth ih =>
      intro id
      rw [regionsWithin]
      split
      · exact List.pairwise_singleton _ _
      · refine List.pairwise_flatMap.2 ⟨fun c _ => ih c, (hw.children_before id).imp ?_⟩
        intro c d hbefore a ha b hb
        exact hbefore.of_inside (hw.inside_of_below (below_of_regionsWithin ha))
          (hw.inside_of_below (below_of_regionsWithin hb))
  exact key t.size id

theorem regions_nodup (hw : t.WellFormed) (id : NodeId) : (t.regions id).Nodup := by
  have key : ∀ (depth : Nat) (id : NodeId), (t.regionsWithin depth id).Nodup := by
    intro depth
    induction depth with
    | zero => exact fun _ => .nil
    | succ depth ih =>
      intro id
      rw [regionsWithin]
      split
      · exact List.nodup_singleton _
      · refine List.nodup_flatMap.2 ⟨fun c _ => ih c, (hw.children_nodup id).imp_of_mem ?_⟩
        intro c d hc hd hne a hac had
        exact hne (hw.child_unique hc hd (below_of_regionsWithin hac) (below_of_regionsWithin had))
  exact key t.size id

def components (t : SyntaxTree) (id : NodeId) : List NodeId :=
  match t.kind id with
  | .binaryExpression | .assignmentExpression | .augmentedAssignmentExpression =>
    (t.child? id "left").toList ++ (t.child? id "right").toList
  | .variableDeclarator => (t.child? id "name").toList ++ (t.child? id "value").toList
  | .returnStatement => (t.significantChildren id).head?.toList
  | .callExpression => (t.child? id "function").toList ++ (t.child? id "arguments").toList
  | .memberExpression => (t.child? id "object").toList ++ (t.child? id "property").toList
  | .subscriptExpression => (t.child? id "object").toList ++ (t.child? id "index").toList
  | _ => t.children id

def IsToken (t : SyntaxTree) (id : NodeId) : Prop := t.children id = [] ∧ t.isOpaque id = false

instance (t : SyntaxTree) (id : NodeId) : Decidable (t.IsToken id) :=
  inferInstanceAs (Decidable (_ ∧ _))

structure Composed (t : SyntaxTree) : Prop where
  components : ∀ {id c}, c ∈ t.children id → c ∈ t.components id ∨ t.IsToken c
  atoms : ∀ {id c}, (t.kind id).isAtom = true → c ∈ t.children id → t.IsToken c

theorem composed_iff : t.Composed ↔ ∀ id < t.size, ∀ c ∈ t.children id,
    (c ∈ t.components id ∨ t.IsToken c) ∧ ((t.kind id).isAtom = true → t.IsToken c) := by
  have hsize : ∀ {id c}, c ∈ t.children id → id < t.size := by
    refine fun hc => Nat.lt_of_not_le fun hle => ?_
    rw [children_of_size_le hle] at hc
    cases hc
  exact ⟨fun h id _ c hc => ⟨h.components hc, fun hk => h.atoms hk hc⟩,
    fun h => ⟨fun hc => (h _ (hsize hc) _ hc).1, fun hk hc => (h _ (hsize hc) _ hc).2 hk⟩⟩

instance (t : SyntaxTree) : Decidable t.Composed := decidable_of_iff _ composed_iff.symm

theorem SameShape.composed (h : t.SameShape t') (hc : t.Composed) : t'.Composed where
  components {id c} hmem := by
    have hcomponents : t'.components id = t.components id := by
      simp only [SyntaxTree.components, h.kind, h.child?, h.significantChildren, h.children]
    rw [hcomponents, IsToken, h.isOpaque, h.children]
    exact hc.components (h.children ▸ hmem)
  atoms {id c} hk hmem := by
    rw [IsToken, h.isOpaque, h.children]
    exact hc.atoms (h.kind ▸ hk) (h.children ▸ hmem)

theorem isOpaque_of_isAtom (h : (t.kind id).isAtom = true) : t.isOpaque id = false := by
  unfold isOpaque
  split <;> simp_all [Kind.isAtom, Kind.isConstant]

section

variable (ht : t.TakesFromBelow)
include ht

theorem IsToken.shown (h : t.IsToken c) : t.shown t.isOpaque c = [] := by
  refine shown_eq_nil ht fun q hq hbelow => ?_
  rcases hbelow.eq_or_child with rfl | ⟨d, hd, -⟩
  · rw [h.2] at hq
    cases hq
  · rw [h.1] at hd
    cases hd

end

namespace Composed

variable (hc : t.Composed)
include hc

theorem not_below_atom (hk : (t.kind c).isAtom = true) (hq : t.isOpaque q = true) :
    ¬ t.Below c q := by
  intro hbelow
  rcases hbelow.eq_or_child with rfl | ⟨d, hd, hdq⟩
  · rw [isOpaque_of_isAtom hk] at hq
    cases hq
  · have htoken := hc.atoms hk hd
    rcases hdq.eq_or_child with rfl | ⟨e, he, -⟩
    · rw [htoken.2] at hq
      cases hq
    · rw [htoken.1] at he
      cases he

theorem shown_atom (ht : t.TakesFromBelow) (hk : (t.kind c).isAtom = true) :
    t.shown t.isOpaque c = [] :=
  shown_eq_nil ht fun _ hq => hc.not_below_atom hk hq

theorem shown_significant (ht : t.TakesFromBelow) (id : NodeId) :
    (t.significantChildren id).flatMap (t.shown t.isOpaque) =
      (t.children id).flatMap (t.shown t.isOpaque) := by
  refine flatMap_filter_eq fun c _ hcomment => hc.shown_atom ht ?_
  have hk : t.kind c = .comment := by simpa using hcomment
  rw [hk]
  rfl

theorem below_unwrap (hq : t.isOpaque q = true) (h : t.Below id q) : t.Below (t.unwrap id) q := by
  have key : ∀ {depth : Nat} {id : NodeId}, t.Below id q → t.Below (t.unwrapWithin depth id) q := by
    intro depth
    induction depth with
    | zero => exact fun h => h
    | succ depth ih =>
      intro id h
      rcases t.unwrapWithin_succ depth id with heq | ⟨inner, hred, heq⟩
      · rwa [heq]
      · rw [heq]
        refine ih ?_
        rcases h.eq_or_child with rfl | ⟨c, hmem, hcq⟩
        · simp [SyntaxTree.isOpaque, hred.kind] at hq
        · have hsignificant : c ∈ t.significantChildren id := by
            refine List.mem_filter.2 ⟨hmem, decide_eq_true fun hk => ?_⟩
            exact hc.not_below_atom (by rw [hk]; rfl) hq hcq
          rw [hred.only] at hsignificant
          rwa [List.mem_singleton.1 hsignificant] at hcq
  exact key h

variable (hw : t.WellFormed) (ht : t.TakesFromBelow) (hf : t.KeepsForms)
include hw ht

theorem shown_children (hsorted : nodes.Pairwise (· < ·)) (hmem : ∀ c ∈ nodes, c ∈ t.children id)
    (hnone : ∀ c ∈ t.children id, c ∉ nodes → c ∈ t.components id → t.shown t.isOpaque c = []) :
    nodes.flatMap (t.shown t.isOpaque) = (t.children id).flatMap (t.shown t.isOpaque) := by
  have hfilter : (t.children id).filter (· ∈ nodes) = nodes := by
    refine (((hw.ordered id).filter _).imp And.left).eq_of_mem_iff hsorted fun c => ?_
    simpa using hmem c
  have hsilent : ∀ c ∈ t.children id, decide (c ∈ nodes) = false → t.shown t.isOpaque c = [] := by
    intro c hchild hnot
    have hnot := of_decide_eq_false hnot
    rcases hc.components hchild with hcomponent | htoken
    · exact hnone c hchild hnot hcomponent
    · exact htoken.shown ht
  rw [← flatMap_filter_eq hsilent, hfilter]

include hf

theorem shown_pieces (hid : id < t.size) :
    (t.pieces id).flatMap (t.shown t.isOpaque) = t.shown t.isOpaque id := by
  have htarget := hw.lt_size_of_below (t.below_unwrap id) hid
  rw [shown_unwrap hw ht hf hid fun q hq => hc.below_unwrap hq]
  cases hm : t.isPlainMember (t.unwrap id) with
  | false =>
    have hself : t.pieces id = [t.unwrap id] := by
      rw [pieces, hm]
      rfl
    rw [hself, List.flatMap_singleton]
  | true =>
    obtain ⟨hchildren, hsorted⟩ := pieces_children hw hm
    have hkind := kind_of_isPlainMember hm
    have hnone : (t.node (t.unwrap id)).replacement = none :=
      hf _ (by rcases hkind with e | e <;> simp [e])
    have hself : t.isOpaque (t.unwrap id) = false := by
      rcases hkind with e | e <;> simp [SyntaxTree.isOpaque, e]
    rw [shown_eq hw ht htarget, hself, takenOver_of_none hnone]
    refine hc.shown_children hw ht hsorted hchildren fun c _ hnot hcomponent => ?_
    obtain ⟨object, ho, ⟨hk, e⟩ | ⟨hk, index, hi, e⟩⟩ := pieces_of_member hm
    · -- The property beside the object of a member access is a name.
      have hproperty : t.kind c = .propertyIdentifier := by
        simp only [SyntaxTree.components, hk, ho, List.mem_append, Option.mem_toList] at hcomponent
        rcases hcomponent with hobject | hproperty
        · cases hobject
          simp [e] at hnot
        · simp only [isPlainMember, ho, hk, hproperty] at hm
          split at hm
          · cases hm
          · simpa using hm
      exact hc.shown_atom ht (by rw [hproperty]; rfl)
    · have hsubscript := hkind.resolve_left hk
      simp only [SyntaxTree.components, hsubscript, ho, hi, List.mem_append, Option.mem_toList]
        at hcomponent
      refine absurd ?_ hnot
      rw [e]
      rcases hcomponent with h | h <;> cases h <;> simp

theorem shown_inert (hid : id < t.size) (h : t.isInert id = true) : t.shown t.isOpaque id = [] := by
  rw [shown_unwrap hw ht hf hid fun q hq => hc.below_unwrap hq]
  refine hc.shown_atom ht ?_
  rw [isInert, Bool.or_eq_true, beq_iff_eq] at h
  rcases h with hk | hk <;> simp [Kind.isAtom, hk]

end Composed

end SyntaxTree

end CoercionTrace
