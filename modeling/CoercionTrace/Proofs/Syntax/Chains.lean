import CoercionTrace.Proofs.Syntax.Shown

/-!
# Chains of accesses and calls

A chain leads down through the objects of member accesses and the functions of calls, and ends at the
first node of another kind. Main statement: what rules ask of an access or call is whether its chain
has an optional link, however far down (`mayStopShort_iff`).
-/

namespace CoercionTrace

def Kind.chainField? : Kind → Option String
  | .memberExpression | .subscriptExpression => some "object"
  | .callExpression => some "function"
  | _ => none

namespace SyntaxTree

variable {t t' : SyntaxTree} {a b c id : NodeId}

def chainNext? (t : SyntaxTree) (id : NodeId) : Option NodeId :=
  (t.kind id).chainField?.bind (t.child? id)

inductive OnChain (t : SyntaxTree) (top : NodeId) : NodeId → Prop
  | refl : OnChain t top top
  | next {a b : NodeId} : OnChain t top a → t.chainNext? a = some b → OnChain t top b

structure CarriesLink (t : SyntaxTree) (id : NodeId) : Prop where
  field : (t.kind id).chainField?.isSome = true
  link : (t.child? id "optional_chain").isSome = true

/-- The chain that begins with the node has an optional link. In a longer chain these are the nodes from
the top down to the last link. -/
def MayStopShort (t : SyntaxTree) (id : NodeId) : Prop := ∃ b, t.OnChain id b ∧ t.CarriesLink b

theorem OnChain.trans (h : t.OnChain a b) (h' : t.OnChain b c) : t.OnChain a c := by
  induction h' with
  | refl => exact h
  | next _ hc ih => exact .next ih hc

theorem OnChain.eq_or_next (h : t.OnChain a b) : b = a ∨ ∃ c, t.chainNext? a = some c ∧ t.OnChain c b := by
  induction h with
  | refl => exact .inl rfl
  | next _ hb ih =>
    rcases ih with rfl | ⟨c, hc, hchain⟩
    · exact .inr ⟨_, hb, .refl⟩
    · exact .inr ⟨c, hc, .next hchain hb⟩

theorem MayStopShort.above (h : t.MayStopShort b) (hb : t.OnChain a b) : t.MayStopShort a := by
  obtain ⟨c, hc, hlink⟩ := h
  exact ⟨c, hb.trans hc, hlink⟩

theorem mayStopShort_step :
    t.MayStopShort id ↔ t.CarriesLink id ∨ ∃ c, t.chainNext? id = some c ∧ t.MayStopShort c := by
  constructor
  · rintro ⟨b, hb, hlink⟩
    rcases hb.eq_or_next with rfl | ⟨c, hc, hchain⟩
    · exact .inl hlink
    · exact .inr ⟨c, hc, b, hchain, hlink⟩
  · rintro (hlink | ⟨c, hc, h⟩)
    · exact ⟨id, .refl, hlink⟩
    · exact h.above (.next .refl hc)

theorem chainNext?_mem (h : t.chainNext? id = some c) : c ∈ t.children id := by
  obtain ⟨field, -, hc⟩ := Option.bind_eq_some_iff.1 h
  exact child?_mem hc

theorem MayStopShort.chainField (h : t.MayStopShort id) : (t.kind id).chainField?.isSome = true := by
  rcases mayStopShort_step.1 h with hlink | ⟨c, hc, -⟩
  · exact hlink.field
  · obtain ⟨field, hfield, -⟩ := Option.bind_eq_some_iff.1 hc
    rw [hfield]
    rfl

theorem hasOptionalLinkWithin_succ {depth : Nat} : t.hasOptionalLinkWithin (depth + 1) id = true ↔
    t.CarriesLink id ∨ ∃ c, t.chainNext? id = some c ∧ t.hasOptionalLinkWithin depth c = true := by
  have hunfold : t.hasOptionalLinkWithin (depth + 1) id = (t.kind id).chainField?.elim false
      fun field => (t.child? id "optional_chain").isSome ||
        ((t.child? id field).map (t.hasOptionalLinkWithin depth)).getD false := by
    rw [hasOptionalLinkWithin]
    cases t.kind id <;> rfl
  have hlink : t.CarriesLink id ↔ (t.kind id).chainField?.isSome = true ∧
      (t.child? id "optional_chain").isSome = true := ⟨fun h => ⟨h.field, h.link⟩, fun h => ⟨h.1, h.2⟩⟩
  rw [hunfold, hlink, chainNext?]
  cases (t.kind id).chainField? with
  | none => simp
  | some field =>
    cases hc : t.child? id field <;> simp [hc]

theorem mayStopShort_iff (hw : t.WellFormed) : t.MayStopShort id ↔ t.hasOptionalLink id = true := by
  have key : ∀ {depth : Nat} {id : NodeId}, t.size - id ≤ depth →
      (t.MayStopShort id ↔ t.hasOptionalLinkWithin depth id = true) := by
    intro depth
    induction depth with
    | zero =>
      intro id hsize
      have hempty := children_of_size_le (Nat.le_of_sub_eq_zero (Nat.le_zero.1 hsize))
      refine ⟨fun h => ?_, fun h => by cases h⟩
      rcases mayStopShort_step.1 h with hlink | ⟨c, hc, -⟩
      · obtain ⟨c, hc⟩ := Option.isSome_iff_exists.1 hlink.link
        simpa [hempty] using child?_mem hc
      · simpa [hempty] using chainNext?_mem hc
    | succ depth ih =>
      intro id hsize
      rw [mayStopShort_step, hasOptionalLinkWithin_succ]
      refine or_congr_right (exists_congr fun c => and_congr_right fun hc => ih ?_)
      exact WellFormed.sub_le_of_lt (hw.child (chainNext?_mem hc)).1 hsize
  exact key (Nat.sub_le _ _)

theorem SameShape.mayStopShort (hw : t.WellFormed) (h : t.SameShape t') :
    t'.MayStopShort id ↔ t.MayStopShort id := by
  rw [mayStopShort_iff (h.wellFormed hw), mayStopShort_iff hw, h.hasOptionalLink]

namespace MayStopShort

theorem kind (h : t.MayStopShort id) : t.kind id = .memberExpression ∨ t.kind id = .subscriptExpression ∨
    t.kind id = .callExpression := by
  have hfield := h.chainField
  unfold Kind.chainField? at hfield
  split at hfield
  · next hk => exact .inl hk
  · next hk => exact .inr (.inl hk)
  · next hk => exact .inr (.inr hk)
  · cases hfield

theorem kind_ne {kind : Kind} (h : t.MayStopShort id) (hno : kind.chainField? = none) :
    t.kind id ≠ kind := by
  rintro rfl
  have hfield := h.chainField
  rw [hno] at hfield
  cases hfield

theorem isPlainMember (hw : t.WellFormed) (h : t.MayStopShort id) : t.isPlainMember id = false := by
  unfold SyntaxTree.isPlainMember
  split
  · rfl
  · refine if_pos ?_
    rw [(mayStopShort_iff hw).1 h, Bool.or_true]

end MayStopShort

theorem unwrap_eq_or_wrapped (t : SyntaxTree) (o : NodeId) :
    t.unwrap o = o ∨ ∃ p, t.kind p = .parenthesizedExpression ∧ t.unwrap o ∈ t.children p := by
  have key : ∀ {depth : Nat} {o : NodeId}, t.unwrapWithin depth o = o ∨
      ∃ p, t.kind p = .parenthesizedExpression ∧ t.unwrapWithin depth o ∈ t.children p := by
    intro depth
    induction depth with
    | zero => exact fun {o} => .inl rfl
    | succ depth ih =>
      intro o
      rcases t.unwrapWithin_succ depth o with hself | ⟨inner, hred, hinner⟩
      · exact .inl hself
      · rw [hinner]
        rcases ih (o := inner) with he | hwrapped
        · exact .inr ⟨o, hred.kind, he.symm ▸ hred.mem⟩
        · exact .inr hwrapped
  exact key

end SyntaxTree

end CoercionTrace
