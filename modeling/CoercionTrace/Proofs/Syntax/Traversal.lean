import CoercionTrace.Proofs.Syntax.WellFormed

/-!
# Orders of visits

Main statements: a node comes in pre-order ahead of those in it and behind it (`preOrder_pairwise`),
the nodes that a pass visits are those with no skipped node at or above them (`mem_postOrder`), and
no node is visited before one at or below it (`postOrder_pairwise`).
-/

namespace CoercionTrace

namespace SyntaxTree

variable {t : SyntaxTree} {skip : NodeId → Bool} {a b c id : NodeId}

theorem ancestorsWithin_of_le (hl : t.Linked) {steps steps' : Nat} (h : id ≤ steps)
    (h' : id ≤ steps') : t.ancestorsWithin steps id = t.ancestorsWithin steps' id := by
  induction steps generalizing id steps' with
  | zero =>
    have hroot : t.parent id = none := by
      refine Option.eq_none_iff_forall_ne_some.2 fun p hp => ?_
      exact Nat.not_lt_zero p (Nat.lt_of_lt_of_le (hl.child (hl.mem hp)).1 h)
    cases steps' <;> simp [ancestorsWithin, hroot]
  | succ steps ih =>
    cases hp : t.parent id with
    | none => cases steps' <;> simp [ancestorsWithin, hp]
    | some p =>
      have hlt := (hl.child (hl.mem hp)).1
      cases steps' with
      | zero => exact absurd (Nat.lt_of_lt_of_le hlt h') (Nat.not_lt_zero p)
      | succ steps' =>
        simp only [ancestorsWithin, hp]
        rw [ih (Nat.le_of_lt_succ (Nat.lt_of_lt_of_le hlt h))
          (Nat.le_of_lt_succ (Nat.lt_of_lt_of_le hlt h'))]

theorem ancestors_of_mem (hl : t.Linked) (h : c ∈ t.children a) :
    t.ancestors c = a :: t.ancestors a := by
  obtain ⟨hlt, hsize, hparent⟩ := hl.child h
  obtain ⟨steps, hsteps⟩ := Nat.exists_eq_succ_of_ne_zero (Nat.ne_zero_of_lt hsize)
  rw [ancestors, hsteps, ancestorsWithin, hparent]
  dsimp only
  have hle : a ≤ steps := Nat.le_of_lt_succ (hsteps ▸ Nat.lt_trans hlt hsize)
  rw [ancestorsWithin_of_le hl hle (Nat.le_succ_of_le hle), ancestors, hsteps]

theorem below_of_mem_ancestors (hl : t.Linked) (h : a ∈ t.ancestors c) :
    t.Below a c ∧ a < c := by
  have key : ∀ {steps : Nat} {c : NodeId}, a ∈ t.ancestorsWithin steps c → t.Below a c ∧ a < c := by
    intro steps
    induction steps with
    | zero => intro c h; cases h
    | succ steps ih =>
      intro c h
      rw [ancestorsWithin] at h
      split at h
      · cases h
      · next p hp =>
        have hmem := hl.mem hp
        have hlt := (hl.child hmem).1
        rcases List.mem_cons.1 h with rfl | h
        · exact ⟨.of_mem hmem, hlt⟩
        · obtain ⟨hbelow, halt⟩ := ih h
          exact ⟨hbelow.trans (.of_mem hmem), Nat.lt_trans halt hlt⟩
  exact key h

theorem ancestors_of_none (h : t.parent c = none) : t.ancestors c = [] := by
  rw [ancestors]
  cases t.size with
  | zero => rfl
  | succ steps => rw [ancestorsWithin, h]

theorem mem_ancestors_iff (hl : t.Linked) : a ∈ t.ancestors c ↔ t.Below a c ∧ a ≠ c := by
  constructor
  · intro h
    obtain ⟨hbelow, hlt⟩ := below_of_mem_ancestors hl h
    exact ⟨hbelow, Nat.ne_of_lt hlt⟩
  · rintro ⟨h, hne⟩
    induction h with
    | refl => exact absurd rfl hne
    | @child p c hp hc ih =>
      rw [ancestors_of_mem hl hc]
      by_cases e : a = p
      · exact List.mem_cons.2 (.inl e)
      · exact List.mem_cons_of_mem _ (ih e)

theorem mem_ancestors_iff_parent (hl : t.Linked) :
    a ∈ t.ancestors c ↔ ∃ p, t.parent c = some p ∧ t.Below a p := by
  cases hp : t.parent c with
  | none => simp [ancestors_of_none hp]
  | some p =>
    rw [ancestors_of_mem hl (hl.mem hp), List.mem_cons, mem_ancestors_iff hl]
    constructor
    · rintro (rfl | ⟨h, -⟩)
      · exact ⟨_, rfl, .refl⟩
      · exact ⟨p, rfl, h⟩
    · rintro ⟨q, hq, h⟩
      obtain rfl := Option.some.inj hq
      by_cases e : a = p
      · exact .inl e
      · exact .inr ⟨h, e⟩

theorem ancestors_pairwise (hl : t.Linked) (c : NodeId) :
    (t.ancestors c).Pairwise fun a b => t.Below b a := by
  induction c using Nat.strongRecOn with
  | ind c ih =>
    cases hp : t.parent c with
    | none =>
      rw [ancestors_of_none hp]
      exact List.Pairwise.nil
    | some p =>
      have hc := hl.mem hp
      rw [ancestors_of_mem hl hc]
      exact List.pairwise_cons.2 ⟨fun b hb => (below_of_mem_ancestors hl hb).1, ih p (hl.child hc).1⟩

theorem mem_preOrderWithin (hl : t.Linked) (hid : id < t.size) {depth : Nat}
    (hd : t.size - id ≤ depth) (h : t.Below id c) : c ∈ t.preOrderWithin depth id := by
  induction depth generalizing id with
  | zero => exact absurd (Nat.le_zero.1 hd) (Nat.sub_ne_zero_of_lt hid)
  | succ depth ih =>
    rcases h.eq_or_child with rfl | ⟨d, hdm, hdc⟩
    · exact List.mem_cons_self
    · obtain ⟨hlt, hsize, -⟩ := hl.child hdm
      exact List.mem_cons_of_mem _
        (List.mem_flatMap.2 ⟨d, hdm, ih hsize (WellFormed.sub_le_of_lt hlt hd) hdc⟩)

theorem mem_preOrder (hl : t.Linked) (h : t.Below root c) : c ∈ t.preOrder :=
  mem_preOrderWithin hl hl.root_lt (Nat.sub_le _ _) h

theorem below_of_preOrderWithin {depth : Nat} (h : c ∈ t.preOrderWithin depth id) :
    t.Below id c := by
  induction depth generalizing id with
  | zero => cases h
  | succ depth ih =>
    rcases List.mem_cons.1 h with rfl | h
    · exact .refl
    · obtain ⟨d, hd, h⟩ := List.mem_flatMap.1 h
      exact (Below.of_mem hd).trans (ih h)

theorem preOrder_pairwise (hw : t.WellFormed) :
    t.preOrder.Pairwise fun a b => a ≠ b ∧ (t.Below a b ∨ t.Before a b) := by
  have key : ∀ depth id, (t.preOrderWithin depth id).Pairwise fun a b =>
      a ≠ b ∧ (t.Below a b ∨ t.Before a b) := by
    intro depth
    induction depth with
    | zero => exact fun _ => List.Pairwise.nil
    | succ depth ih =>
      intro id
      rw [preOrderWithin]
      refine List.pairwise_cons.2 ⟨fun b hb => ?_, List.pairwise_flatMap.2 ⟨fun d _ => ih d, ?_⟩⟩
      · obtain ⟨d, hd, hb⟩ := List.mem_flatMap.1 hb
        have hdb := below_of_preOrderWithin hb
        have hlt := Nat.lt_of_lt_of_le (hw.child hd).1 (hw.le_of_below hdb)
        exact ⟨Nat.ne_of_lt hlt, .inl ((Below.of_mem hd).trans hdb)⟩
      · refine (hw.ordered id).imp_of_mem fun {d e} hd he hde a ha b hb => ?_
        have hda := below_of_preOrderWithin ha
        have heb := below_of_preOrderWithin hb
        refine ⟨?_, .inr (Before.of_inside hde.2 (hw.inside_of_below hda) (hw.inside_of_below heb))⟩
        rintro rfl
        exact Nat.ne_of_lt hde.1 (hw.child_unique hd he hda heb)
  exact key t.size root

theorem mem_postOrderWithin (hl : t.Linked) (hid : id < t.size) {depth : Nat}
    (hd : t.size - id ≤ depth) : c ∈ t.postOrderWithin skip depth id ↔
      t.Below id c ∧ ∀ a, t.Below id a → t.Below a c → skip a = false := by
  induction depth generalizing id with
  | zero => exact absurd (Nat.le_zero.1 hd) (Nat.sub_ne_zero_of_lt hid)
  | succ depth ih =>
    rw [postOrderWithin]
    split
    · next hskip =>
      constructor
      · intro h; cases h
      · rintro ⟨hbelow, h⟩
        rw [h id .refl hbelow] at hskip
        cases hskip
    · next hskip =>
      -- at most one child leads to the node, so nothing between may be skipped
      have hchild : ∀ {d}, d ∈ t.children id → (c ∈ t.postOrderWithin skip depth d ↔
          t.Below d c ∧ ∀ a, t.Below d a → t.Below a c → skip a = false) := by
        intro d hdm
        obtain ⟨hlt, hsize, -⟩ := hl.child hdm
        exact ih hsize (WellFormed.sub_le_of_lt hlt hd)
      constructor
      · intro h
        rcases List.mem_append.1 h with h | h
        · obtain ⟨d, hdm, h⟩ := List.mem_flatMap.1 h
          obtain ⟨hbelow, hclear⟩ := (hchild hdm).1 h
          refine ⟨(Below.of_mem hdm).trans hbelow, fun a ha hac => ?_⟩
          rcases ha.eq_or_child with rfl | ⟨e, he, hea⟩
          · simpa using hskip
          · obtain rfl := hl.child_unique he hdm (hea.trans hac) hbelow
            exact hclear a hea hac
        · obtain rfl := List.mem_singleton.1 h
          refine ⟨.refl, fun a ha hac => ?_⟩
          obtain rfl := hl.below_antisymm ha hac
          simpa using hskip
      · rintro ⟨hbelow, hclear⟩
        rcases hbelow.eq_or_child with rfl | ⟨d, hdm, hdc⟩
        · exact List.mem_append_right _ List.mem_cons_self
        · refine List.mem_append_left _ (List.mem_flatMap.2 ⟨d, hdm, (hchild hdm).2 ⟨hdc, ?_⟩⟩)
          exact fun a ha hac => hclear a ((Below.of_mem hdm).trans ha) hac

theorem mem_postOrder (hl : t.Linked) : c ∈ t.postOrder skip ↔
    t.Below root c ∧ ∀ a, t.Below root a → t.Below a c → skip a = false :=
  mem_postOrderWithin hl hl.root_lt (Nat.sub_le _ _)

theorem below_of_postOrderWithin {depth : Nat} (h : c ∈ t.postOrderWithin skip depth id) :
    t.Below id c := by
  induction depth generalizing id with
  | zero => cases h
  | succ depth ih =>
    rw [postOrderWithin] at h
    split at h
    · cases h
    · rcases List.mem_append.1 h with h | h
      · obtain ⟨d, hdm, h⟩ := List.mem_flatMap.1 h
        exact (Below.of_mem hdm).trans (ih h)
      · obtain rfl := List.mem_singleton.1 h
        exact .refl

theorem postOrder_pairwise (hl : t.Linked) :
    (t.postOrder skip).Pairwise fun a b => ¬ t.Below a b := by
  have key : ∀ depth id, (t.postOrderWithin skip depth id).Pairwise fun a b => ¬ t.Below a b := by
    intro depth
    induction depth with
    | zero => exact fun _ => List.Pairwise.nil
    | succ depth ih =>
      intro id
      rw [postOrderWithin]
      split
      · exact List.Pairwise.nil
      · refine List.pairwise_append.2 ⟨List.pairwise_flatMap.2 ⟨fun d _ => ih d, ?_⟩,
          List.pairwise_singleton _ _, fun a ha b hb hab => ?_⟩
        · refine (hl.children_nodup id).imp_of_mem fun {d e} hd he hne a ha b hb hab => hne ?_
          exact hl.child_unique hd he ((below_of_postOrderWithin ha).trans hab)
            (below_of_postOrderWithin hb)
        · obtain rfl := List.mem_singleton.1 hb
          obtain ⟨d, hd, ha⟩ := List.mem_flatMap.1 ha
          have hle := hl.le_of_below ((below_of_postOrderWithin ha).trans hab)
          exact Nat.not_le_of_lt (hl.child hd).1 hle
  exact key t.size root

end SyntaxTree

end CoercionTrace
