import CoercionTrace.Proofs.Syntax.Parts
import Mathlib.Data.List.Sort

/-!
# What a text shows

The text of a node is made of its own characters and of the texts of other nodes: of its children,
or of those that its replacement takes over. `shown` follows these down to the nodes that one is
interested in. Main statement: the text of an operand shows its pieces, once each and in order
(`shown_operand`).
-/

namespace CoercionTrace

theorem flatMap_eq_of_only {α β : Type} {l : List α} {f : α → List β} {a : α} (hl : l.Nodup)
    (ha : a ∈ l) (h : ∀ b ∈ l, b ≠ a → f b = []) : l.flatMap f = f a := by
  obtain ⟨before, after, rfl⟩ := List.append_of_mem ha
  have hnd := List.nodup_append.1 hl
  have hbefore : before.flatMap f = [] :=
    List.flatMap_eq_nil_iff.2 fun b hb => h b (by simp [hb])
      fun e => hnd.2.2 b hb a List.mem_cons_self e
  have hafter : after.flatMap f = [] :=
    List.flatMap_eq_nil_iff.2 fun b hb => h b (by simp [hb])
      fun e => (List.nodup_cons.1 hnd.2.1).1 (e ▸ hb)
  rw [List.flatMap_append, List.flatMap_cons, hbefore, hafter, List.nil_append, List.append_nil]

theorem flatMap_ite {α : Type} {p : α → Prop} [DecidablePred p] (l : List α) :
    l.flatMap (fun a => if p a then [a] else []) = l.filter p := by
  induction l with
  | nil => rfl
  | cons a rest ih =>
    rw [List.flatMap_cons, ih]
    by_cases h : p a <;> simp [h]

namespace SyntaxTree

def shownWithin (t : SyntaxTree) (p : NodeId → Bool) : Nat → NodeId → List NodeId
  | 0, _ => []
  | depth + 1, id => if p id then [id] else (t.takenOver id).flatMap (shownWithin t p depth)

/-- The nodes that satisfy `p` and whose text the text of a node shows, from left to right. -/
def shown (t : SyntaxTree) (p : NodeId → Bool) (id : NodeId) : List NodeId :=
  t.shownWithin p t.size id

/-- An access to a property whose parts can be read ahead of it has two pieces, its object and its
key, if that is an expression. Any other operand is a piece of its own. -/
def pieces (t : SyntaxTree) (operand : NodeId) : List NodeId :=
  let target := t.unwrap operand
  if t.isPlainMember target then
    (t.child? target "object").toList ++
      if t.kind target = .memberExpression then [] else (t.child? target "index").toList
  else [target]

variable {t : SyntaxTree} {p : NodeId → Bool} {id c : NodeId}

theorem shownWithin_of_le (hw : t.WellFormed) (ht : t.TakesFromBelow) (hid : id < t.size) {depth : Nat}
    (hd : t.size - id ≤ depth) : t.shownWithin p depth id = t.shown p id := by
  have key : ∀ {depth depth' : Nat} {id : NodeId}, id < t.size → t.size - id ≤ depth →
      t.size - id ≤ depth' → t.shownWithin p depth id = t.shownWithin p depth' id := by
    intro depth
    induction depth with
    | zero =>
      intro depth' id hid hd _
      exact absurd (Nat.le_zero.1 hd) (Nat.sub_ne_zero_of_lt hid)
    | succ depth ih =>
      intro depth' id hid hd hd'
      cases depth' with
      | zero => exact absurd (Nat.le_zero.1 hd') (Nat.sub_ne_zero_of_lt hid)
      | succ depth' =>
        simp only [shownWithin]
        split
        · rfl
        · refine List.flatMap_congr fun c hc => ?_
          obtain ⟨hlt, hbelow⟩ := ht id c hc
          exact ih (hw.lt_size_of_below hbelow hid) (WellFormed.sub_le_of_lt hlt hd) (WellFormed.sub_le_of_lt hlt hd')
  exact key hid hd (Nat.sub_le _ _)

theorem shown_eq (hw : t.WellFormed) (ht : t.TakesFromBelow) (hid : id < t.size) :
    t.shown p id = if p id then [id] else (t.takenOver id).flatMap (t.shown p) := by
  obtain ⟨depth, hdepth⟩ := Nat.exists_eq_succ_of_ne_zero (Nat.ne_zero_of_lt hid)
  rw [shown, hdepth, shownWithin]
  split
  · rfl
  · refine List.flatMap_congr fun c hc => ?_
    obtain ⟨hlt, hbelow⟩ := ht id c hc
    refine shownWithin_of_le hw ht (hw.lt_size_of_below hbelow hid) (WellFormed.sub_le_of_lt hlt ?_)
    exact hdepth ▸ Nat.sub_le _ _

theorem shown_of_pos (hw : t.WellFormed) (ht : t.TakesFromBelow) (hid : id < t.size) (hp : p id = true) :
    t.shown p id = [id] := by
  rw [shown_eq hw ht hid, if_pos hp]

theorem below_of_shown (ht : t.TakesFromBelow) (h : c ∈ t.shown p id) : p c = true ∧ t.Below id c := by
  have key : ∀ {depth : Nat} {id : NodeId}, c ∈ t.shownWithin p depth id →
      p c = true ∧ t.Below id c := by
    intro depth
    induction depth with
    | zero => intro id h; cases h
    | succ depth ih =>
      intro id h
      rw [shownWithin] at h
      split at h
      · next hp =>
        obtain rfl := List.mem_singleton.1 h
        exact ⟨hp, .refl⟩
      · obtain ⟨d, hd, hc⟩ := List.mem_flatMap.1 h
        obtain ⟨hpc, hbelow⟩ := ih hc
        exact ⟨hpc, (ht id d hd).2.trans hbelow⟩
  exact key h

theorem shown_eq_nil (ht : t.TakesFromBelow) (h : ∀ q, p q = true → ¬ t.Below id q) :
    t.shown p id = [] :=
  List.eq_nil_iff_forall_not_mem.2 fun q hq => h q (below_of_shown ht hq).1 (below_of_shown ht hq).2

def KeepsForms (t : SyntaxTree) : Prop :=
  ∀ id, t.kind id ∈ [Kind.parenthesizedExpression, .memberExpression, .subscriptExpression] →
    (t.node id).replacement = none

structure Redundant (t : SyntaxTree) (id inner : NodeId) : Prop where
  kind : t.kind id = .parenthesizedExpression
  only : t.significantChildren id = [inner]

theorem Redundant.mem (h : t.Redundant id c) : c ∈ t.children id :=
  mem_of_significant (h.only ▸ List.mem_cons_self)

theorem unwrapWithin_succ (t : SyntaxTree) (depth : Nat) (id : NodeId) :
    t.unwrapWithin (depth + 1) id = id ∨
      ∃ inner, t.Redundant id inner ∧
        t.unwrapWithin (depth + 1) id = t.unwrapWithin depth inner := by
  rw [unwrapWithin]
  split
  · next hk =>
    split
    · next only hs =>
      split
      · exact .inl rfl
      · exact .inr ⟨only, ⟨hk, hs⟩, rfl⟩
    · exact .inl rfl
  · exact .inl rfl

theorem below_unwrapWithin (t : SyntaxTree) (depth : Nat) (id : NodeId) :
    t.Below id (t.unwrapWithin depth id) := by
  induction depth generalizing id with
  | zero => exact .refl
  | succ depth ih =>
    rcases t.unwrapWithin_succ depth id with h | ⟨inner, hred, h⟩
    · rw [h]
      exact .refl
    · rw [h]
      exact (Below.of_mem hred.mem).trans (ih inner)

theorem below_unwrap (t : SyntaxTree) (id : NodeId) : t.Below id (t.unwrap id) :=
  t.below_unwrapWithin t.size id

theorem shown_eq_child (hw : t.WellFormed) (ht : t.TakesFromBelow) (hid : id < t.size)
    (hr : (t.node id).replacement = none) (hp : p id = false) (hc : c ∈ t.children id)
    (h : ∀ q, p q = true → t.Below id q → t.Below c q) : t.shown p id = t.shown p c := by
  rw [shown_eq hw ht hid, hp, takenOver_of_none hr]
  refine flatMap_eq_of_only (hw.children_nodup id) hc fun b hb hne => shown_eq_nil ht fun q hq hbq => ?_
  exact hne (hw.child_unique hb hc hbq (h q hq ((Below.of_mem hb).trans hbq)))

theorem shown_unwrap (hw : t.WellFormed) (ht : t.TakesFromBelow) (hf : t.KeepsForms)
    (hid : id < t.size) (h : ∀ q, p q = true → t.Below id q → t.Below (t.unwrap id) q) :
    t.shown p id = t.shown p (t.unwrap id) := by
  have key : ∀ {depth : Nat} {id : NodeId}, id < t.size →
      (∀ q, p q = true → t.Below id q → t.Below (t.unwrapWithin depth id) q) →
      t.shown p id = t.shown p (t.unwrapWithin depth id) := by
    intro depth
    induction depth with
    | zero => exact fun _ _ => rfl
    | succ depth ih =>
      intro id hid h
      rcases t.unwrapWithin_succ depth id with heq | ⟨inner, hred, heq⟩
      · rw [heq]
      · rw [heq] at h ⊢
        have hbelow := t.below_unwrapWithin depth inner
        have hp : p id = false := by
          refine Bool.eq_false_iff.2 fun hp => ?_
          have hle := hw.le_of_below (hbelow.trans (h id hp .refl))
          exact Nat.not_le_of_lt (hw.child hred.mem).1 hle
        rw [shown_eq_child hw ht hid (hf id (by simp [hred.kind])) hp hred.mem
          fun q hq hb => hbelow.trans (h q hq hb)]
        exact ih (hw.child hred.mem).2.1 fun q hq hb => h q hq ((Below.of_mem hred.mem).trans hb)
  exact key hid h

theorem SameShape.pieces {t' : SyntaxTree} (h : t.SameShape t') : t'.pieces = t.pieces := by
  funext id
  simp only [SyntaxTree.pieces, h.unwrap, h.isPlainMember, h.child?, h.kind]

theorem pieces_of_member (h : t.isPlainMember (t.unwrap id) = true) :
    ∃ object, t.child? (t.unwrap id) "object" = some object ∧
      (t.kind (t.unwrap id) = .memberExpression ∧ t.pieces id = [object] ∨
        t.kind (t.unwrap id) ≠ .memberExpression ∧ ∃ index,
          t.child? (t.unwrap id) "index" = some index ∧ t.pieces id = [object, index]) := by
  have hpieces : t.pieces id = (t.child? (t.unwrap id) "object").toList ++
      if t.kind (t.unwrap id) = .memberExpression then []
      else (t.child? (t.unwrap id) "index").toList := by
    rw [pieces, if_pos h]
  rw [hpieces]
  unfold isPlainMember at h
  split at h
  · cases h
  · next object ho =>
    refine ⟨object, ho, ?_⟩
    rw [ho]
    split at h
    · cases h
    · split at h
      · next hk => exact .inl ⟨hk, by simp [hk]⟩
      · next hk =>
        obtain ⟨index, hindex⟩ := Option.isSome_iff_exists.1 h
        exact .inr ⟨by rw [hk]; decide, index, hindex, by simp [hk, hindex]⟩
      · cases h

theorem below_of_mem_pieces (h : c ∈ t.pieces id) :
    t.Below (t.unwrap id) c := by
  cases hm : t.isPlainMember (t.unwrap id) with
  | false =>
    rw [pieces, hm] at h
    obtain rfl := List.mem_singleton.1 h
    exact .refl
  | true =>
    obtain ⟨object, ho, ⟨-, e⟩ | ⟨-, index, hi, e⟩⟩ := pieces_of_member hm
    · rw [e] at h
      obtain rfl := List.mem_singleton.1 h
      exact .of_mem (child?_mem ho)
    · rw [e] at h
      rcases List.mem_cons.1 h with rfl | h
      · exact .of_mem (child?_mem ho)
      · obtain rfl := List.mem_singleton.1 h
        exact .of_mem (child?_mem hi)

theorem pieces_children (hw : t.WellFormed) (h : t.isPlainMember (t.unwrap id) = true) :
    (∀ q ∈ t.pieces id, q ∈ t.children (t.unwrap id)) ∧ (t.pieces id).Pairwise (· < ·) := by
  obtain ⟨object, ho, ⟨-, e⟩ | ⟨-, index, hi, e⟩⟩ := pieces_of_member h
  · rw [e]
    exact ⟨by simpa using child?_mem ho, List.pairwise_singleton _ _⟩
  · rw [e]
    refine ⟨by simpa using ⟨child?_mem ho, child?_mem hi⟩, ?_⟩
    simpa using hw.fields (by decide) ho hi

theorem shown_target (hw : t.WellFormed) (ht : t.TakesFromBelow) (hf : t.KeepsForms)
    (hid : t.unwrap id < t.size) (hp : ∀ q ∈ t.pieces id, p q = true)
    (h : ∀ q, p q = true → t.Below (t.unwrap id) q → q ∈ t.pieces id) :
    t.shown p (t.unwrap id) = t.pieces id := by
  cases hm : t.isPlainMember (t.unwrap id) with
  | false =>
    have hself : t.pieces id = [t.unwrap id] := by
      rw [pieces, hm]
      rfl
    rw [hself, shown_of_pos hw ht hid (hp _ (hself ▸ List.mem_cons_self))]
  | true =>
    obtain ⟨hchildren, hsorted⟩ := pieces_children hw hm
    have hnone : (t.node (t.unwrap id)).replacement = none := by
      refine hf _ ?_
      rcases kind_of_isPlainMember hm with e | e <;> simp [e]
    have hself : p (t.unwrap id) = false := by
      refine Bool.eq_false_iff.2 fun hp => ?_
      exact Nat.lt_irrefl _ (hw.child (hchildren _ (h _ hp .refl))).1
    -- Each piece shows itself, and no other child shows anything.
    have hpiece : ∀ c ∈ t.children (t.unwrap id),
        t.shown p c = if c ∈ t.pieces id then [c] else [] := by
      intro c hc
      split
      · next hcp => exact shown_of_pos hw ht (hw.child hc).2.1 (hp c hcp)
      · next hcp =>
        refine shown_eq_nil ht fun q hq hcq => hcp ?_
        have hqp := h q hq ((Below.of_mem hc).trans hcq)
        rwa [hw.child_unique hc (hchildren q hqp) hcq .refl]
    rw [shown_eq hw ht hid, hself, takenOver_of_none hnone]
    change (t.children (t.unwrap id)).flatMap (t.shown p) = t.pieces id
    rw [List.flatMap_congr hpiece, flatMap_ite]
    have hfiltered := (hw.ordered (t.unwrap id)).filter (· ∈ t.pieces id)
    refine (hfiltered.imp And.left).eq_of_mem_iff hsorted fun q => ?_
    simpa using hchildren q

theorem shown_operand (hw : t.WellFormed) (ht : t.TakesFromBelow) (hf : t.KeepsForms)
    (hid : id < t.size) (hp : ∀ q ∈ t.pieces id, p q = true)
    (h : ∀ q, p q = true → t.Below id q → q ∈ t.pieces id) : t.shown p id = t.pieces id := by
  have hbelow := t.below_unwrap id
  rw [shown_unwrap hw ht hf hid fun q hq hb => below_of_mem_pieces (h q hq hb)]
  exact shown_target hw ht hf (hw.lt_size_of_below hbelow hid) hp
    fun q hq hb => h q hq (hbelow.trans hb)

end SyntaxTree

end CoercionTrace
