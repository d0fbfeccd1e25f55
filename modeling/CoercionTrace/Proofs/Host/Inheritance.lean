import CoercionTrace.Host.ValueClass
import Mathlib.Data.Finset.Card
import Mathlib.Order.Monotone.Basic

/-!
# Inherited properties

A property is looked for on an object and its ancestors. Since there are no more ancestors than there
are objects, looking any further finds nothing else (`findWithin_of_size_le`). What is found stays as
it is while objects are only added to the heap (`OnlyAdds.find?_eq`), and with it the class of a value
(`OnlyAdds.classOf_eq`).
-/

namespace CoercionTrace

theorem Object.kind_eq_ordinary_iff {o : Object} :
    o.kind = .ordinary ↔ o.isArray = false ∧ o.isCallable = false := by
  cases hkind : o.kind <;> simp [isArray, elements?, isCallable, callable?, hkind]

namespace Heap

variable {h h' h'' : Heap} {key : String} {id : ObjectId} {m n : Nat} {v : Value}

theorem findWithin_succ (h : Heap) (key : String) (n : Nat) (id : ObjectId) :
    h.findWithin key (n + 1) id = match (h.object id).own? key with
      | some v => some v
      | none => (h.object id).parent.bind (h.findWithin key n) := rfl

theorem findWithin_eq_succ (hv : h.findWithin key n id = some v) :
    h.findWithin key (n + 1) id = some v := by
  induction n generalizing id with
  | zero =>
    rw [findWithin_succ, show (h.object id).own? key = some v from hv]
  | succ n ih =>
    rw [findWithin_succ] at hv ⊢
    cases hown : (h.object id).own? key with
    | some _ => rwa [hown] at hv
    | none =>
      rw [hown] at hv
      obtain ⟨p, hp, hfound⟩ := Option.bind_eq_some_iff.1 hv
      exact Option.bind_eq_some_iff.2 ⟨p, hp, ih hfound⟩

theorem findWithin_mono (hmn : m ≤ n) (hv : h.findWithin key m id = some v) :
    h.findWithin key n id = some v := by
  induction hmn with
  | refl => exact hv
  | step _ ih => exact findWithin_eq_succ ih

theorem object_of_size_le (hid : h.size ≤ id) : h.object id = {} := by
  simp only [size] at hid
  simp [object, hid]

theorem findWithin_of_size_le_id (hid : h.size ≤ id) : h.findWithin key n id = none := by
  cases n <;> simp [findWithin, object_of_size_le hid, Object.own?, Object.property?, Object.shown?]

def finders (h : Heap) (key : String) (n : Nat) : Finset ObjectId :=
  (Finset.range h.size).filter fun id => (h.findWithin key n id).isSome

theorem finders_mono (h : Heap) (key : String) : Monotone (h.finders key) := by
  intro m n hmn id hid
  simp only [finders, Finset.mem_filter, Option.isSome_iff_exists] at hid ⊢
  obtain ⟨hlt, v, hv⟩ := hid
  exact ⟨hlt, v, findWithin_mono hmn hv⟩

theorem findWithin_eq_of_finders (hmn : m ≤ n) (he : h.finders key m = h.finders key n) :
    h.findWithin key m = h.findWithin key n := by
  funext id
  cases hm : h.findWithin key m id with
  | some v => exact (findWithin_mono hmn hm).symm
  | none =>
    cases hn : h.findWithin key n id with
    | none => rfl
    | some v =>
      have hlt : id < h.size := Nat.lt_of_not_le fun hle => by
        rw [findWithin_of_size_le_id hle] at hn
        cases hn
      have hmem : id ∈ h.finders key m := by
        rw [he]
        simp [finders, hlt, hn]
      simp [finders, hm] at hmem

theorem findWithin_of_size_le (hn : h.size ≤ n) :
    h.findWithin key n = h.findWithin key h.size := by
  refine (findWithin_eq_of_finders hn ?_).symm
  -- Once a step finds nothing new, none does.
  have hcard : (h.finders key n).card = (h.finders key h.size).card := by
    refine Nat.stabilises_of_monotone (fun _ _ hle => Finset.card_le_card (h.finders_mono key hle))
      (fun k => ?_) (fun k hk => ?_) hn
    · exact (Finset.card_filter_le _ _).trans_eq (Finset.card_range _)
    · have he := Finset.eq_of_subset_of_card_le (h.finders_mono key (Nat.le_succ k)) hk.symm.le
      have hstep := findWithin_eq_of_finders (Nat.le_succ k) he
      congr 1
      unfold finders
      congr 1
      funext id
      rw [findWithin_succ, findWithin_succ, hstep]
  exact Finset.eq_of_subset_of_card_le (h.finders_mono key hn) hcard.le

structure Closed (h : Heap) : Prop where
  parent : ∀ id p, (h.object id).parent = some p → p < h.size
  own : ∀ id key p, (h.object id).own? key = some (.object p) → p < h.size

theorem closed_empty : Closed {} where
  parent id p := by simp [object]
  own id key p := by simp [object, Object.own?, Object.property?, Object.shown?]

theorem Closed.alloc (hc : h.Closed) {o : Object} (hparent : ∀ p, o.parent = some p → p ≤ h.size)
    (hown : ∀ key p, o.own? key = some (.object p) → p ≤ h.size) : (h.alloc o).2.Closed := by
  have hsize : (h.alloc o).2.size = h.size + 1 := by simp [Heap.alloc, size]
  have hobject : ∀ id, (h.alloc o).2.object id = o ∨ (h.alloc o).2.object id = h.object id := by
    intro id
    simp only [object, Heap.alloc, Array.getElem?_push]
    split
    · exact .inl rfl
    · exact .inr rfl
  constructor
  · intro id p hp
    rw [hsize]
    rcases hobject id with ho | ho
    · exact Nat.lt_succ_of_le (hparent p (ho ▸ hp))
    · exact Nat.lt_succ_of_lt (hc.parent id p (ho ▸ hp))
  · intro id key p hp
    rw [hsize]
    rcases hobject id with ho | ho
    · exact Nat.lt_succ_of_le (hown key p (ho ▸ hp))
    · exact Nat.lt_succ_of_lt (hc.own id key p (ho ▸ hp))

structure OnlyAdds (h h' : Heap) : Prop where
  size : h.size ≤ h'.size
  object : ∀ id < h.size, h'.object id = h.object id

instance : IsPreorder Heap OnlyAdds where
  refl _ := ⟨Nat.le_refl _, fun _ _ => rfl⟩
  trans _ _ _ h₁ h₂ := ⟨Nat.le_trans h₁.size h₂.size, fun id hid =>
    (h₂.object id (Nat.lt_of_lt_of_le hid h₁.size)).trans (h₁.object id hid)⟩

theorem onlyAdds_alloc (h : Heap) (o : Object) : OnlyAdds h (h.alloc o).2 :=
  ⟨by simp [alloc, size], fun _ hid => object_alloc_of_lt h o hid⟩

theorem Closed.lt_of_findWithin (hc : h.Closed) {p : ObjectId} :
    h.findWithin key n id = some (.object p) → p < h.size := by
  induction n generalizing id with
  | zero => exact hc.own id key p
  | succ n ih =>
    rw [findWithin_succ]
    cases hown : (h.object id).own? key with
    | some v =>
      rintro ⟨⟩
      exact hc.own id key p hown
    | none =>
      intro hv
      obtain ⟨_, -, hfound⟩ := Option.bind_eq_some_iff.1 hv
      exact ih hfound

theorem OnlyAdds.findWithin_eq (ha : OnlyAdds h h') (hc : h.Closed) (hid : id < h.size) :
    h'.findWithin key n id = h.findWithin key n id := by
  induction n generalizing id with
  | zero => rw [findWithin, findWithin, ha.object id hid]
  | succ n ih =>
    rw [findWithin_succ, findWithin_succ, ha.object id hid]
    cases (h.object id).own? key with
    | some v => rfl
    | none =>
      cases hp : (h.object id).parent with
      | none => rfl
      | some p => exact ih (hc.parent id p hp)

theorem OnlyAdds.find?_eq (ha : OnlyAdds h h') (hc : h.Closed) (hid : id < h.size) :
    h'.find? id key = h.find? id key := by
  rw [find?, ha.findWithin_eq hc hid, findWithin_of_size_le ha.size, find?]

def Knows (h : Heap) (v : Value) : Prop := ∀ id, v = .object id → id < h.size

def conversion? (h : Heap) (id : ObjectId) : Option Callable :=
  (h.find? id "toString").bind h.callable?

theorem OnlyAdds.callable?_eq (ha : OnlyAdds h h') (hv : h.Knows v) :
    h'.callable? v = h.callable? v := by
  cases v with
  | object id => exact congrArg Object.callable? (ha.object id (hv id rfl))
  | _ => rfl

theorem OnlyAdds.conversion?_eq (ha : OnlyAdds h h') (hc : h.Closed) (hid : id < h.size) :
    h'.conversion? id = h.conversion? id := by
  rw [conversion?, conversion?, ha.find?_eq hc hid]
  cases hv : h.find? id "toString" with
  | none => rfl
  | some v =>
    refine ha.callable?_eq fun p hp => ?_
    subst hp
    exact hc.lt_of_findWithin hv

theorem OnlyAdds.isArray_eq (ha : OnlyAdds h h') (hv : h.Knows v) : h'.isArray v = h.isArray v := by
  cases v with
  | object id => exact congrArg Object.isArray (ha.object id (hv id rfl))
  | _ => rfl

theorem lacksConversion_iff : h.lacksConversion id = true ↔
    (h.object id).kind = .ordinary ∧ h.conversion? id = none := by
  unfold lacksConversion conversion?
  split
  · next hkind => cases h.find? id "toString" <;> simp [hkind, isCallable]
  · next hkind => simpa using fun he => absurd he hkind

theorem classOf_eq_plainObject_iff : h.classOf v = .plainObject ↔
    ∃ id, v = .object id ∧ (h.object id).kind = .ordinary ∧ h.conversion? id = none := by
  cases v with
  | object id =>
    simp only [classOf, Value.object.injEq, ← lacksConversion_iff]
    constructor
    · intro hclass
      split at hclass
      · cases hclass
      · split at hclass
        · next hlacks => exact ⟨id, rfl, hlacks⟩
        · cases hclass
    · rintro ⟨_, rfl, hlacks⟩
      have harray := (Object.kind_eq_ordinary_iff.1 (lacksConversion_iff.1 hlacks).1).1
      rw [if_neg (by simp [harray]), if_pos hlacks]
  | number n => simp only [classOf]; split <;> simp
  | _ => simp [classOf]

theorem OnlyAdds.plainObject_iff (ha : OnlyAdds h h') (hc : h.Closed) (hv : h.Knows v) :
    h'.classOf v = .plainObject ↔ h.classOf v = .plainObject := by
  simp only [classOf_eq_plainObject_iff]
  refine exists_congr fun id => and_congr_right fun hid => ?_
  rw [ha.object id (hv id hid), ha.conversion?_eq hc (hv id hid)]

end Heap

end CoercionTrace
