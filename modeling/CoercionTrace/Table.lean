/-!
# Insertion-ordered tables

A `Table` maps keys to values and remembers the order in which its keys were first written.
Main statements: a written key is found with the value written (`find?_insert_self`), every other
key is found as before (`find?_insert_ne`, `find?_erase_ne`), and no key is listed twice
(`Table.nodup`).
-/

namespace CoercionTrace

structure Table (κ : Type) (α : Type) where
  entries : List (κ × α)
  nodup : (entries.map Prod.fst).Nodup

namespace Table

variable {κ α : Type}

instance [BEq κ] [BEq α] : BEq (Table κ α) := ⟨fun s t => s.entries == t.entries⟩

instance [DecidableEq κ] [DecidableEq α] : DecidableEq (Table κ α) := fun s t =>
  match decEq s.entries t.entries with
  | isTrue h => isTrue (by cases s; cases t; simp_all)
  | isFalse h => isFalse (fun e => h (e ▸ rfl))

def empty : Table κ α := ⟨[], List.nodup_nil⟩

instance : Inhabited (Table κ α) := ⟨empty⟩

def size (t : Table κ α) : Nat := t.entries.length

def keys (t : Table κ α) : List κ := t.entries.map Prod.fst

variable [DecidableEq κ]

def lookup (k : κ) : List (κ × α) → Option α
  | [] => none
  | e :: rest => if e.1 = k then some e.2 else lookup k rest

def put (k : κ) (v : α) : List (κ × α) → List (κ × α)
  | [] => [(k, v)]
  | e :: rest => if e.1 = k then (e.1, v) :: rest else e :: put k v rest

def drop (k : κ) : List (κ × α) → List (κ × α)
  | [] => []
  | e :: rest => if e.1 = k then rest else e :: drop k rest

theorem keys_put (k : κ) (v : α) (l : List (κ × α)) :
    (put k v l).map Prod.fst =
      if k ∈ l.map Prod.fst then l.map Prod.fst else l.map Prod.fst ++ [k] := by
  induction l with
  | nil => simp [put]
  | cons e rest ih =>
    by_cases h : e.1 = k
    · simp [put, h]
    · have h' : ¬ k = e.1 := fun q => h q.symm
      simp only [put, h, if_false, List.map_cons, ih, List.mem_cons, h', false_or]
      split <;> simp

theorem keys_drop_sublist (k : κ) (l : List (κ × α)) :
    ((drop k l).map Prod.fst).Sublist (l.map Prod.fst) := by
  induction l with
  | nil => simp [drop]
  | cons e rest ih =>
    by_cases h : e.1 = k
    · simp [drop, h]
    · simpa [drop, h] using ih

theorem nodup_put (k : κ) (v : α) (l : List (κ × α)) (h : (l.map Prod.fst).Nodup) :
    ((put k v l).map Prod.fst).Nodup := by
  rw [keys_put]
  split
  · exact h
  · next hk => exact List.nodup_append.2 ⟨h, by simp, fun a ha b hb => by grind⟩

theorem nodup_drop (k : κ) (l : List (κ × α)) (h : (l.map Prod.fst).Nodup) :
    ((drop k l).map Prod.fst).Nodup :=
  (keys_drop_sublist k l).nodup h

def find? (t : Table κ α) (k : κ) : Option α := lookup k t.entries

def contains (t : Table κ α) (k : κ) : Bool := (t.find? k).isSome

def insert (t : Table κ α) (k : κ) (v : α) : Table κ α :=
  ⟨put k v t.entries, nodup_put k v t.entries t.nodup⟩

def erase (t : Table κ α) (k : κ) : Table κ α :=
  ⟨drop k t.entries, nodup_drop k t.entries t.nodup⟩

def insertMany (t : Table κ α) (pairs : List (κ × α)) : Table κ α :=
  pairs.foldl (fun t p => t.insert p.1 p.2) t

def ofList (pairs : List (κ × α)) : Table κ α := empty.insertMany pairs

theorem lookup_put (k k' : κ) (v : α) (l : List (κ × α)) :
    lookup k' (put k v l) = if k = k' then some v else lookup k' l := by
  induction l with
  | nil => simp [put, lookup]
  | cons e rest ih => grind [put, lookup]

theorem lookup_eq_none_of_notMem (k : κ) (l : List (κ × α)) (h : k ∉ l.map Prod.fst) :
    lookup k l = none := by
  induction l with
  | nil => rfl
  | cons e rest ih =>
    simp only [List.map_cons, List.mem_cons, not_or] at h
    have h1 : ¬ e.1 = k := fun q => h.1 q.symm
    simp [lookup, h1, ih h.2]

theorem lookup_of_mem {e : κ × α} {l : List (κ × α)} (hl : (l.map Prod.fst).Nodup) (h : e ∈ l) :
    lookup e.1 l = some e.2 := by
  induction l with
  | nil => cases h
  | cons e' rest ih =>
    rw [List.map_cons, List.nodup_cons] at hl
    rcases List.mem_cons.1 h with rfl | h
    · simp [lookup]
    · have hne : e'.1 ≠ e.1 := fun he => hl.1 (he ▸ List.mem_map_of_mem h)
      simp [lookup, hne, ih hl.2 h]

theorem mem_of_lookup {k : κ} {v : α} {l : List (κ × α)} (h : lookup k l = some v) : (k, v) ∈ l := by
  induction l with
  | nil => cases h
  | cons e rest ih =>
    rw [lookup] at h
    split at h
    · next he => exact List.mem_cons.2 (.inl (Prod.ext he.symm (Option.some.inj h).symm))
    · exact List.mem_cons_of_mem _ (ih h)

theorem lookup_drop_ne (k k' : κ) (l : List (κ × α)) (h : k ≠ k') :
    lookup k' (drop k l) = lookup k' l := by
  induction l with
  | nil => rfl
  | cons e rest ih => grind [drop, lookup]

theorem lookup_drop_self (k : κ) (l : List (κ × α)) (h : (l.map Prod.fst).Nodup) :
    lookup k (drop k l) = none := by
  induction l with
  | nil => rfl
  | cons e rest ih =>
    simp only [List.map_cons, List.nodup_cons] at h
    by_cases h1 : e.1 = k
    · rw [drop, if_pos h1]
      exact lookup_eq_none_of_notMem k rest (h1 ▸ h.1)
    · simp [drop, lookup, h1, ih h.2]

@[simp] theorem find?_empty (k : κ) : (empty : Table κ α).find? k = none := rfl

@[simp] theorem find?_insert_self (t : Table κ α) (k : κ) (v : α) :
    (t.insert k v).find? k = some v := by
  simp [find?, insert, lookup_put]

theorem find?_insert_ne (t : Table κ α) {k k' : κ} (v : α) (h : k ≠ k') :
    (t.insert k v).find? k' = t.find? k' := by
  simp [find?, insert, lookup_put, h]

theorem find?_insert (t : Table κ α) (k k' : κ) (v : α) :
    (t.insert k v).find? k' = if k = k' then some v else t.find? k' :=
  lookup_put k k' v t.entries

@[simp] theorem find?_erase_self (t : Table κ α) (k : κ) : (t.erase k).find? k = none :=
  lookup_drop_self k t.entries t.nodup

theorem find?_erase_ne (t : Table κ α) {k k' : κ} (h : k ≠ k') :
    (t.erase k).find? k' = t.find? k' :=
  lookup_drop_ne k k' t.entries h

theorem find?_of_find?_erase {t : Table κ α} {k k' : κ} {v : α}
    (h : (t.erase k).find? k' = some v) : t.find? k' = some v := by
  by_cases hk : k = k'
  · subst hk
    rw [find?_erase_self] at h
    cases h
  · rwa [t.find?_erase_ne hk] at h

theorem length_drop_lt (k : κ) {v : α} {l : List (κ × α)} (h : lookup k l = some v) :
    (drop k l).length < l.length := by
  induction l with
  | nil => simp [lookup] at h
  | cons e rest ih => grind [lookup, drop]

theorem size_erase_lt (t : Table κ α) {k : κ} {v : α} (h : t.find? k = some v) :
    (t.erase k).size < t.size :=
  length_drop_lt k h

theorem keys_insert (t : Table κ α) (k : κ) (v : α) :
    (t.insert k v).keys = if k ∈ t.keys then t.keys else t.keys ++ [k] :=
  keys_put k v t.entries

end Table

end CoercionTrace
