import CoercionTrace.Proofs.Monitor.Hidden
import Mathlib.Data.List.Nodup

/-!
# Own properties

Elements, what else the kind of an object shows, and the properties that were created are three
stores behind one interface: an assignment to an index goes to the elements, a definition and a
deletion know the created properties only, and a created property stands before what the kind shows.
Main statement: after any edits, each law of own properties holds just as far as no created property
stands before what the kind shows, and no deletion takes away what the kind shows
(`properties_lawful`).
-/

namespace CoercionTrace

/-! ## Indices -/

section Indices

variable {key : String} {i j : Nat}

theorem ofDigitChars_toString (i : Nat) : Nat.ofDigitChars 10 (toString i).toList 0 = i := by simp

theorem elementIndex?_eq_some_iff : elementIndex? key = some i ↔ i < indexLimit ∧ key = toString i := by
  rw [elementIndex?, Option.ite_none_right_eq_some, Option.some.injEq]
  constructor
  · rintro ⟨⟨hi, hkey⟩, rfl⟩
    exact ⟨hi, hkey.symm⟩
  · rintro ⟨hi, rfl⟩
    rw [ofDigitChars_toString]
    exact ⟨⟨hi, rfl⟩, rfl⟩

theorem elementIndex?_toString (hi : i < indexLimit) : elementIndex? (toString i) = some i :=
  elementIndex?_eq_some_iff.2 ⟨hi, rfl⟩

theorem toString_ne_length : ∀ i : Nat, toString i ≠ "length" :=
  Object.toString_ne (c := 'l') (by decide) (by decide)

end Indices

namespace Object

variable {o o' : Object} {key : String} {elements : List Value} {i j : Nat} {v : Value} {p : Property}

theorem length_place (elements : List Value) (i : Nat) (v : Value) :
    (place elements i v).length = max elements.length (i + 1) := by
  rw [place, List.length_set, List.length_append, List.length_replicate]
  omega

theorem getElem?_place (elements : List Value) (i : Nat) (v : Value) (j : Nat) :
    (place elements i v)[j]? = if j = i then some v else if j < elements.length then elements[j]?
      else if j < i then some .undefined else none := by
  rw [place, List.getElem?_set, List.getElem?_append]
  by_cases hji : j = i
  · subst hji
    rw [if_pos rfl, if_pos rfl, if_pos]
    rw [List.length_append, List.length_replicate]
    omega
  · rw [if_neg (Ne.symm hji), if_neg hji, List.getElem?_replicate]
    grind

/-! ## What the kind shows -/

/-- The kind of an object keeps a store of its own for some keys, whatever the store holds. -/
def Reserved (o : Object) (key : String) : Prop :=
  (o.index? key).isSome = true ∨ (o.shown? key).isSome = true

def Fits (o : Object) : Prop :=
  ∀ elements, o.kind = .array elements → elements.length ≤ indexLimit

theorem index?_eq_some_iff : o.index? key = some (elements, i) ↔
    o.kind = .array elements ∧ i < indexLimit ∧ key = toString i := by
  rw [index?, Option.bind_eq_some_iff, elements?]
  cases o.kind <;> simp [elementIndex?_eq_some_iff, and_comm]

theorem shown?_congr (h : o'.kind = o.kind) (key : String) : o'.shown? key = o.shown? key := by
  rw [shown?, shown?, h]

theorem shown?_length (h : o.kind = .array elements) :
    o.shown? "length" = some (.number (Number.ofNat elements.length)) := by
  rw [shown?, h]
  rfl

theorem shown?_of_ne_length (h : o.kind = .array elements) (hkey : key ≠ "length") :
    o.shown? key = (elementIndex? key).bind fun i => elements[i]? := by
  simp only [shown?, h, if_neg hkey]

theorem shown?_toString (h : o.kind = .array elements) (hi : i < indexLimit) :
    o.shown? (toString i) = elements[i]? := by
  rw [shown?_of_ne_length h (toString_ne_length i), elementIndex?_toString hi, Option.bind_some]

theorem mem_shownKeys (hfits : o.Fits) : key ∈ o.shownKeys ↔ (o.shown? key).isSome = true := by
  cases hkind : o.kind with
  | ordinary => simp [shownKeys, shown?, hkind]
  | function f =>
    simp only [shownKeys, shown?, hkind, List.mem_cons, List.not_mem_nil, or_false]
    split_ifs <;> simp_all
  | array elements =>
    have hlength : "length" ∉ o.elementKeys := by
      simpa [elementKeys, hkind] using fun i _ => toString_ne_length i
    by_cases hkey : key = "length"
    · subst hkey
      simp [shownKeys, hkind, shown?_length hkind]
    · simp only [shownKeys, hkind, List.mem_append, List.mem_singleton, hkey, or_false, elementKeys,
        List.mem_map, List.mem_range, shown?_of_ne_length hkind hkey, Option.isSome_bind]
      constructor
      · rintro ⟨i, hi, rfl⟩
        rw [elementIndex?_toString (hi.trans_le (hfits _ hkind))]
        simpa using hi
      · cases hindex : elementIndex? key with
        | none => simp
        | some i =>
          intro hi
          exact ⟨i, by simpa using hi, (elementIndex?_eq_some_iff.1 hindex).2.symm⟩

theorem nodup_shownKeys (o : Object) : o.shownKeys.Nodup := by
  cases hkind : o.kind with
  | ordinary => simp [shownKeys, hkind]
  | function f => simp [shownKeys, hkind]
  | array elements =>
    simp only [shownKeys, hkind, elementKeys]
    refine List.Nodup.append ?_ (List.nodup_singleton _) ?_
    · refine List.nodup_range.map fun i j hij => ?_
      rw [← ofDigitChars_toString i, hij, ofDigitChars_toString]
    · simpa using fun i _ => toString_ne_length i

theorem mem_keys : key ∈ o.properties.keys ↔ (o.property? key).isSome = true := by
  rw [Option.isSome_iff_exists, Table.keys, List.mem_map]
  constructor
  · rintro ⟨e, he, rfl⟩
    exact ⟨e.2, Table.lookup_of_mem o.properties.nodup he⟩
  · rintro ⟨p, hp⟩
    exact ⟨(key, p), Table.mem_of_lookup hp, rfl⟩

theorem mem_ownKeys (hfits : o.Fits) : key ∈ o.ownKeys ↔ o.hasOwn key = true := by
  rw [ownKeys, List.mem_append, mem_shownKeys hfits, mem_keys, hasOwn, own?]
  cases o.property? key <;> simp

def Shadows (o : Object) (key : String) : Prop :=
  (o.shown? key).isSome = true ∧ (o.property? key).isSome = true

theorem nodup_ownKeys_iff (hfits : o.Fits) : o.ownKeys.Nodup ↔ ∀ key, ¬ o.Shadows key := by
  rw [ownKeys, List.nodup_append']
  simp only [o.nodup_shownKeys, show o.properties.keys.Nodup from o.properties.nodup, true_and,
    List.disjoint_left, mem_shownKeys hfits, mem_keys, Shadows, not_and]

theorem enumerableKeys_sublist (o : Object) : o.enumerableKeys.Sublist o.ownKeys := by
  refine List.Sublist.append ?_ (List.filter_sublist.map _)
  cases hkind : o.kind <;> simp [elementKeys, shownKeys, hkind]

/-! ## The three stores -/

def withElements (o : Object) (elements : List Value) : Object := { o with kind := .array elements }

/-- The object with a created property, in the place of the one under the key if there was one. -/
def withProperty (o : Object) (key : String) (p : Property) : Object :=
  { o with properties := o.properties.insert key p }

theorem own?_of_property? (h : o.property? key = some p) : o.own? key = some p.value := by
  rw [own?, h]

theorem own?_of_none (h : o.property? key = none) : o.own? key = o.shown? key := by
  rw [own?, h]

theorem own?_congr (hproperty : o'.property? key = o.property? key)
    (hshown : o'.shown? key = o.shown? key) : o'.own? key = o.own? key := by
  rw [own?, own?, hproperty, hshown]

theorem own?_withElements (h : o.property? key = some p) :
    (o.withElements elements).own? key = some p.value :=
  own?_of_property? (o := o.withElements elements) h

theorem own?_withElements_of_none (h : o.property? key = none) :
    (o.withElements elements).own? key = (o.withElements elements).shown? key :=
  own?_of_none (o := o.withElements elements) h

theorem property?_withProperty (o : Object) (key : String) (p : Property) :
    (o.withProperty key p).property? key = some p := Table.find?_insert_self ..

theorem own?_withProperty (o : Object) (key : String) (p : Property) :
    (o.withProperty key p).own? key = some p.value :=
  own?_of_property? (property?_withProperty o key p)

theorem property?_withProperty_of_ne (o : Object) {key key' : String} (p : Property) (h : key ≠ key') :
    (o.withProperty key p).property? key' = o.property? key' := Table.find?_insert_ne _ _ h

/-! ## Edits -/

inductive Edit
  | set (key : String) (v : Value)
  | define (key : String) (p : Property)
  | delete (key : String)
  deriving DecidableEq

def Edit.target : Edit → String
  | set key _ | define key _ | delete key => key

def Edit.value? : Edit → Option Value
  | set _ v => some v
  | define _ p => some p.value
  | delete _ => none

def edit (o : Object) : Edit → Bool × Object
  | .set key v => o.set key v
  | .define key p => o.define key p
  | .delete key => o.delete key

def edited (o : Object) (edits : List Edit) : Object := edits.foldl (fun o e => (o.edit e).2) o

/-- What an edit answers and what it makes of an object: it is refused, it reaches an element, or it
reaches the created properties. An assignment reaches these for want of an index only. -/
inductive Effect (o : Object) : Edit → Bool × Object → Prop
  | refused (e : Edit) : Effect o e (false, o)
  | placed {elements : List Value} {i : Nat} (v : Value) (hkind : o.kind = .array elements)
      (hi : i < indexLimit) : Effect o (.set (toString i) v) (true, o.withElements (place elements i v))
  | written {e : Edit} {p : Property} (hvalue : e.value? = some p.value)
      (hset : ∀ key v, e = .set key v → o.index? key = none) :
      Effect o e (true, o.withProperty e.target p)
  | deleted {o' : Object} (key : String) (hkind : o'.kind = o.kind)
      (hself : o'.property? key = none)
      (hne : ∀ key', key ≠ key' → o'.property? key' = o.property? key') :
      Effect o (.delete key) (true, o')

theorem effect_edit (o : Object) (e : Edit) : Effect o e (o.edit e) := by
  cases e with
  | set key v =>
    rw [edit, set]
    split
    · next elements i h =>
      obtain ⟨hkind, hi, rfl⟩ := index?_eq_some_iff.1 h
      exact .placed v hkind hi
    · next hindex =>
      have hset : ∀ key' v', Edit.set key v = .set key' v' → o.index? key' = none := by
        rintro _ _ ⟨⟩
        exact hindex
      split
      · next p _ =>
        split
        · exact .written (e := .set key v) (p := { p with value := v }) rfl hset
        · exact .refused _
      · exact .written (e := .set key v) (p := { value := v }) rfl hset
  | define key p =>
    rw [edit, define]
    split
    · exact .written (e := .define key p) rfl (by rintro _ _ ⟨⟩)
    · exact .refused _
  | delete key =>
    rw [edit, delete]
    split
    · split
      · exact .deleted key rfl (Table.find?_erase_self _ _) fun _ h => Table.find?_erase_ne _ h
      · exact .refused _
    · next hnone => exact .deleted key rfl hnone fun _ _ => rfl

theorem Fits.edit (hfits : o.Fits) (e : Edit) : (o.edit e).2.Fits := by
  have heffect := effect_edit o e
  generalize o.edit e = answer at heffect ⊢
  cases heffect with
  | refused => exact hfits
  | placed v hkind hi =>
    rintro _ ⟨⟩
    rw [length_place]
    exact max_le (hfits _ hkind) hi
  | written => exact hfits
  | deleted _ hkind => exact fun elements h => hfits elements (hkind.symm.trans h)

theorem Fits.edited (hfits : o.Fits) (edits : List Edit) : (o.edited edits).Fits := by
  induction edits generalizing o with
  | nil => exact hfits
  | cons e edits ih => exact ih (hfits.edit e)

theorem edited_concat (o : Object) (edits : List Edit) (e : Edit) :
    o.edited (edits ++ [e]) = ((o.edited edits).edit e).2 := List.foldl_concat ..

/-! ## What an edit does to one key -/

theorem edit_placed (v : Value) (hkind : o.kind = .array elements) (hi : i < indexLimit) :
    o.edit (.set (toString i) v) = (true, o.withElements (place elements i v)) := by
  rw [edit, set, index?_eq_some_iff.2 ⟨hkind, hi, rfl⟩]
  rfl

/-- An assignment to an index beyond the end of an array also gives the array its new length, and
undefined elements up to that index. -/
inductive Grown (o : Object) : Edit → String → Value → Prop
  | length {elements : List Value} {i : Nat} {v : Value} (hkind : o.kind = .array elements)
      (hi : i < indexLimit) (hle : elements.length ≤ i) (hnone : o.property? "length" = none) :
      Grown o (.set (toString i) v) "length" (.number (Number.ofNat (i + 1)))
  | element {elements : List Value} {i j : Nat} {v : Value} (hkind : o.kind = .array elements)
      (hi : i < indexLimit) (hle : elements.length ≤ j) (hji : j < i)
      (hnone : o.property? (toString j) = none) :
      Grown o (.set (toString i) v) (toString j) .undefined

theorem own?_of_grown {e : Edit} (h : o.Grown e key v) : (o.edit e).2.own? key = some v := by
  cases h with
  | length hkind hi hle hnone =>
    rw [edit_placed _ hkind hi, own?_withElements_of_none hnone, shown?_length rfl, length_place,
      max_eq_right (hle.trans (Nat.le_succ _))]
  | element hkind hi hle hji hnone =>
    rw [edit_placed _ hkind hi, own?_withElements_of_none hnone, shown?_toString rfl (hji.trans hi),
      getElem?_place, if_neg hji.ne, if_neg hle.not_gt, if_pos hji]

theorem own?_edit_of_ne {e : Edit} (hkey : key ≠ e.target) (hgrown : ∀ v, ¬ o.Grown e key v) :
    (o.edit e).2.own? key = o.own? key := by
  have heffect := effect_edit o e
  generalize o.edit e = answer at heffect ⊢
  cases heffect with
  | refused => rfl
  | written =>
    exact own?_congr (property?_withProperty_of_ne o _ hkey.symm) (shown?_congr rfl key)
  | deleted _ hkind _ hne => exact own?_congr (hne key hkey.symm) (shown?_congr hkind key)
  | @placed elements i v hkind hi =>
    cases hproperty : o.property? key with
    | some p => rw [own?_withElements hproperty, own?_of_property? hproperty]
    | none =>
      rw [own?_withElements_of_none hproperty, own?_of_none hproperty]
      by_cases hlength : key = "length"
      · subst hlength
        have hlt : i < elements.length := not_le.1 fun hle => hgrown _ (.length hkind hi hle hproperty)
        rw [shown?_length rfl, shown?_length hkind, length_place, max_eq_left hlt]
      · rw [shown?_of_ne_length rfl hlength, shown?_of_ne_length hkind hlength]
        cases hindex : elementIndex? key with
        | none => rfl
        | some j =>
          obtain ⟨-, rfl⟩ := elementIndex?_eq_some_iff.1 hindex
          have hji : j ≠ i := fun h => hkey (congrArg toString h)
          rw [Option.bind_some, Option.bind_some, getElem?_place, if_neg hji]
          split_ifs with hlt hlt'
          · rfl
          · exact absurd (.element hkind hi (not_lt.1 hlt) hlt' hproperty) (hgrown _)
          · rw [List.getElem?_eq_none (not_lt.1 hlt)]

theorem own?_set_iff (h : (o.set key v).1 = true) : (o.set key v).2.own? key = some v ↔
    ∀ p, o.property? key = some p → (o.index? key).isSome = true → p.value = v := by
  have heffect : Effect o (.set key v) (o.set key v) := effect_edit o (.set key v)
  generalize o.set key v = answer at h heffect ⊢
  cases heffect with
  | refused => cases h
  | @placed elements i _ hkind hi =>
    rw [index?_eq_some_iff.2 ⟨hkind, hi, rfl⟩]
    cases hproperty : o.property? (toString i) with
    | some p =>
      rw [own?_withElements hproperty]
      simp
    | none =>
      rw [own?_withElements_of_none hproperty, shown?_toString rfl hi, getElem?_place, if_pos rfl]
      simp
  | written hvalue hset =>
    have hown : some _ = some v := hvalue.symm
    rw [show (Edit.set key v).target = key from rfl, own?_withProperty, hown]
    simp [hset key v rfl]

theorem own?_define (h : (o.define key p).1 = true) : (o.define key p).2.own? key = some p.value := by
  have heffect : Effect o (.define key p) (o.define key p) := effect_edit o (.define key p)
  generalize o.define key p = answer at h heffect ⊢
  cases heffect with
  | refused => cases h
  | written hvalue =>
    rw [show (Edit.define key p).target = key from rfl, own?_withProperty]
    exact hvalue.symm

theorem hasOwn_delete_iff (h : (o.delete key).1 = true) :
    (o.delete key).2.hasOwn key = false ↔ o.shown? key = none := by
  have heffect : Effect o (.delete key) (o.delete key) := effect_edit o (.delete key)
  generalize o.delete key = answer at h heffect ⊢
  cases heffect with
  | refused => cases h
  | written hvalue => cases hvalue
  | deleted _ hkind hself =>
    rw [hasOwn, own?_of_none hself, shown?_congr hkind, Option.isSome_eq_false_iff,
      Option.isNone_iff_eq_none]

theorem edit_refused {e : Edit} (h : (o.edit e).1 = false) : (o.edit e).2 = o := by
  have heffect := effect_edit o e
  generalize o.edit e = answer at h heffect ⊢
  cases heffect with
  | refused => rfl
  | placed | written | deleted => cases h

/-! ## Stores kept apart -/

def Apart (o : Object) : Prop := ∀ key, o.Reserved key → o.property? key = none

/-- An edit that would create a property under a key for which the kind keeps a store of its own. -/
def Strays (o : Object) : Edit → Prop
  | .set key _ => o.Reserved key ∧ o.index? key = none
  | .define key _ => o.Reserved key
  | .delete _ => False

structure Obeys (o : Object) : Prop where
  set : ∀ key v, (o.set key v).1 = true → (o.set key v).2.own? key = some v
  nodup : o.ownKeys.Nodup

theorem reserved_congr (h : o'.kind = o.kind) : o'.Reserved key ↔ o.Reserved key := by
  rw [Reserved, Reserved, shown?_congr h, index?, index?, elements?, elements?, h]

theorem reserved_iff_of_array (h : o.kind = .array elements) :
    o.Reserved key ↔ (elementIndex? key).isSome = true ∨ key = "length" := by
  have hindex : (o.index? key).isSome = (elementIndex? key).isSome := by
    simp [index?, elements?, h]
  rw [Reserved, hindex]
  by_cases hkey : key = "length"
  · subst hkey
    simp [shown?_length h]
  · rw [shown?_of_ne_length h hkey, Option.isSome_bind]
    cases elementIndex? key <;> simp [hkey]

theorem reserved_withElements (h : o.kind = .array elements) (elements' : List Value) :
    (o.withElements elements').Reserved key ↔ o.Reserved key :=
  (reserved_iff_of_array rfl).trans (reserved_iff_of_array h).symm

theorem apart_edit_iff (h : o.Apart) (e : Edit) :
    (o.edit e).2.Apart ↔ ((o.edit e).1 = true → ¬ o.Strays e) := by
  have heffect := effect_edit o e
  generalize o.edit e = answer at heffect ⊢
  cases heffect with
  | refused => exact iff_of_true h nofun
  | placed v hkind hi =>
    refine iff_of_true (fun key hkey => h key ((reserved_withElements hkind _).1 hkey)) ?_
    rintro - ⟨-, hindex⟩
    rw [index?_eq_some_iff.2 ⟨hkind, hi, rfl⟩] at hindex
    cases hindex
  | deleted key hkind hself hne =>
    refine iff_of_true (fun key' hkey' => ?_) (fun _ => id)
    by_cases hkey : key = key'
    · exact hkey ▸ hself
    · rw [hne key' hkey]
      exact h key' ((reserved_congr hkind).1 hkey')
  | written hvalue hset =>
    have hstrays : o.Strays e ↔ o.Reserved e.target := by
      cases e with
      | set key v => exact and_iff_left (hset key v rfl)
      | define key p => rfl
      | delete key => cases hvalue
    rw [hstrays]
    constructor
    · intro hapart _ hreserved
      have hnone := hapart e.target ((reserved_congr rfl).2 hreserved)
      rw [property?_withProperty] at hnone
      cases hnone
    · intro hclear key hkey
      have hreserved : o.Reserved key := (reserved_congr rfl).1 hkey
      have hne : e.target ≠ key := fun heq => hclear rfl (heq ▸ hreserved)
      rw [property?_withProperty_of_ne o _ hne]
      exact h key hreserved

theorem obeys_iff_apart (hfits : o.Fits) : o.Obeys ↔ o.Apart := by
  constructor
  · rintro ⟨hset, hnodup⟩ key hreserved
    refine Option.eq_none_iff_forall_ne_some.2 fun p hp => ?_
    cases hindex : o.index? key with
    | none =>
      have hshown := hreserved.resolve_left (by simp [hindex])
      exact (nodup_ownKeys_iff hfits).1 hnodup key ⟨hshown, by simp [hp]⟩
    | some place =>
      -- The element takes any value, so a property before it hides one of two.
      have hanswer : ∀ v, (o.set key v).1 = true := fun v => by rw [Object.set, hindex]
      have hvalue : ∀ v, p.value = v := fun v =>
        (own?_set_iff (hanswer v)).1 (hset key v (hanswer v)) p hp (by rw [hindex]; rfl)
      cases (hvalue .null).symm.trans (hvalue .undefined)
  · intro hapart
    refine ⟨fun key v h => (own?_set_iff h).2 fun p hp hindex => ?_,
      (nodup_ownKeys_iff hfits).2 fun key hshadows => ?_⟩
    · cases (hapart key (.inl hindex)).symm.trans hp
    · obtain ⟨hshown, hcreated⟩ := hshadows
      rw [hapart key (.inr hshown)] at hcreated
      cases hcreated

/-! ## The laws -/

structure Lawful (o : Object) : Prop where
  set : ∀ key v, (o.set key v).1 = true → ((o.set key v).2.own? key = some v ↔
    ∀ p, o.property? key = some p → (o.index? key).isSome = true → p.value = v)
  define : ∀ key p, (o.define key p).1 = true → (o.define key p).2.own? key = some p.value
  delete : ∀ key, (o.delete key).1 = true →
    ((o.delete key).2.hasOwn key = false ↔ o.shown? key = none)
  refused : ∀ e, (o.edit e).1 = false → (o.edit e).2 = o
  /-- Other keys are left alone, but for an array that grows. -/
  other : ∀ e key, key ≠ e.target → (∀ v, ¬ o.Grown e key v) → (o.edit e).2.own? key = o.own? key
  grown : ∀ e key v, o.Grown e key v → (o.edit e).2.own? key = some v
  listed : ∀ key, key ∈ o.ownKeys ↔ o.hasOwn key = true
  nodup : o.ownKeys.Nodup ↔ ∀ key, ¬ o.Shadows key
  enumerable : o.enumerableKeys.Sublist o.ownKeys
  length : ∀ elements, o.kind = .array elements →
    (o.own? "length" = some (.number (Number.ofNat elements.length)) ↔
      ∀ p, o.property? "length" = some p → p.value = .number (Number.ofNat elements.length))

theorem own?_length_iff (h : o.kind = .array elements) :
    o.own? "length" = some (.number (Number.ofNat elements.length)) ↔
      ∀ p, o.property? "length" = some p → p.value = .number (Number.ofNat elements.length) := by
  cases hproperty : o.property? "length" with
  | none => simp [own?_of_none hproperty, shown?_length h]
  | some p => simp [own?_of_property? hproperty]

theorem Fits.lawful (hfits : o.Fits) : o.Lawful where
  set _ _ := own?_set_iff
  define _ _ := own?_define
  delete _ := hasOwn_delete_iff
  refused _ := edit_refused
  other _ _ := own?_edit_of_ne
  grown _ _ _ := own?_of_grown
  listed _ := mem_ownKeys hfits
  nodup := nodup_ownKeys_iff hfits
  enumerable := enumerableKeys_sublist o
  length _ := own?_length_iff

theorem apart_edited {edits : List Edit} (h : o.Apart)
    (hstrays : ∀ past e, past ++ [e] <+: edits → ((o.edited past).edit e).1 = true →
      ¬ (o.edited past).Strays e) : ∀ past, past <+: edits → (o.edited past).Apart := by
  intro past
  induction past using List.reverseRecOn with
  | nil => exact fun _ => h
  | append_singleton past e ih =>
    intro hpast
    rw [edited_concat, apart_edit_iff (ih ((List.prefix_append past [e]).trans hpast))]
    exact hstrays past e hpast

/-- After any edits an object is lawful. If its stores were apart at first, it takes every value that
it accepts and lists no key twice all along exactly if no edit that it accepts strays. -/
theorem properties_lawful (hfits : o.Fits) (edits : List Edit) : (o.edited edits).Lawful ∧
    (o.Apart → ((∀ past, past <+: edits → (o.edited past).Obeys) ↔
      ∀ past e, past ++ [e] <+: edits → ((o.edited past).edit e).1 = true →
        ¬ (o.edited past).Strays e)) := by
  refine ⟨(hfits.edited edits).lawful, fun hapart => ⟨fun hobeys past e hpast => ?_,
    fun hstrays past hpast => ?_⟩⟩
  · have hbefore := (obeys_iff_apart (hfits.edited past)).1
      (hobeys past ((List.prefix_append past [e]).trans hpast))
    have hafter := (obeys_iff_apart (hfits.edited _)).1 (hobeys _ hpast)
    rw [edited_concat] at hafter
    exact (apart_edit_iff hbefore e).1 hafter
  · exact (obeys_iff_apart (hfits.edited past)).2 (apart_edited hapart hstrays past hpast)

def pair : Object := { kind := .array [.boolean true, .boolean false] }

theorem properties_lawful_pair : pair.Fits ∧ pair.Apart ∧
    (pair.delete "1").1 = true ∧ (pair.delete "1").2.hasOwn "1" = true ∧
    ¬ ∀ past, past <+: [.define "0" { value := .null }] → (pair.edited past).Obeys := by
  have hfits : pair.Fits := by
    rintro _ ⟨⟩
    decide
  have hzero : elementIndex? "0" = some 0 := elementIndex?_eq_some_iff.2 ⟨by decide, rfl⟩
  have hone : pair.shown? "1" ≠ none := by
    rw [show "1" = toString 1 from rfl, shown?_toString rfl (by decide)]
    decide
  refine ⟨hfits, fun _ _ => rfl, rfl, ?_, fun h => ?_⟩
  · have hdeleted := (properties_lawful hfits []).1.delete "1" rfl
    exact Bool.of_not_eq_false fun h => hone (hdeleted.1 h)
  · refine ((properties_lawful hfits _).2 fun _ _ => rfl).1 h [] _ List.prefix_rfl rfl (.inl ?_)
    change (pair.index? "0").isSome = true
    simp [index?, elements?, pair, hzero]

end Object

end CoercionTrace
