import CoercionTrace.Proofs.Monitor.Detection
import Mathlib.Data.Finset.Card
import Mathlib.Data.Finset.Range
import Mathlib.Data.Finset.SDiff

/-!
# Arrays as texts

An array is written out element by element, and so are the arrays in it. For the language an array that
is open already, at whatever distance, has no text there; the program knows an array only within
itself and writes out nine arrays one in another. Main statement: the two agree on all texts of an
array exactly if the arrays in it are met that way (`conversion_joins_iff`).
-/

namespace CoercionTrace

def listed : List (List Char) → List Char → List Char
  | [], rest => ',' :: ')' :: rest
  | t :: texts, rest => ',' :: (t ++ listed texts rest)

def bracketed (texts : List (List Char)) : List Char := '(' :: listed texts []

inductive Layered : List Char → Prop
  | nil : Layered []
  | bracket {texts : List (List Char)} (htexts : ∀ t ∈ texts, Layered t) : Layered (bracketed texts)

def Readable (t : List Char) : Prop :=
  ∀ t', Layered t' → ∀ rest rest', t ++ ',' :: rest = t' ++ ',' :: rest' → t = t' ∧ rest = rest'

section Brackets

variable {t rest rest' : List Char} {texts texts' : List (List Char)}

theorem listed_append (texts : List (List Char)) (rest rest' : List Char) :
    listed texts (rest ++ rest') = listed texts rest ++ rest' := by
  induction texts with
  | nil => rfl
  | cons t texts ih => simp [listed, ih]

theorem listed_eq_cons (texts : List (List Char)) (rest : List Char) :
    ∃ tail, listed texts rest = ',' :: tail := by
  cases texts <;> exact ⟨_, rfl⟩

theorem Layered.head (h : Layered t) : t = [] ∨ ∃ tail, t = '(' :: tail := by
  cases h with
  | nil => exact .inl rfl
  | bracket => exact .inr ⟨_, rfl⟩

theorem closing_ne (ht : Layered t) : ')' :: rest ≠ t ++ listed texts rest' := by
  obtain ⟨tail, htail⟩ := listed_eq_cons texts rest'
  rw [htail]
  rcases ht.head with rfl | ⟨tail', rfl⟩ <;> simp

theorem listed_injective (htexts : ∀ t ∈ texts, Readable t ∧ Layered t) (htexts' : ∀ t ∈ texts', Layered t)
    (h : listed texts rest = listed texts' rest') : texts = texts' ∧ rest = rest' := by
  induction texts generalizing texts' with
  | nil =>
    cases texts' with
    | nil => simpa [listed] using h
    | cons t' texts' =>
      exact absurd (List.cons.inj h).2 (closing_ne (htexts' t' List.mem_cons_self))
  | cons t texts ih =>
    obtain ⟨hread, hlayered⟩ := htexts t List.mem_cons_self
    cases texts' with
    | nil => exact absurd (List.cons.inj h).2.symm (closing_ne hlayered)
    | cons t' texts' =>
      obtain ⟨tail, htail⟩ := listed_eq_cons texts rest
      obtain ⟨tail', htail'⟩ := listed_eq_cons texts' rest'
      have h := (List.cons.inj h).2
      rw [htail, htail'] at h
      obtain ⟨rfl, rfl⟩ := hread t' (htexts' t' List.mem_cons_self) tail tail' h
      obtain ⟨rfl, rfl⟩ := ih (fun u hu => htexts u (List.mem_cons_of_mem _ hu))
        (fun u hu => htexts' u (List.mem_cons_of_mem _ hu)) (htail.trans htail'.symm)
      exact ⟨rfl, rfl⟩

theorem Layered.readable (h : Layered t) : Readable t := by
  induction h with
  | nil =>
    intro t' ht' rest rest' h
    rcases ht'.head with rfl | ⟨tail, rfl⟩ <;> simp_all
  | @bracket texts htexts ih =>
    intro t' ht' rest rest' h
    cases ht' with
    | nil => cases h
    | @bracket texts' htexts' =>
      simp only [bracketed, List.cons_append, ← listed_append, List.nil_append, List.cons.injEq,
        true_and] at h
      obtain ⟨rfl, hrest⟩ := listed_injective (fun t ht => ⟨ih t ht, htexts t ht⟩) htexts' h
      exact ⟨rfl, (List.cons.inj hrest).2⟩

theorem bracketed_injective (htexts : ∀ t ∈ texts, Layered t) (htexts' : ∀ t ∈ texts', Layered t)
    (h : bracketed texts = bracketed texts') : texts = texts' :=
  (listed_injective (fun t ht => ⟨(htexts t ht).readable, htexts t ht⟩) htexts' (List.cons.inj h).2).1

end Brackets

namespace Heap

variable {h h' : Heap} {id id' root : ObjectId} {path : List ObjectId} {elements : List Value} {n : Nat}

theorem lt_size_of_array (hkind : (h.object id).kind = .array elements) : id < h.size := by
  by_contra hle
  rw [object_of_size_le (not_lt.1 hle)] at hkind
  cases hkind

theorem card_closed_lt (hopen : id ∉ path) (hkind : (h.object id).kind = .array elements) :
    (Finset.range h.size \ (id :: path).toFinset).card < (Finset.range h.size \ path.toFinset).card := by
  refine Finset.card_lt_card ⟨fun i hi => by simp_all, fun hsub => ?_⟩
  have hid : id ∈ Finset.range h.size \ path.toFinset := by
    simpa [hopen] using lt_size_of_array hkind
  simpa using hsub hid

/-- The text of an object in the language, while the arrays of `path` are being written out. An array
that is among them has none. -/
def joined (h : Heap) (path : List ObjectId) (id : ObjectId) : String :=
  if _hopen : id ∈ path then ""
  else match _hkind : (h.object id).kind with
    | .ordinary => "[object Object]"
    | .function f => f.text
    | .array elements => joinElements (fun id' => joined h (id :: path) id') elements
termination_by (Finset.range h.size \ path.toFinset).card
decreasing_by exact card_closed_lt _hopen _hkind

theorem joined_of_mem (hopen : id ∈ path) : h.joined path id = "" := by
  rw [joined, dif_pos hopen]

theorem joined_array (hopen : id ∉ path) (hkind : (h.object id).kind = .array elements) :
    h.joined path id = joinElements (h.joined (id :: path)) elements := by
  rw [joined, dif_neg hopen]
  split <;> simp_all

theorem displayObject_array (hkind : (h.object id).kind = .array elements) :
    h.displayObject (n + 1) id =
      joinElements (fun id' => if id' = id then "" else h.displayObject n id') elements := by
  rw [displayObject, hkind]

theorem kind_of_isArray {o : Object} (harray : o.isArray = true) : ∃ elements, o.kind = .array elements := by
  cases hkind : o.kind with
  | array elements => exact ⟨elements, rfl⟩
  | ordinary | function f => simp [Object.isArray, Object.elements?, hkind] at harray

theorem isArray_of_kind {o : Object} (hkind : o.kind = .array elements) : o.isArray = true := by
  simp [Object.isArray, Object.elements?, hkind]

theorem displayObject_zero (harray : (h.object id).isArray = true) : h.displayObject 0 id = "" := by
  obtain ⟨elements, hkind⟩ := kind_of_isArray harray
  simp [displayObject, hkind]

theorem displayObject_of_not_array (harray : (h.object id).isArray = false) (hopen : id ∉ path)
    (n : Nat) : h.displayObject n id = h.joined path id := by
  rw [displayObject.eq_def, joined, dif_neg hopen]
  cases hkind : (h.object id).kind with
  | array elements =>
    rw [isArray_of_kind hkind] at harray
    cases harray
  | ordinary =>
    split
    simp_all
  | function f =>
    split
    simp_all

def inner (h : Heap) (id : ObjectId) : List ObjectId :=
  ((h.object id).elements?.getD []).filterMap fun v =>
    v.object?.filter fun id' => (h.object id').isArray

theorem mem_inner (hkind : (h.object id).kind = .array elements) :
    id' ∈ h.inner id ↔ .object id' ∈ elements ∧ (h.object id').isArray = true := by
  simp only [inner, Object.elements?, hkind, Option.getD_some, List.mem_filterMap,
    Option.filter_eq_some_iff]
  constructor
  · rintro ⟨v, hv, hobject, harray⟩
    cases v <;> cases hobject
    exact ⟨hv, harray⟩
  · rintro ⟨hv, harray⟩
    exact ⟨_, hv, rfl, harray⟩

inductive Nested (h : Heap) (root : ObjectId) : List ObjectId → Prop
  | root (harray : (h.object root).isArray = true) : Nested h root [root]
  | inner {id id' : ObjectId} {path : List ObjectId} (hpath : Nested h root (id :: path))
      (hinner : id' ∈ h.inner id) (hnew : id' ∉ id :: path) : Nested h root (id' :: id :: path)

/-- As far as arrays are written out, an array lies within itself only as its own element, and what
lies too deep to be written out is open. -/
structure Tame (h : Heap) (root : ObjectId) : Prop where
  shallow : ∀ {id path}, h.Nested root (id :: path) → path.length + 1 < displayDepth →
    ∀ id' ∈ h.inner id, id' ∉ path
  deep : ∀ {id path}, h.Nested root (id :: path) → path.length + 1 = displayDepth →
    ∀ id' ∈ h.inner id, id' ∈ id :: path

theorem isArray_of_mem_inner (hinner : id' ∈ h.inner id) : (h.object id').isArray = true := by
  obtain ⟨v, -, hv⟩ := List.mem_filterMap.1 hinner
  exact (Option.filter_eq_some_iff.1 hv).2

theorem Nested.isArray (hpath : h.Nested root path) : ∀ i ∈ path, (h.object i).isArray = true := by
  induction hpath with
  | root harray => simpa using harray
  | inner _ hinner _ ih => exact List.forall_mem_cons.2 ⟨isArray_of_mem_inner hinner, ih⟩

theorem Nested.nodup (hpath : h.Nested root path) : path.Nodup := by
  induction hpath with
  | root => exact List.nodup_singleton _
  | inner _ _ hnew ih => exact List.nodup_cons.2 ⟨hnew, ih⟩

theorem Tame.length_le (htame : h.Tame root) (hpath : h.Nested root path) :
    path.length ≤ displayDepth := by
  induction hpath with
  | root => exact (by decide : 1 ≤ displayDepth)
  | @inner id id' path hpath hinner hnew ih =>
    rcases Nat.lt_or_eq_of_le ih with hlt | heq
    · exact hlt
    · exact absurd (htame.deep hpath heq id' hinner) hnew

theorem joinElements_congr {f g : ObjectId → String} (hfg : ∀ i, .object i ∈ elements → f i = g i) :
    joinElements f elements = joinElements g elements := by
  rw [joinElements, joinElements]
  refine congrArg _ (List.map_congr_left fun v hv => ?_)
  cases v with
  | object i => exact hfg i hv
  | _ => rfl

theorem Tame.displayObject_eq (htame : h.Tame root) (n : Nat) (id : ObjectId) (path : List ObjectId)
    (hpath : h.Nested root (id :: path)) (hn : n + path.length = displayDepth) :
    h.displayObject n id = h.joined path id := by
  -- The depth that is left and the open arrays make up the limit, so it is not used up here.
  induction n generalizing id path with
  | zero =>
    have hlength := htame.length_le hpath
    rw [List.length_cons] at hlength
    omega
  | succ n ih =>
    obtain ⟨elements, hkind⟩ := kind_of_isArray (hpath.isArray id List.mem_cons_self)
    have hopen := (List.nodup_cons.1 hpath.nodup).1
    rw [displayObject_array hkind, joined_array hopen hkind]
    refine joinElements_congr fun id' hid' => ?_
    by_cases harray : (h.object id').isArray = true
    · have hinner : id' ∈ h.inner id := (mem_inner hkind).2 ⟨hid', harray⟩
      by_cases hself : id' = id
      · rw [if_pos hself, joined_of_mem (hself ▸ List.mem_cons_self)]
      rw [if_neg hself]
      rcases Nat.lt_or_eq_of_le (show path.length + 1 ≤ displayDepth by omega) with hlt | heq
      · have hnew : id' ∉ id :: path :=
          List.not_mem_cons_of_ne_of_not_mem hself (htame.shallow hpath hlt id' hinner)
        exact ih id' (id :: path) (.inner hpath hinner hnew) (by rw [List.length_cons]; omega)
      · -- The ninth array: the program stops, and for the language the array is open.
        obtain rfl : n = 0 := by omega
        rw [joined_of_mem (htame.deep hpath heq id' hinner), displayObject_zero harray]
    · have hself : id' ≠ id := fun he => harray (he ▸ hpath.isArray id List.mem_cons_self)
      rw [if_neg hself]
      exact displayObject_of_not_array (Bool.eq_false_iff.2 harray)
        (fun hmem => harray (hpath.isArray id' hmem)) n

/-- Two heaps with the same arrays in the same order in each array, whatever else is in them. -/
def SameArrays (h h' : Heap) : Prop :=
  ∀ id, (h'.object id).isArray = (h.object id).isArray ∧ h'.inner id = h.inner id

def Bracketed (h : Heap) : Prop := ∀ id elements, (h.object id).kind = .array elements →
  elements = .text "(" :: (h.inner id).map .object ++ [.text ")"]

theorem toList_intercalate_cons (t : String) {texts : List String} (h : texts ≠ []) :
    (String.intercalate "," (t :: texts)).toList =
      t.toList ++ ',' :: (String.intercalate "," texts).toList := by
  obtain ⟨u, texts, rfl⟩ := List.exists_cons_of_ne_nil h
  rw [String.intercalate_cons_cons, String.toList_append, String.toList_append, List.append_assoc]
  rfl

theorem toList_intercalate_listed (texts : List String) :
    ',' :: (String.intercalate "," (texts ++ [")"])).toList = listed (texts.map String.toList) [] := by
  induction texts with
  | nil => rfl
  | cons t texts ih =>
    rw [List.cons_append, toList_intercalate_cons t (by simp), ih]
    rfl

theorem toList_joinElements (f : ObjectId → String) (ids : List ObjectId) :
    (joinElements f (.text "(" :: ids.map .object ++ [.text ")"])).toList =
      bracketed (ids.map fun i => (f i).toList) := by
  have htexts : (Value.text "(" :: ids.map .object ++ [Value.text ")"]).map (elementText f) =
      "(" :: (ids.map f ++ [")"]) := by
    simp [elementText, Value.primitiveText]
  rw [joinElements, htexts, toList_intercalate_cons _ (by simp), toList_intercalate_listed, List.map_map]
  rfl

variable {f g : ObjectId → String}

theorem Bracketed.displayObject (hb : h.Bracketed) (harray : (h.object id).isArray = true) (n : Nat) :
    (h.displayObject (n + 1) id).toList = bracketed ((h.inner id).map fun i =>
      (if i = id then "" else h.displayObject n i).toList) := by
  obtain ⟨elements, hkind⟩ := kind_of_isArray harray
  rw [displayObject_array hkind, hb id elements hkind, toList_joinElements]

theorem Bracketed.joined (hb : h.Bracketed) (harray : (h.object id).isArray = true) (hopen : id ∉ path) :
    (h.joined path id).toList = bracketed ((h.inner id).map fun i =>
      (h.joined (id :: path) i).toList) := by
  obtain ⟨elements, hkind⟩ := kind_of_isArray harray
  rw [joined_array hopen hkind, hb id elements hkind, toList_joinElements]

theorem Bracketed.layered_displayObject (hb : h.Bracketed) (harray : (h.object id).isArray = true)
    (n : Nat) : Layered (h.displayObject n id).toList := by
  induction n generalizing id with
  | zero =>
    rw [displayObject_zero harray]
    exact .nil
  | succ n ih =>
    rw [hb.displayObject harray]
    refine .bracket fun t ht => ?_
    obtain ⟨i, hi, rfl⟩ := List.mem_map.1 ht
    split
    · exact .nil
    · exact ih (isArray_of_mem_inner hi)

theorem Bracketed.layered_joined (hb : h.Bracketed) (path : List ObjectId) (id : ObjectId)
    (harray : (h.object id).isArray = true) : Layered (h.joined path id).toList := by
  by_cases hopen : id ∈ path
  · rw [joined_of_mem hopen]
    exact .nil
  · obtain ⟨elements, hkind⟩ := kind_of_isArray harray
    rw [hb.joined harray hopen]
    refine .bracket fun t ht => ?_
    obtain ⟨i, hi, rfl⟩ := List.mem_map.1 ht
    exact layered_joined hb (id :: path) i (isArray_of_mem_inner hi)
termination_by (Finset.range h.size \ path.toFinset).card
decreasing_by exact card_closed_lt hopen hkind

theorem Bracketed.inner_eq (hb : h.Bracketed) (harray : (h.object id).isArray = true) (hopen : id ∉ path)
    (heq : h.displayObject (n + 1) id = h.joined path id) (hinner : id' ∈ h.inner id) :
    (if id' = id then "" else h.displayObject n id') = h.joined (id :: path) id' := by
  have hlists := congrArg String.toList heq
  rw [hb.displayObject harray, hb.joined harray hopen] at hlists
  have htexts := bracketed_injective ?_ ?_ hlists
  · exact String.toList_inj.1 (List.map_inj_left.1 htexts id' hinner)
  · intro t ht
    obtain ⟨i, hi, rfl⟩ := List.mem_map.1 ht
    split
    · exact .nil
    · exact hb.layered_displayObject (isArray_of_mem_inner hi) n
  · intro t ht
    obtain ⟨i, hi, rfl⟩ := List.mem_map.1 ht
    exact hb.layered_joined _ i (isArray_of_mem_inner hi)

theorem Bracketed.nested_eq (hb : h.Bracketed)
    (heq : h.displayObject displayDepth root = h.joined [] root) (hpath : h.Nested root (id :: path))
    (hn : n + path.length = displayDepth) (hpositive : 0 < n) :
    h.displayObject n id = h.joined path id := by
  -- From the outermost array inwards: the texts of an array tell those of the arrays in it.
  generalize hwhole : id :: path = whole at hpath
  induction hpath generalizing id path n with
  | root =>
    cases hwhole
    rwa [show n = displayDepth from hn]
  | @inner i j rest hrest hinner hnew ih =>
    cases hwhole
    rw [List.length_cons] at hn
    have houter : h.displayObject (n + 1) i = h.joined rest i := ih (by omega) (Nat.succ_pos n) rfl
    have hself : j ≠ i := fun he => hnew (he ▸ List.mem_cons_self)
    have hsame := hb.inner_eq (hrest.isArray i List.mem_cons_self) (List.nodup_cons.1 hrest.nodup).1
      houter hinner
    rwa [if_neg hself] at hsame

theorem bracketed_ne_nil (texts : List (List Char)) : bracketed texts ≠ [] := List.cons_ne_nil _ _

theorem Bracketed.tame (hb : h.Bracketed)
    (heq : h.displayObject displayDepth root = h.joined [] root) : h.Tame root := by
  constructor
  · intro id path hpath hlength id' hinner hmem
    have hself : id' ≠ id := fun he => (List.nodup_cons.1 hpath.nodup).1 (he ▸ hmem)
    obtain ⟨n, hn⟩ : ∃ n, n + 2 + path.length = displayDepth := ⟨displayDepth - path.length - 2, by omega⟩
    have hsame := hb.inner_eq (hpath.isArray id List.mem_cons_self) (List.nodup_cons.1 hpath.nodup).1
      (hb.nested_eq heq hpath hn (Nat.succ_pos _)) hinner
    rw [if_neg hself, joined_of_mem (List.mem_cons_of_mem _ hmem)] at hsame
    have hlist := hb.displayObject (isArray_of_mem_inner hinner) n
    rw [hsame] at hlist
    exact bracketed_ne_nil _ hlist.symm
  · intro id path hpath hlength id' hinner
    by_contra hnew
    have hself : id' ≠ id := fun he => hnew (he ▸ List.mem_cons_self)
    have hsame := hb.inner_eq (hpath.isArray id List.mem_cons_self) (List.nodup_cons.1 hpath.nodup).1
      (hb.nested_eq (n := 1) heq hpath (by omega) Nat.one_pos) hinner
    rw [if_neg hself, displayObject_zero (isArray_of_mem_inner hinner)] at hsame
    have hlist := hb.joined (isArray_of_mem_inner hinner) hnew
    rw [← hsame] at hlist
    exact bracketed_ne_nil _ hlist.symm

def markedObject (h : Heap) (id : ObjectId) (o : Object) : Object :=
  match o.kind with
  | .array _ => { o with kind := .array (.text "(" :: (h.inner id).map .object ++ [.text ")"]) }
  | _ => o

def marked (h : Heap) : Heap := ⟨h.objects.mapIdx h.markedObject⟩

theorem object_marked (h : Heap) (id : ObjectId) : h.marked.object id = h.markedObject id (h.object id) := by
  rw [object, object, marked, Array.getElem?_mapIdx]
  cases h.objects[id]? <;> rfl

theorem isArray_marked (h : Heap) (id : ObjectId) :
    (h.marked.object id).isArray = (h.object id).isArray := by
  rw [object_marked, markedObject]
  split <;> simp_all [Object.isArray, Object.elements?]

theorem filterMap_marked (ids : List ObjectId) (hids : ∀ i ∈ ids, (h.object i).isArray = true) :
    (Value.text "(" :: ids.map .object ++ [Value.text ")"]).filterMap (fun v =>
      v.object?.filter fun i => (h.marked.object i).isArray) = ids := by
  simp only [isArray_marked, Value.object?, List.cons_append, List.filterMap_cons, Option.filter_none,
    List.filterMap_append, List.filterMap_map, List.filterMap_nil, List.append_nil]
  exact (List.filterMap_congr fun i hi => by simp [hids i hi]).trans List.filterMap_some

theorem inner_marked (h : Heap) (id : ObjectId) : h.marked.inner id = h.inner id := by
  cases harray : (h.object id).isArray with
  | false =>
    have hnone : ∀ {g : Heap}, (g.object id).isArray = false → g.inner id = [] := by
      intro g hg
      rw [inner, Option.isNone_iff_eq_none.1 (Option.isSome_eq_false_iff.1 hg)]
      rfl
    rw [hnone harray, hnone ((isArray_marked h id).trans harray)]
  | true =>
    obtain ⟨elements, hkind⟩ := kind_of_isArray harray
    have helements : (h.marked.object id).elements? =
        some (.text "(" :: (h.inner id).map .object ++ [.text ")"]) := by
      rw [object_marked, markedObject, hkind]
      rfl
    rw [inner, helements]
    exact filterMap_marked _ fun i hi => isArray_of_mem_inner hi

theorem sameArrays_marked (h : Heap) : h.SameArrays h.marked := fun id =>
  ⟨isArray_marked h id, inner_marked h id⟩

theorem bracketed_marked (h : Heap) : h.marked.Bracketed := by
  intro id elements hkind
  rw [inner_marked]
  rw [object_marked, markedObject] at hkind
  split at hkind
  · exact (ObjectKind.array.inj hkind).symm
  · simp_all

theorem SameArrays.refl (h : Heap) : h.SameArrays h := fun _ => ⟨rfl, rfl⟩

theorem SameArrays.symm (hsame : h.SameArrays h') : h'.SameArrays h := fun id =>
  ⟨(hsame id).1.symm, (hsame id).2.symm⟩

theorem SameArrays.nested (hsame : h.SameArrays h') (hpath : h.Nested root path) :
    h'.Nested root path := by
  induction hpath with
  | root harray => exact .root ((hsame _).1.trans harray)
  | inner _ hinner hnew ih => exact .inner ih ((hsame _).2 ▸ hinner) hnew

theorem SameArrays.tame (hsame : h.SameArrays h') (htame : h.Tame root) : h'.Tame root where
  shallow hpath hlength id' hinner :=
    htame.shallow (hsame.symm.nested hpath) hlength id' ((hsame _).2 ▸ hinner)
  deep hpath hlength id' hinner :=
    htame.deep (hsame.symm.nested hpath) hlength id' ((hsame _).2 ▸ hinner)

theorem display_eq_joined_iff (harray : (h.object root).isArray = true) :
    (∀ h', h.SameArrays h' → h'.display (.object root) = h'.joined [] root) ↔ h.Tame root := by
  constructor
  · intro heq
    have hmarked := (bracketed_marked h).tame (heq _ (sameArrays_marked h))
    exact (sameArrays_marked h).symm.tame hmarked
  · intro htame h' hsame
    exact (hsame.tame htame).displayObject_eq displayDepth root [] (.root ((hsame root).1.trans harray)) rfl

end Heap

variable {σ : Type}

theorem toText_yields_display (call : Call σ) {w : World σ} {id : ObjectId}
    (harray : (w.heap.object id).isArray = true) :
    Yields (HostM.toText call (.object id)) w (w.heap.display (.object id)) w :=
  Yields.bind_iff.2 ⟨_, w, toPrimitive_yields_text call fun h => by simp [harray] at h,
    Yields.pure_iff.2 ⟨rfl, rfl⟩⟩

/-- The conversion of an array to a text ends, runs no code of the program and changes nothing. Its
answer is the language's if the array is tame; if it is not, its answer is another one once other things
are put between the same arrays. -/
theorem conversion_joins_iff (call : Call σ) (w : World σ) (id : ObjectId)
    (harray : (w.heap.object id).isArray = true) :
    Yields (HostM.toText call (.object id)) w (w.heap.display (.object id)) w ∧
      (w.heap.Tame id → w.heap.display (.object id) = w.heap.joined [] id) ∧
      ((∀ h', w.heap.SameArrays h' → h'.display (.object id) = h'.joined [] id) ↔ w.heap.Tame id) :=
  ⟨toText_yields_display call harray,
    fun htame => (Heap.display_eq_joined_iff harray).2 htame _ (.refl _),
    Heap.display_eq_joined_iff harray⟩

def crossed : World Unit where
  heap := ⟨#[{ kind := .array [.text "a", .object 1] }, { kind := .array [.text "b", .object 0] }]⟩
  realms := #[]
  program := ()

theorem conversion_joins_iff_crossed :
    (crossed.heap.object 0).isArray = true ∧
      Yields (HostM.toText (fun _ _ _ => throw .callDepth) (.object 0)) crossed "a,b,a,b,a,b,a,b,a,"
        crossed ∧
      crossed.heap.joined [] 0 = "a,b," ∧
      ¬ ∀ h', crossed.heap.SameArrays h' → h'.display (.object 0) = h'.joined [] 0 := by
  obtain ⟨htext, -, hiff⟩ := conversion_joins_iff (fun _ _ _ => throw .callDepth) crossed 0 rfl
  refine ⟨rfl, ?_, ?_, fun h => ?_⟩
  · rwa [show crossed.heap.display (.object 0) = "a,b,a,b,a,b,a,b,a," by decide +kernel] at htext
  · have hinner : crossed.heap.joined [0] 1 = "b," := by
      rw [Heap.joined_array (by decide) rfl]
      simp [Heap.joinElements, Heap.elementText, Value.primitiveText, Heap.joined_of_mem]
    rw [Heap.joined_array (by decide) rfl]
    simp [Heap.joinElements, Heap.elementText, Value.primitiveText, hinner]
  · have hnested : crossed.heap.Nested 0 [1, 0] := .inner (.root rfl) (by decide) (by decide)
    exact (hiff.1 h).shallow hnested (by decide) 0 (by decide) (by decide)

end CoercionTrace
