import CoercionTrace.Proofs.Monitor.Marks
import CoercionTrace.Proofs.Monitor.Masks

/-!
# Marks that do not show

What a monitor does of its own changes nothing in the heap but marks, and no mark is ever listed.
Main statement: whatever is asked of a monitor that runs no program code, the program finds every
object as it was, by every question that it has (`marks_invisible`).
-/

namespace CoercionTrace

namespace Table

variable {κ α : Type} [DecidableEq κ]

theorem filter_put (k : κ) (v : α) (l : List (κ × α)) :
    (put k v l).filter (fun e => e.1 != k) = l.filter fun e => e.1 != k := by
  induction l with
  | nil => simp [put]
  | cons e rest ih =>
    by_cases h : e.1 = k
    · simp [put, h]
    · simp [put, h, ih]

theorem lookup_filter_ne {k k' : κ} (h : k ≠ k') (l : List (κ × α)) :
    lookup k (l.filter fun e => e.1 != k') = lookup k l := by
  induction l with
  | nil => rfl
  | cons e rest ih =>
    by_cases he : e.1 = k'
    · have hk : e.1 ≠ k := fun hk => h (hk.symm.trans he)
      simp [lookup, he, Ne.symm h, ih]
    · simp [lookup, he, ih]

end Table

namespace Object

variable {o o' o'' : Object} {key : String}

def unmarked (o : Object) : List (String × Property) :=
  o.properties.entries.filter fun e => e.1 != traceIdProperty

structure Alike (o o' : Object) : Prop where
  kind : o'.kind = o.kind
  parent : o'.parent = o.parent
  unmarked : o'.unmarked = o.unmarked

def Veiled (o : Object) : Prop :=
  ∀ p, o.property? traceIdProperty = some p → p.enumerable = false

instance : IsPreorder Object Alike where
  refl _ := ⟨rfl, rfl, rfl⟩
  trans _ _ _ h h' := ⟨h'.kind.trans h.kind, h'.parent.trans h.parent, h'.unmarked.trans h.unmarked⟩

theorem Alike.property? (h : Alike o o') (hkey : key ≠ traceIdProperty) :
    o'.property? key = o.property? key := by
  have hfilter : ∀ o : Object, o.property? key = Table.lookup key o.unmarked := fun o =>
    (Table.lookup_filter_ne hkey o.properties.entries).symm
  rw [hfilter, hfilter, h.unmarked]

theorem Alike.own? (h : Alike o o') (hkey : key ≠ traceIdProperty) : o'.own? key = o.own? key := by
  rw [Object.own?, Object.own?, h.property? hkey, shown?, shown?, h.kind]

theorem Alike.hasOwn (h : Alike o o') (hkey : key ≠ traceIdProperty) :
    o'.hasOwn key = o.hasOwn key := by
  rw [Object.hasOwn, Object.hasOwn, h.own? hkey]

theorem elementKeys_congr (h : o'.kind = o.kind) : o'.elementKeys = o.elementKeys := by
  rw [elementKeys, elementKeys, h]

theorem shownKeys_congr (h : o'.kind = o.kind) : o'.shownKeys = o.shownKeys := by
  rw [shownKeys, shownKeys, elementKeys_congr h, h]

theorem Alike.keys (h : Alike o o') :
    (o'.properties.keys.filter fun key => key != traceIdProperty) =
      o.properties.keys.filter fun key => key != traceIdProperty := by
  have hkeys : ∀ o : Object, (o.properties.keys.filter fun key => key != traceIdProperty) =
      o.unmarked.map Prod.fst := fun o => List.filter_map
  rw [hkeys, hkeys, h.unmarked]

theorem Alike.ownKeys (h : Alike o o') : (o'.ownKeys.filter fun key => key != traceIdProperty) =
    o.ownKeys.filter fun key => key != traceIdProperty := by
  rw [Object.ownKeys, Object.ownKeys, List.filter_append, List.filter_append, h.keys,
    shownKeys_congr h.kind]

theorem enumerableKeys_of_veiled (h : o.Veiled) : o.enumerableKeys =
    o.elementKeys ++ (o.unmarked.filter fun e => e.2.enumerable).map Prod.fst := by
  rw [enumerableKeys, unmarked, List.filter_filter]
  congr 2
  refine List.filter_congr fun e he => ?_
  by_cases hkey : e.1 = traceIdProperty
  · have hp := Table.lookup_of_mem o.properties.nodup he
    rw [hkey] at hp
    simp [hkey, h e.2 hp]
  · simp [hkey]

theorem Alike.enumerableKeys (h : Alike o o') (hveiled : o.Veiled) (hveiled' : o'.Veiled) :
    o'.enumerableKeys = o.enumerableKeys := by
  rw [enumerableKeys_of_veiled hveiled, enumerableKeys_of_veiled hveiled', h.unmarked,
    elementKeys_congr h.kind]

theorem alike_define (o : Object) (id : TraceId) :
    Alike o (o.define traceIdProperty (traceMark id)).2 := by
  unfold define
  split
  · exact ⟨rfl, rfl, Table.filter_put _ _ _⟩
  · exact refl_of Alike o

theorem Veiled.define (h : o.Veiled) (id : TraceId) :
    (o.define traceIdProperty (traceMark id)).2.Veiled := by
  unfold Object.define
  split
  · intro p hp
    rw [Object.property?, Table.find?_insert_self] at hp
    cases hp
    rfl
  · exact h

theorem toString_ne {c : Char} (hmem : c ∈ key.toList) (hc : c.isDigit = false) (i : Nat) :
    toString i ≠ key := by
  rintro rfl
  have hdigits : (toString i).toList = Nat.toDigits 10 i := by simp [toString, Nat.toList_repr]
  rw [hdigits] at hmem
  rw [Nat.isDigit_of_mem_toDigits (by decide) (by decide) hmem] at hc
  cases hc

theorem toString_ne_traceIdProperty : ∀ i : Nat, toString i ≠ traceIdProperty :=
  toString_ne (c := '_') (by decide) (by decide)

theorem shown?_traceIdProperty (o : Object) : o.shown? traceIdProperty = none := by
  have hindex : elementIndex? traceIdProperty = none := by
    unfold elementIndex?
    exact if_neg fun h => toString_ne_traceIdProperty _ h.2
  unfold shown?
  split
  · rfl
  · rw [if_neg (by decide), hindex]
    rfl
  · rw [if_neg (by decide), if_neg (by decide)]

theorem notMem_shownKeys (o : Object) : traceIdProperty ∉ o.shownKeys := by
  have helements : traceIdProperty ∉ o.elementKeys := by
    unfold elementKeys
    split
    · intro h
      obtain ⟨i, -, hi⟩ := List.mem_map.1 h
      exact toString_ne_traceIdProperty i hi
    · exact List.not_mem_nil
  unfold shownKeys
  split
  · exact List.not_mem_nil
  · rw [List.mem_append, not_or]
    exact ⟨helements, by decide⟩
  · decide

theorem notMem_keys (h : o.property? traceIdProperty = none) :
    traceIdProperty ∉ o.properties.keys := by
  intro hmem
  obtain ⟨e, he, hkey⟩ := List.mem_map.1 hmem
  have hp := Table.lookup_of_mem o.properties.nodup he
  rw [hkey] at hp
  exact Option.some_ne_none _ (hp.symm.trans h)

theorem unshown_of_unmarked (h : o.property? traceIdProperty = none) (R : Reflection) :
    R.hasOwn o traceIdProperty = false ∧ traceIdProperty ∉ R.ownNames o := by
  induction R with
  | native =>
    constructor
    · rw [Reflection.hasOwn, Object.hasOwn, Object.own?, h, shown?_traceIdProperty]
      rfl
    · rw [Reflection.ownNames, ownKeys, List.mem_append, not_or]
      exact ⟨notMem_shownKeys o, notMem_keys h⟩
  | masked R => simp [Reflection.hasOwn, Reflection.ownNames]

theorem masked_of_unmarked (h : o.property? traceIdProperty = none) (R : Reflection) :
    (∀ key, R.masked.hasOwn o key = R.hasOwn o key) ∧ R.masked.ownNames o = R.ownNames o := by
  obtain ⟨hown, hnames⟩ := unshown_of_unmarked h R
  constructor
  · intro key
    by_cases hkey : key = traceIdProperty
    · rw [hkey, hown, (unshown_of_unmarked h R.masked).1]
    · simp [Reflection.hasOwn, hkey]
  · rw [Reflection.ownNames, List.filter_eq_self]
    intro key hkey
    rw [bne_iff_ne]
    rintro rfl
    exact hnames hkey

end Object

namespace Heap

variable {h h' h'' : Heap} {key : String}

structure Alike (h h' : Heap) : Prop where
  size : h'.size = h.size
  object : ∀ id, (h.object id).Alike (h'.object id)
  veiled : ∀ id, (h.object id).Veiled → (h'.object id).Veiled

instance : IsPreorder Heap Alike where
  refl _ := ⟨rfl, fun _ => refl_of Object.Alike _, fun _ h => h⟩
  trans _ _ _ h h' := ⟨h'.size.trans h.size,
    fun id => trans_of Object.Alike (h.object id) (h'.object id),
    fun id hv => h'.veiled id (h.veiled id hv)⟩

theorem alike_put {id : ObjectId} {o : Object} (halike : (h.object id).Alike o)
    (hveiled : (h.object id).Veiled → o.Veiled) : Alike h (h.put id o) := by
  rcases Nat.lt_or_ge id h.size with hid | hid
  · have hself := object_put_self h o hid
    refine ⟨Array.size_setIfInBounds, fun id' => ?_, fun id' hv => ?_⟩
    · by_cases he : id = id'
      · rw [← he, hself]
        exact halike
      · rw [object_put_ne h o he]
        exact refl_of Object.Alike _
    · by_cases he : id = id'
      · subst he
        rw [hself]
        exact hveiled hv
      · rwa [object_put_ne h o he]
  · have hput : h.put id o = h := congrArg Heap.mk (Array.setIfInBounds_eq_of_size_le hid)
    rw [hput]
    exact refl_of Alike h

theorem alike_identify (h : Heap) (global : ObjectId) (next : TraceId) (id : ObjectId) :
    Alike h (h.identify global next id).2.2 := by
  unfold identify
  split
  · exact refl_of Alike h
  · split
    · exact refl_of Alike h
    · exact alike_put (Object.alike_define _ next) fun hv => hv.define next

theorem Alike.findWithin (hh : Alike h h') (hkey : key ≠ traceIdProperty) (n : Nat)
    (id : ObjectId) : h'.findWithin key n id = h.findWithin key n id := by
  induction n generalizing id with
  | zero => exact (hh.object id).own? hkey
  | succ n ih =>
    rw [Heap.findWithin, Heap.findWithin, (hh.object id).own? hkey, (hh.object id).parent, funext ih]

theorem Alike.has (hh : Alike h h') (hkey : key ≠ traceIdProperty) (id : ObjectId) :
    h'.has id key = h.has id key := by
  rw [Heap.has, Heap.has, find?, find?, hh.size, hh.findWithin hkey]

end Heap

variable {σ : Type} {m : MonitorId}

namespace World

variable {w u u' : World σ}

/-- The heap has changed in its marks only, and the realms and the monitor hide them as before. -/
structure Unseen (m : MonitorId) (w w' : World σ) : Prop where
  heap : w.heap.Alike w'.heap
  realms : w'.realms = w.realms
  mask : (w'.monitor m).mask = (w.monitor m).mask
  tornDown : (w'.monitor m).tornDown = (w.monitor m).tornDown

instance : IsPreorder (World σ) (Unseen m) where
  refl _ := ⟨refl_of Heap.Alike _, rfl, rfl, rfl⟩
  trans _ _ _ h h' := ⟨trans_of Heap.Alike h.heap h'.heap, h'.realms.trans h.realms,
    h'.mask.trans h.mask, h'.tornDown.trans h.tornDown⟩

theorem unseen_onTracer (w : World σ) (f : Tracer → Tracer) : Unseen m w (w.onTracer m f) := by
  refine ⟨refl_of Heap.Alike _, rfl, ?_, tornDown_onTracer w m f⟩
  rw [onTracer, monitor_onMonitor]
  split <;> rfl

theorem unseen_identify (w : World σ) (id : ObjectId) : Unseen m w (w.identify m id).2 := by
  have hheap : Unseen m w { w with heap := (w.heap.identify (w.globalOf m) (w.nextId m) id).2.2 } :=
    ⟨Heap.alike_identify _ _ _ id, rfl, rfl, rfl⟩
  exact trans_of (Unseen m) hheap (unseen_onTracer _ fun t => { t with
    nextId := (w.heap.identify (w.globalOf m) (w.nextId m) id).2.1 })

theorem handles_unseen : Handles m (Unseen (σ := σ) m) where
  reported _ _ _ _ := ⟨refl_of Heap.Alike _, rfl, rfl, rfl⟩
  identify := unseen_identify
  calling w f arguments := by
    unfold calling
    split
    · exact unseen_onTracer w _
    · exact trans_of (Unseen m) (unseen_onTracer w _) (unseen_onTracer _ _)
  called w := unseen_onTracer w _

/-- No object and no realm is touched, and nothing about the monitor that bears on its mask. -/
structure Untouched (m : MonitorId) (w w' : World σ) : Prop where
  heap : w'.heap = w.heap
  realms : w'.realms = w.realms
  mask : (w'.monitor m).mask = (w.monitor m).mask
  tornDown : (w'.monitor m).tornDown = (w.monitor m).tornDown

theorem Untouched.unseen (h : Untouched m w u) : Unseen m w u :=
  ⟨h.heap ▸ refl_of Heap.Alike _, h.realms, h.mask, h.tornDown⟩

end World

namespace Monitor

open World (Unseen unseen_onTracer)

theorem traced_unseen {α : Type} (step : TraceM α) (w : World σ) :
    Leads (Unseen m) (traced m step) w := by
  refine Leads.get_bind (Leads.bind (.modify (unseen_onTracer w _)) fun _ _ _ => ?_)
  split
  · exact .pure _
  · exact .throw _

theorem run_searchCheck (call : Call σ) {key : Value} (hkey : key.isObject = false) (target : Value)
    (w : World σ) : (searchCheck call m key target).run w =
      (if (w.monitor m).tornDown then .error .tornDown
        else match target with
          | .object id => .ok (key.primitiveText != traceIdProperty &&
              w.heap.has id key.primitiveText)
          | _ => .error (.type (.searchInPrimitive key.primitiveText target.primitiveText)), w) := by
  have htext : (HostM.toText call key).run w = (.ok key.primitiveText, w) := by
    cases key with
    | object => cases hkey
    | _ => rfl
  have hdisplay : w.heap.display key = key.primitiveText := by
    cases key with
    | object => cases hkey
    | _ => rfl
  rw [searchCheck, run_ensureLive]
  split
  · rfl
  · cases target with
    | object id =>
      rw [HostM.search, Computation.run_bind, htext]
      dsimp only
      by_cases hname : key.primitiveText = traceIdProperty
      · rw [if_pos hname, hname]
        rfl
      · rw [if_neg hname, bne_iff_ne.2 hname]
        rfl
    | _ =>
      rw [← hdisplay]
      rfl

end Monitor

namespace World

variable {w u u' : World σ}

/-- The worlds that are reached by what a monitor does without running program code, but for a sink
that touches no object. -/
inductive Quiet (m : MonitorId) (w : World σ) : World σ → Prop
  | refl : Quiet m w w
  | identify {u : World σ} (id : ObjectId) : Quiet m w u → Quiet m w (u.identify m id).2
  | traceKey {u : World σ} (key : RawKey) : Quiet m w u → Quiet m w (u.traceKey m key).2
  | assign {u : World σ} (value : Value) (target source : RawKey) : Quiet m w u →
      Quiet m w ((Monitor.assign m value target source).run u).2
  | enterCall {u : World σ} (parameters : List (Option String)) (captured : List String) :
      Quiet m w u → Quiet m w ((Monitor.enterCall m parameters captured).run u).2
  | leaveCall {u : World σ} : Quiet m w u → Quiet m w ((Monitor.leaveCall m).run u).2
  | arithmeticCheck {u : World σ} {call : Call σ} (result : Value) (left right : Operand)
      (operator location : String) : Quiet m w u →
      Monitor.SinkLeads m (Untouched m) call u →
      Quiet m w ((Monitor.arithmeticCheck call m result left right operator location).run u).2
  | searchCheck {u : World σ} (call : Call σ) {key : Value} (target : Value) : Quiet m w u →
      key.isObject = false → Quiet m w ((Monitor.searchCheck call m key target).run u).2

theorem Quiet.unseen (h : Quiet m w u) : Unseen m w u := by
  induction h with
  | refl => exact refl_of (Unseen m) w
  | identify id _ ih => exact trans_of (Unseen m) ih (unseen_identify _ id)
  | traceKey key _ ih => exact trans_of (Unseen m) ih (leads_traceKey unseen_identify _ key)
  | assign value target source _ ih =>
    exact trans_of (Unseen m) ih (Monitor.assign_leads_of_tracer unseen_identify
      (fun w _ _ => unseen_onTracer w _) value target source _)
  | enterCall parameters captured _ ih =>
    exact trans_of (Unseen m) ih (Monitor.ensureLive_bind (Monitor.traced_unseen _ _))
  | leaveCall _ ih =>
    exact trans_of (Unseen m) ih (Monitor.ensureLive_bind (Monitor.traced_unseen _ _))
  | arithmeticCheck result left right operator location _ hsink ih =>
    refine trans_of (Unseen m) ih (Monitor.arithmeticCheck_leads_of_sink handles_unseen ?_ result left
      right operator location)
    exact fun f hf text v => (hsink f hf text v).mono Untouched.unseen
  | searchCheck call target _ hkey ih =>
    rw [Monitor.run_searchCheck call hkey target]
    exact ih

def shownBy (w : World σ) (m : MonitorId) : Reflection := w.reflection (w.monitor m).mask.realm

/-- Two worlds look the same to a program that is watched: it gets the same answers about every
object, and no property of any object differs but its mark. -/
structure LooksAlike (m : MonitorId) (w w' : World σ) : Prop where
  hasOwn : ∀ id key, (w'.shownBy m).hasOwn (w'.heap.object id) key =
    (w.shownBy m).hasOwn (w.heap.object id) key
  ownNames : ∀ id, (w'.shownBy m).ownNames (w'.heap.object id) =
    (w.shownBy m).ownNames (w.heap.object id)
  enumerableKeys : ∀ id, (w'.heap.object id).enumerableKeys = (w.heap.object id).enumerableKeys
  search : ∀ (call : Call σ) (key target : Value), key.isObject = false →
    ((Monitor.searchCheck call m key target).run w').1 =
      ((Monitor.searchCheck call m key target).run w).1
  size : w'.heap.size = w.heap.size
  kind : ∀ id, (w'.heap.object id).kind = (w.heap.object id).kind
  parent : ∀ id, (w'.heap.object id).parent = (w.heap.object id).parent
  properties : ∀ id key, key ≠ traceIdProperty →
    (w'.heap.object id).property? key = (w.heap.object id).property? key
  keys : ∀ id, (w'.heap.object id).properties.keys.filter (fun key => key != traceIdProperty) =
    (w.heap.object id).properties.keys.filter fun key => key != traceIdProperty

theorem Unseen.shownBy_eq (h : Unseen m w u) : u.shownBy m = w.shownBy m := by
  rw [shownBy, shownBy, h.mask, reflection, reflection, realm, realm, h.realms]

theorem Unseen.looksAlike (h : Unseen m w u) (hhides : (w.shownBy m).Hides)
    (hveiled : ∀ id, (w.heap.object id).Veiled) : LooksAlike m w u where
  hasOwn id key := by
    have hmasked := Reflection.hides_iff.1 hhides
    rw [h.shownBy_eq, Reflection.hasOwn_of_ne_native hmasked, Reflection.hasOwn_of_ne_native hmasked]
    by_cases hkey : key = traceIdProperty
    · rw [hkey, bne_self_eq_false, Bool.false_and, Bool.false_and]
    · rw [(h.heap.object id).hasOwn hkey]
  ownNames id := by
    have hmasked := Reflection.hides_iff.1 hhides
    rw [h.shownBy_eq, Reflection.ownNames_of_ne_native hmasked,
      Reflection.ownNames_of_ne_native hmasked, (h.heap.object id).ownKeys]
  enumerableKeys id :=
    (h.heap.object id).enumerableKeys (hveiled id) (h.heap.veiled id (hveiled id))
  search call key target hkey := by
    rw [Monitor.run_searchCheck call hkey, Monitor.run_searchCheck call hkey, h.tornDown]
    cases target with
    | object id =>
      by_cases hname : key.primitiveText = traceIdProperty
      · rw [hname, bne_self_eq_false]
        rfl
      · dsimp only
        rw [h.heap.has hname]
    | _ => rfl
  size := h.heap.size
  kind id := (h.heap.object id).kind
  parent id := (h.heap.object id).parent
  properties id _ hkey := (h.heap.object id).property? hkey
  keys id := (h.heap.object id).keys

theorem shownBy_newMonitor {r : RealmId} (hr : r < w.realms.size) (checks : CheckConfig) :
    (w.newMonitor r checks).2.shownBy (w.newMonitor r checks).1 = .masked (w.reflection r) := by
  have hmask : ((w.newMonitor r checks).2.monitor (w.newMonitor r checks).1).mask.realm = r := by
    rw [monitor_newMonitor, if_pos (show (w.newMonitor r checks).1 = w.monitors.size from rfl)]
  rw [shownBy, hmask, reflection_newMonitor, if_pos ⟨rfl, hr⟩]

/-- A new monitor hides marks, and changes no answer about objects that have none. Whatever it does
without running program code, it leaves every object as it was for the program, and goes on to
hide its marks. -/
theorem marks_invisible (w : World σ) :
    (∀ r checks, r < w.realms.size →
      let m := (w.newMonitor r checks).1
      let v := (w.newMonitor r checks).2
      v.heap = w.heap ∧ (v.shownBy m).Hides ∧ ∀ id, w.mark? id = none →
        (∀ key, (v.shownBy m).hasOwn (v.heap.object id) key =
          (w.reflection r).hasOwn (w.heap.object id) key) ∧
        (v.shownBy m).ownNames (v.heap.object id) =
          (w.reflection r).ownNames (w.heap.object id)) ∧
    ∀ m u, (w.shownBy m).Hides → (∀ id, (w.heap.object id).Veiled) → Quiet m w u →
      LooksAlike m w u ∧ (u.shownBy m).Hides ∧ ∀ id, (u.heap.object id).Veiled := by
  constructor
  · intro r checks hr m v
    have hshown : v.shownBy m = .masked (w.reflection r) := shownBy_newMonitor hr checks
    refine ⟨rfl, ?_, fun id hmark => ?_⟩
    · rw [hshown, Reflection.hides_iff]
      simp
    · rw [hshown]
      exact Object.masked_of_unmarked hmark _
  · intro m u hhides hveiled h
    refine ⟨h.unseen.looksAlike hhides hveiled, ?_, fun id => h.unseen.heap.veiled id (hveiled id)⟩
    rw [h.unseen.shownBy_eq]
    exact hhides

def withHeir : World Unit :=
  { heap := ⟨#[{}, { properties := .ofList [("x", { value := .number .nan })] },
      { parent := some 1 }]⟩, realms := #[{ global := 0 }], program := () }

theorem marks_invisible_withHeir :
    ((withHeir.newMonitor 0 {}).2.shownBy 0).Hides ∧
      (∀ id, ((withHeir.newMonitor 0 {}).2.heap.object id).Veiled) ∧
      ∃ u, Quiet 0 (withHeir.newMonitor 0 {}).2 u ∧ u.traceId? 1 = some 3 ∧ u.traceId? 2 = some 4 ∧
        LooksAlike 0 (withHeir.newMonitor 0 {}).2 u := by
  have hhides := ((marks_invisible withHeir).1 0 {} (by decide)).2.1
  have hunmarked : ∀ id, withHeir.mark? id = none
    | 0 | 1 | 2 => rfl
    | n + 3 => mark?_of_size_le (Nat.le_add_left 3 n)
  have hveiled : ∀ id, ((withHeir.newMonitor 0 {}).2.heap.object id).Veiled := by
    intro id p hp
    cases (hunmarked id).symm.trans hp
  have hquiet : Quiet 0 (withHeir.newMonitor 0 {}).2 _ :=
    .identify 2 (.assign (.number .nan) { scope := .object 1, slot := .text "x" } {} .refl)
  exact ⟨hhides, hveiled, _, hquiet, by decide +kernel, by decide +kernel,
    ((marks_invisible _).2 0 _ hhides hveiled hquiet).1⟩

end World

end CoercionTrace
