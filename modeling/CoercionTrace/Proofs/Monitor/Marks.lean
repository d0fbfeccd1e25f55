import CoercionTrace.Proofs.Monitor.Course
import CoercionTrace.Proofs.Monitor.Masks
import CoercionTrace.Proofs.Number.Whole

/-!
# Marks in the heap

An object without a mark gets the next identity as its mark when it is asked for (`MarksNext`), and
that is the only change of a mark that a monitor ever makes (`SparesMarks`).
-/

namespace CoercionTrace

variable {σ : Type} {m : MonitorId} {watched : MonitorId → Prop} {forged : ObjectId → Prop}

theorem Object.property?_define {o : Object} {key : String} (p : Property)
    (h : o.property? key = none) : (o.define key p).2.property? key = some p := by
  rw [Object.define, h]
  simp [Object.property?]

theorem property?_scopeToken (callId : TraceId) :
    (scopeToken callId).property? traceIdProperty = some (traceMark callId) :=
  Object.property?_define _ rfl

theorem Object.traceId?_of_traceMark {o : Object} {i : TraceId} (hi : i ≤ 2 ^ 53)
    (h : o.property? traceIdProperty = some (traceMark i)) : o.traceId? = some i := by
  have hlimit : i ≤ traceIdLimit := Nat.le_trans hi (by decide)
  rw [Object.traceId?, h]
  simp [traceMark, Property.sealed, Value.number?, Number.clamp_ofNat hi hlimit]

namespace World

def mark? (w : World σ) (id : ObjectId) : Option Property :=
  (w.heap.object id).property? traceIdProperty

def traceId? (w : World σ) (id : ObjectId) : Option TraceId := (w.heap.object id).traceId?

def nextId (w : World σ) (m : MonitorId) : TraceId := (w.monitor m).tracer.nextId

def globalOf (w : World σ) (m : MonitorId) : ObjectId :=
  (w.realm (w.monitor m).mask.realm).global

def allocated (w : World σ) (m : MonitorId) : Nat := w.nextId m - (globalTraceId + 1)

variable {w u u' : World σ} {id : ObjectId} {i : TraceId}

theorem traceId?_of_mark? (h : u'.mark? id = u.mark? id) : u'.traceId? id = u.traceId? id := by
  unfold mark? at h
  unfold traceId? Object.traceId?
  rw [h]

theorem mark?_of_traceId? (h : u.traceId? id = some i) : u.mark? id ≠ none := by
  intro hnone
  unfold mark? at hnone
  unfold traceId? Object.traceId? at h
  rw [hnone] at h
  cases h

theorem globalOf_onTracer (w : World σ) (m : MonitorId) (f : Tracer → Tracer) :
    (w.onTracer m f).globalOf m = w.globalOf m := by
  have hmask : ((w.onTracer m f).monitor m).mask = (w.monitor m).mask := by
    rw [onTracer, monitor_onMonitor]
    split <;> rfl
  rw [globalOf, globalOf, hmask]
  rfl

theorem nextId_onTracer (h : m < w.monitors.size) (f : Tracer → Tracer) :
    (w.onTracer m f).nextId m = (f (w.monitor m).tracer).nextId := by
  rw [nextId, tracer_onTracer h]

/-- No mark appears or disappears but forged ones, and no monitor that is watched takes back what it
gave. -/
structure SparesMarks (watched : MonitorId → Prop) (forged : ObjectId → Prop) (w w' : World σ) :
    Prop where
  present : ∀ m, watched m → m < w.monitors.size → m < w'.monitors.size
  next : ∀ m, watched m → w.nextId m ≤ w'.nextId m
  global : ∀ m, watched m → m < w.monitors.size → w'.globalOf m = w.globalOf m
  heap : w.heap.size ≤ w'.heap.size
  marks : ∀ id, ¬ forged id → w'.mark? id = w.mark? id

instance : IsPreorder (World σ) (SparesMarks watched forged) where
  refl _ := ⟨fun _ _ hm => hm, fun _ _ => Nat.le_refl _, fun _ _ _ => rfl, Nat.le_refl _,
    fun _ _ => rfl⟩
  trans _ _ _ h h' := ⟨fun m hm hpresent => h'.present m hm (h.present m hm hpresent),
    fun m hm => Nat.le_trans (h.next m hm) (h'.next m hm),
    fun m hm hpresent =>
      (h'.global m hm (h.present m hm hpresent)).trans (h.global m hm hpresent),
    Nat.le_trans h.heap h'.heap, fun id hid => (h'.marks id hid).trans (h.marks id hid)⟩

theorem sparesMarks_onMonitor {f : Monitor → Monitor}
    (hmask : (f (w.monitor m)).mask.realm = (w.monitor m).mask.realm)
    (hnext : (w.monitor m).tracer.nextId ≤ (f (w.monitor m)).tracer.nextId) :
    SparesMarks watched forged w (w.onMonitor m f) := by
  have hmonitor : ∀ m', ((w.onMonitor m f).monitor m').mask.realm = (w.monitor m').mask.realm ∧
      (w.monitor m').tracer.nextId ≤ ((w.onMonitor m f).monitor m').tracer.nextId := fun m' => by
    by_cases hm : m' = m
    · subst hm
      rw [monitor_onMonitor]
      split
      · exact ⟨hmask, hnext⟩
      · exact ⟨rfl, Nat.le_refl _⟩
    · rw [monitor_onMonitor_ne hm]
      exact ⟨rfl, Nat.le_refl _⟩
  refine ⟨fun m' _ hm' => by rwa [size_onMonitor], fun m' _ => (hmonitor m').2, fun m' _ _ => ?_,
    Nat.le_refl _, fun _ _ => rfl⟩
  rw [globalOf, (hmonitor m').1]
  rfl

theorem sparesMarks_onTracer {f : Tracer → Tracer}
    (h : (w.monitor m).tracer.nextId ≤ (f (w.monitor m).tracer).nextId) :
    SparesMarks watched forged w (w.onTracer m f) := sparesMarks_onMonitor rfl h

theorem sparesMarks_heap {heap : Heap} (hsize : w.heap.size ≤ heap.size)
    (hmarks : ∀ id, ¬ forged id → (heap.object id).property? traceIdProperty = w.mark? id) :
    SparesMarks watched forged w { w with heap } :=
  ⟨fun _ _ hm => hm, fun _ _ => Nat.le_refl _, fun _ _ _ => rfl, hsize, hmarks⟩

theorem sparesMarks_calling (w : World σ) (m : MonitorId) (f : Callable) (arguments : List Value) :
    SparesMarks watched forged w (w.calling m f arguments) := by
  have hclear : SparesMarks watched forged w (w.onTracer m Tracer.clearReturn) :=
    sparesMarks_onTracer (Nat.le_refl _)
  unfold calling
  split
  · exact hclear
  · exact trans_of (SparesMarks watched forged) hclear (sparesMarks_onTracer (Nat.le_refl _))

theorem identify_eq (w : World σ) (m : MonitorId) (id : ObjectId) :
    let r := w.heap.identify (w.globalOf m) (w.nextId m) id
    w.identify m id = (r.1, { w with heap := r.2.2 }.onTracer m fun t => { t with nextId := r.2.1 }) :=
  rfl

theorem sparesMarks_identify
    (h : (w.heap.identify (w.globalOf m) (w.nextId m) id).2.2 = w.heap) :
    SparesMarks watched forged w (w.identify m id).2 := by
  have hnext := le_next_identify w.heap (w.globalOf m) (w.nextId m) id
  rw [identify_eq]
  dsimp only
  rw [h]
  exact sparesMarks_onTracer hnext

theorem heap_identify_of_global (h : id = w.globalOf m) :
    w.heap.identify (w.globalOf m) (w.nextId m) id = (globalTraceId, w.nextId m, w.heap) := if_pos h

theorem heap_identify_of_marked (hne : id ≠ w.globalOf m) (h : w.traceId? id = some i) :
    w.heap.identify (w.globalOf m) (w.nextId m) id = (i, w.nextId m, w.heap) := by
  rw [Heap.identify, if_neg hne, show (w.heap.object id).traceId? = some i from h]

theorem heap_identify_of_dangling (hid : w.heap.size ≤ id) :
    (w.heap.identify (w.globalOf m) (w.nextId m) id).2.2 = w.heap := by
  have hput : ∀ o, w.heap.put id o = w.heap := fun o =>
    congrArg Heap.mk (Array.setIfInBounds_eq_of_size_le hid)
  unfold Heap.identify
  split
  · rfl
  · split
    · rfl
    · exact hput _

theorem identify_of_global (h : id = w.globalOf m) :
    (w.identify m id).1 = globalTraceId ∧ SparesMarks watched forged w (w.identify m id).2 := by
  have hidentify := heap_identify_of_global h
  refine ⟨?_, sparesMarks_identify (by rw [hidentify])⟩
  rw [identify_eq]
  dsimp only
  rw [hidentify]

theorem identify_of_marked (hne : id ≠ w.globalOf m) (h : w.traceId? id = some i) :
    (w.identify m id).1 = i ∧ SparesMarks watched forged w (w.identify m id).2 := by
  have hidentify := heap_identify_of_marked hne h
  refine ⟨?_, sparesMarks_identify (by rw [hidentify])⟩
  rw [identify_eq]
  dsimp only
  rw [hidentify]

structure MarksNext (m : MonitorId) (id : ObjectId) (w w' : World σ) : Prop where
  present : m < w'.monitors.size
  next : w'.nextId m = w.nextId m + 1
  global : w'.globalOf m = w.globalOf m
  size : w'.heap.size = w.heap.size
  mark : w'.mark? id = some (traceMark (w.nextId m))
  others : ∀ id', id' ≠ id → w'.mark? id' = w.mark? id'

theorem identify_of_unmarked (hm : m < w.monitors.size) (hid : id < w.heap.size)
    (hne : id ≠ w.globalOf m) (h : w.mark? id = none) :
    (w.identify m id).1 = w.nextId m ∧ MarksNext m id w (w.identify m id).2 := by
  have htrace : (w.heap.object id).traceId? = none :=
    Option.eq_none_iff_forall_ne_some.2 fun i hi => mark?_of_traceId? hi h
  have hidentify : w.heap.identify (w.globalOf m) (w.nextId m) id = (w.nextId m, w.nextId m + 1,
      w.heap.put id ((w.heap.object id).define traceIdProperty (traceMark (w.nextId m))).2) := by
    rw [Heap.identify, if_neg hne, htrace]
    rfl
  rw [identify_eq]
  dsimp only
  rw [hidentify]
  generalize hu : ({ w with heap := w.heap.put id _ } : World σ) = u
  have hpresent : m < u.monitors.size := hu ▸ hm
  refine ⟨rfl, ?_, nextId_onTracer hpresent _, ?_, ?_, ?_, fun id' hne' => ?_⟩
  · rw [size_onTracer]
    exact hpresent
  · rw [globalOf_onTracer, ← hu]
    rfl
  all_goals subst hu
  · exact Array.size_setIfInBounds
  · refine Eq.trans (congrArg (Object.property? · traceIdProperty) ?_)
      (Object.property?_define _ h)
    exact Heap.object_put_self _ _ hid
  · exact congrArg (Object.property? · traceIdProperty) (Heap.object_put_ne _ _ (Ne.symm hne'))

theorem traceKey_of_object (h : (w.monitor m).handle ≠ some id) (slot : Value) :
    w.traceKey m { scope := .object id, slot } =
      (.of (w.identify m id).1 (memberSlot (w.identify m id).2.heap slot), (w.identify m id).2) := by
  simp only [traceKey, traceScope, if_neg h]

theorem traceKey_of_hook (h : (w.monitor m).handle = some id) (slot : Value) :
    w.traceKey m { scope := .object id, slot } = (.of globalTraceId (memberSlot w.heap slot), w) := by
  simp only [traceKey, traceScope, if_pos h]

theorem mark?_of_size_le (h : w.heap.size ≤ id) : w.mark? id = none := by
  have hobject : w.heap.object id = {} := by
    rw [Heap.object, Array.getElem?_eq_none h]
    rfl
  rw [mark?, hobject]
  rfl

theorem mark?_alloc_self (w : World σ) (o : Object) :
    (w.alloc o).2.mark? w.heap.size = o.property? traceIdProperty :=
  congrArg (Object.property? · traceIdProperty) (Heap.object_alloc_self w.heap o)

theorem mark?_alloc_of_ne (o : Object) (hid : id ≠ w.heap.size) :
    (w.alloc o).2.mark? id = w.mark? id := by
  rcases Nat.lt_or_gt_of_ne hid with hlt | hgt
  · exact congrArg (Object.property? · traceIdProperty) (Heap.object_alloc_of_lt w.heap o hlt)
  · rw [mark?_of_size_le (Nat.le_of_lt hgt), mark?_of_size_le]
    simpa [alloc, Heap.alloc, Heap.size, Nat.succ_le_iff] using hgt

theorem sparesMarks_alloc (w : World σ) {o : Object} (ho : o.property? traceIdProperty = none) :
    SparesMarks watched forged w (w.alloc o).2 := by
  refine sparesMarks_heap (by simp [Heap.size]) fun id _ => ?_
  by_cases hid : id = w.heap.size
  · rw [hid, mark?_of_size_le (Nat.le_refl _), ← ho]
    exact mark?_alloc_self w o
  · exact mark?_alloc_of_ne o hid

theorem sparesMarks_bindMethods (hm : MonitorId) (methods : List HookMethod) (w : World σ)
    (o : Object) (ho : o.property? traceIdProperty = none) :
    SparesMarks watched forged w { w with heap := (bindMethods hm methods (o, w.heap)).2 } ∧
      (bindMethods hm methods (o, w.heap)).1.property? traceIdProperty = none := by
  induction methods generalizing w o with
  | nil => exact ⟨refl_of (SparesMarks watched forged) w, ho⟩
  | cons method rest ih =>
    have hname : method.name ≠ traceIdProperty := by cases method <;> decide
    obtain ⟨hrest, hnone⟩ := ih (w.alloc { kind := .function (hookMethod hm method) }).2
      { o with properties := o.properties.insert method.name { value := .object w.heap.size } }
      (by rw [Object.property?, Table.find?_insert_ne _ _ hname]; exact ho)
    exact ⟨trans_of (SparesMarks watched forged) (sparesMarks_alloc w rfl) hrest, hnone⟩

theorem sparesMarks_handle (w : World σ) (m : MonitorId) :
    SparesMarks watched forged w (w.handle m).2 := by
  unfold handle
  split
  · exact refl_of (SparesMarks watched forged) w
  · obtain ⟨hmethods, hnone⟩ := sparesMarks_bindMethods m HookMethod.all w {} rfl
    have hbind : ∀ (u : World σ) id, SparesMarks watched forged u (u.onMonitor m fun monitor =>
        { monitor with handle := some id }) := fun _ _ => sparesMarks_onMonitor rfl (Nat.le_refl _)
    exact trans_of (SparesMarks watched forged)
      (trans_of (SparesMarks watched forged) hmethods (sparesMarks_alloc _ hnone)) (hbind _ _)

end World

namespace Monitor

variable {R : World σ → World σ → Prop} [IsPreorder (World σ) R] {w : World σ}

theorem assign_leads_of_tracer (hidentify : ∀ w id, R w (w.identify m id).2)
    (htracer : ∀ (w : World σ) t', (w.monitor m).tracer.nextId ≤ t'.nextId →
      R w (w.onTracer m fun _ => t')) (value : Value) (target source : RawKey) (w : World σ) :
    Leads R (assign m value target source) w := by
  refine ensureLive_bind ?_
  split
  · exact .pure _
  · refine Leads.bind (.modifyGet (World.leads_traceKey hidentify w target)) fun key u _ => ?_
    refine Leads.bind (.modifyGet (World.leads_traceKey hidentify u source)) fun origin v _ => ?_
    refine Leads.bind ?_ fun _ _ _ => .pure _
    rcases Computation.yields_or_fails (traced m (Tracer.record key value origin)) v with
      ⟨_, hy⟩ | ⟨e, hf⟩
    · obtain ⟨t', hrecord, hv⟩ := yields_traced hy
      have hstep := Tracer.Course.refl.step (.assigned (Tracer.recorded_of_yields hrecord))
      rw [Leads, hv]
      exact htracer v t' hstep.nextId_le.1
    · obtain ⟨_, t', -, hrecord, hv⟩ := fails_traced hf
      rw [Leads, hv, Tracer.eq_of_record_fails hrecord]
      exact htracer v _ (Nat.le_refl _)

theorem enterCall_leads_of_tracer (htracer : ∀ (w : World σ) t',
      (w.monitor m).tracer.nextId ≤ t'.nextId → R w (w.onTracer m fun _ => t'))
    (parameters : List (Option String)) (captured : List String)
    (hentered : ∀ callId w', Yields (enterCall m parameters captured) w callId w' → R w w') :
    Leads R (enterCall m parameters captured) w := by
  rcases Computation.yields_or_fails (enterCall m parameters captured) w with ⟨callId, hy⟩ | ⟨e, hf⟩
  · exact hentered callId _ hy
  rcases fails_of_live hf with ⟨-, hw⟩ | htraced
  · rw [Leads, hw]
    exact refl_of R w
  · obtain ⟨fault, _, rfl, -, -⟩ := fails_traced htraced
    obtain ⟨g, hg, hw⟩ := World.step_of_refused hf
    rw [Leads, hw]
    exact htracer w _ (Tracer.Course.refl.step (.refused hg)).nextId_le.1

theorem leaveCall_leads_of_tracer (htracer : ∀ (w : World σ) t',
      (w.monitor m).tracer.nextId ≤ t'.nextId → R w (w.onTracer m fun _ => t')) (w : World σ) :
    Leads R (leaveCall m) w := by
  rcases Computation.yields_or_fails (leaveCall m) w with ⟨_, hy⟩ | ⟨e, hf⟩
  · obtain ⟨t', hpop, hw⟩ := yields_traced (yields_of_live hy)
    rw [Leads, hw]
    exact htracer w t' (Tracer.Course.refl.step (.left (Tracer.left_of_yields hpop))).nextId_le.1
  rcases fails_of_live hf with ⟨-, hw⟩ | hf
  · rw [Leads, hw]
    exact refl_of R w
  · obtain ⟨_, t', -, hpop, hw⟩ := fails_traced hf
    rw [Leads, hw, Tracer.eq_of_popFrame_fails hpop]
    exact htracer w _ (Nat.le_refl _)

end Monitor

end CoercionTrace
