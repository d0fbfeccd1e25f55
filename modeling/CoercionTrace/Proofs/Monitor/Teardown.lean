import CoercionTrace.Proofs.Monitor.Lasting
import CoercionTrace.Proofs.Monitor.Reversal

/-!
# The end of a monitor

A monitor can be torn down at any time, also by a function that one of its own checks is calling. The
realm gets back the reflection that was there when the monitor was made, the global object loses the
properties that hold the hook object and can be deleted, and nothing else changes. Main statement: so
it is wherever a program gets with its monitors, and from then on every operation of the monitor fails
before it does anything (`teardown_final`).
-/

namespace CoercionTrace

namespace Table

variable {κ α : Type} [DecidableEq κ]

theorem drop_eq_filter (k : κ) {l : List (κ × α)} (h : (l.map Prod.fst).Nodup) :
    drop k l = l.filter fun e => e.1 != k := by
  induction l with
  | nil => rfl
  | cons e rest ih =>
    rw [List.map_cons, List.nodup_cons] at h
    by_cases he : e.1 = k
    · have hrest : rest.filter (fun e => e.1 != k) = rest := by
        refine List.filter_eq_self.2 fun e' he' => bne_iff_ne.2 fun hk => h.1 ?_
        rw [he, ← hk]
        exact List.mem_map_of_mem he'
      simp [drop, he, hrest]
    · simp [drop, he, ih h.2]

theorem entries_erase (t : Table κ α) (k : κ) :
    (t.erase k).entries = t.entries.filter fun e => e.1 != k := drop_eq_filter k t.nodup

end Table

/-! ## Objects that lose properties -/

namespace Object

variable {o : Object} {key : String} {keys : List String} {id : ObjectId}

theorem property?_eq_some_iff {p : Property} :
    o.property? key = some p ↔ (key, p) ∈ o.properties.entries :=
  ⟨Table.mem_of_lookup, Table.lookup_of_mem o.properties.nodup⟩

theorem entries_delete (o : Object) (key : String) : (o.delete key).2.properties.entries =
    o.properties.entries.filter fun e => !(e.1 == key && e.2.configurable) := by
  have hvalue : ∀ e ∈ o.properties.entries, e.1 = key → o.property? key = some e.2 := by
    rintro e he rfl
    exact property?_eq_some_iff.2 he
  unfold delete
  split
  · next p hp =>
    have hsame : ∀ e ∈ o.properties.entries, e.1 = key → e.2 = p := fun e he hkey =>
      Option.some.inj ((hvalue e he hkey).symm.trans hp)
    split
    · next hconfigurable =>
      refine (Table.entries_erase o.properties key).trans (List.filter_congr fun e he => ?_)
      by_cases hkey : e.1 = key
      · simp [hkey, hsame e he hkey, hconfigurable]
      · simp [bne, beq_false_of_ne hkey]
    · next hfixed =>
      refine (List.filter_eq_self.2 fun e he => ?_).symm
      by_cases hkey : e.1 = key
      · simp [hsame e he hkey, hfixed]
      · simp [hkey]
  · next hnone =>
    refine (List.filter_eq_self.2 fun e he => ?_).symm
    have hkey : e.1 ≠ key := fun hkey => by cases hnone.symm.trans (hvalue e he hkey)
    simp [hkey]

theorem kind_delete (o : Object) (key : String) : (o.delete key).2.kind = o.kind := by
  unfold delete
  split
  · split <;> rfl
  · rfl

theorem parent_delete (o : Object) (key : String) : (o.delete key).2.parent = o.parent := by
  unfold delete
  split
  · split <;> rfl
  · rfl

structure Loses (keys : List String) (o o' : Object) : Prop where
  kind : o'.kind = o.kind
  parent : o'.parent = o.parent
  entries : o'.properties.entries =
    o.properties.entries.filter fun e => !(decide (e.1 ∈ keys) && e.2.configurable)

theorem loses_foldl_delete (keys : List String) (o : Object) :
    Loses keys o (keys.foldl (fun o key => (o.delete key).2) o) := by
  induction keys generalizing o with
  | nil => exact ⟨rfl, rfl, (List.filter_eq_self.2 fun e _ => by simp).symm⟩
  | cons key keys ih =>
    obtain ⟨hkind, hparent, hentries⟩ := ih (o.delete key).2
    rw [List.foldl_cons]
    refine ⟨hkind.trans (kind_delete o key), hparent.trans (parent_delete o key), ?_⟩
    rw [hentries, entries_delete, List.filter_filter]
    refine List.filter_congr fun e _ => ?_
    by_cases hkey : e.1 = key <;> cases e.2.configurable <;> simp [hkey]

theorem mem_keysHolding {e : String × Property} (he : e ∈ o.properties.entries) :
    e.1 ∈ World.keysHolding o id ↔ e.2.value = .object id := by
  have hown : o.own? e.1 = some e.2.value := by
    rw [own?, property?_eq_some_iff.2 he]
  have hkey : e.1 ∈ o.ownKeys := List.mem_append_right _ (List.mem_map_of_mem he)
  simp [World.keysHolding, hkey, hown]

end Object

def Property.releases (hook : Option ObjectId) (p : Property) : Bool :=
  p.configurable && hook.any fun id => p.value == .object id

/-- The global object lets go of a hook object where it can. Nothing else in the heap changes. -/
structure Heap.Releases (global : ObjectId) (hook : Option ObjectId) (h h' : Heap) : Prop where
  properties : (h'.object global).properties.entries =
    (h.object global).properties.entries.filter fun e => !e.2.releases hook
  kind : (h'.object global).kind = (h.object global).kind
  parent : (h'.object global).parent = (h.object global).parent
  object : ∀ id, id ≠ global → h'.object id = h.object id
  size : h'.size = h.size

theorem Heap.releases_none (h : Heap) (global : ObjectId) : h.Releases global none h where
  properties := (List.filter_eq_self.2 fun e _ => by simp [Property.releases]).symm
  kind := rfl
  parent := rfl
  object _ _ := rfl
  size := rfl

theorem Heap.size_put (h : Heap) (id : ObjectId) (o : Object) : (h.put id o).size = h.size :=
  Array.size_setIfInBounds

theorem Heap.releases_put {h : Heap} {global id : ObjectId} {o' : Object}
    (ho : (h.object global).Loses (World.keysHolding (h.object global) id) o') :
    h.Releases global (some id) (h.put global o') := by
  have hother : ∀ id', id' ≠ global → (h.put global o').object id' = h.object id' :=
    fun _ hne => Heap.object_put_ne h o' (Ne.symm hne)
  have hfilter : ∀ e ∈ (h.object global).properties.entries,
      (decide (e.1 ∈ World.keysHolding (h.object global) id) && e.2.configurable) =
        e.2.releases (some id) := fun e he => by
    simp [Property.releases, Object.mem_keysHolding he, Bool.and_comm, Bool.beq_eq_decide_eq]
  have hentries : o'.properties.entries = (h.object global).properties.entries.filter fun e =>
      !e.2.releases (some id) := by
    rw [ho.entries]
    exact List.filter_congr fun e he => congrArg Bool.not (hfilter e he)
  rcases Nat.lt_or_ge global h.size with hlt | hge
  · have hself : (h.put global o').object global = o' := Heap.object_put_self h o' hlt
    exact ⟨by rw [hself, hentries], by rw [hself, ho.kind], by rw [hself, ho.parent], hother,
      Heap.size_put h global o'⟩
  · have hput : h.put global o' = h := congrArg Heap.mk (Array.setIfInBounds_eq_of_size_le hge)
    have hempty : h.object global = {} := by
      simp only [Heap.size] at hge
      simp [Heap.object, hge]
    rw [hput]
    exact ⟨by rw [hempty]; rfl, rfl, rfl, fun _ _ => rfl, rfl⟩

variable {σ : Type} {m m' : MonitorId} {r : RealmId}

namespace World

variable {w u u' v : World σ} {found : Reflection}

/-! ## What teardown changes -/

/-- A monitor has given its realm back: the reflection is the one that it found, and the global object
lets go of the hook object. All else is as it was. -/
structure Dismantled (r : RealmId) (m : MonitorId) (found : Reflection) (u u' : World σ) : Prop where
  realm : u'.realm r = { u.realm r with reflection := found }
  realms : ∀ r', r' ≠ r → u'.realm r' = u.realm r'
  heap : u.heap.Releases (u.realm r).global (u.monitor m).handle u'.heap
  monitor : u'.monitor m =
    { u.monitor m with mask := ⟨r, none⟩, handle := none, tornDown := true }
  monitors : ∀ m', m' ≠ m → u'.monitor m' = u.monitor m'
  current : u'.current = u.current
  reports : u'.reports = u.reports
  stdout : u'.stdout = u.stdout
  stderr : u'.stderr = u.stderr
  program : u'.program = u.program

theorem uninstall_eq (w : World σ) (mask : Mask) : (w.uninstall mask).2 = match mask.saved with
    | none => w
    | some reflection => w.reflect mask.realm reflection := by
  unfold uninstall
  cases mask.saved <;> rfl

theorem stopped_eq (h : (u.monitor m).mask = ⟨r, some found⟩) :
    u.stopped m = ((u.reflect r found).onMonitor m fun monitor =>
      { monitor with mask := ⟨r, none⟩ }).onMonitor m fun monitor =>
        { monitor with tornDown := true, handle := none } := by
  rw [stopped, unmask_eq, fst_uninstall, uninstall_eq, h]

theorem realm_reflect (hr : r < u.realms.size) (R : Reflection) :
    (u.reflect r R).realm r = { u.realm r with reflection := R } := by
  simp [realm, reflect, hr, Array.getElem_modify]

theorem realm_reflect_ne {r' : RealmId} (hne : r' ≠ r) (R : Reflection) :
    (u.reflect r R).realm r' = u.realm r' := by
  simp [realm, reflect, Array.getElem?_modify, Ne.symm hne]

theorem dismantled_stopped (hm : m < u.monitors.size) (hr : r < u.realms.size)
    (hmask : (u.monitor m).mask = ⟨r, some found⟩) {heap : Heap}
    (hheap : u.heap.Releases (u.realm r).global (u.monitor m).handle heap) :
    Dismantled r m found u { u.stopped m with heap } := by
  rw [stopped_eq hmask]
  refine ⟨realm_reflect hr found, fun r' hne => realm_reflect_ne hne found, hheap, ?_, ?_, rfl, rfl,
    rfl, rfl, rfl⟩
  · change (((u.reflect r found).onMonitor m _).onMonitor m _).monitor m = _
    have hsize : m < (u.reflect r found).monitors.size := hm
    rw [monitor_onMonitor, size_onMonitor, if_pos hsize, monitor_onMonitor, if_pos hsize]
    rfl
  · intro m' hne
    change (((u.reflect r found).onMonitor m _).onMonitor m _).monitor m' = _
    rw [monitor_onMonitor_ne hne, monitor_onMonitor_ne hne]
    rfl

theorem releases_removeHandle (w : World σ) (r : RealmId) (handle : ObjectId) :
    w.heap.Releases (w.realm r).global (some handle) (w.removeHandle r handle).heap :=
  Heap.releases_put (Object.loses_foldl_delete _ _)

theorem dismantled_teardown (hlive : u.LiveOn r m) (hr : r < u.realms.size)
    (hmask : (u.monitor m).mask = ⟨r, some found⟩) : Dismantled r m found u (u.teardown m) := by
  have hheap : (u.stopped m).heap = u.heap := by
    rw [stopped_eq hmask]
    rfl
  have hglobal : ((u.stopped m).realm r).global = (u.realm r).global := by
    rw [stopped_eq hmask]
    exact global_reflect u r r found
  have hrealm : ((u.stopped m).monitor m).mask.realm = r := by
    rw [stopped, monitor_onMonitor]
    split <;> rw [monitor_unmask, hmask]
  rw [teardown_eq hlive.working]
  split
  · next hhandle =>
    rw [show u.stopped m = { u.stopped m with heap := u.heap } by rw [← hheap]]
    exact dismantled_stopped hlive.present hr hmask (hhandle ▸ u.heap.releases_none _)
  · next handle hhandle =>
    refine dismantled_stopped hlive.present hr hmask ?_
    have hreleases := releases_removeHandle (u.stopped m) r handle
    rw [hglobal, hheap] at hreleases
    rwa [hrealm, hhandle]

/-! ## A monitor that is torn down -/

theorem tornDown_perform (h : (u.monitor m).tornDown = true) (turn : Turn σ) :
    ((u.perform turn).monitor m).tornDown = true := by
  cases turn with
  | make r checks =>
    have hm : m ≠ u.monitors.size := by
      rintro rfl
      rw [monitor_of_absent (Nat.lt_irrefl _)] at h
      cases h
    rwa [perform, monitor_newMonitor, if_neg hm]
  | tearDown m' =>
    cases hworking : (u.monitor m').tornDown with
    | true => rwa [perform, teardown_of_tornDown hworking]
    | false =>
      have hne : m ≠ m' := by
        rintro rfl
        cases h.symm.trans hworking
      rwa [perform, (takesOff_teardown hworking).others m hne]
  | hold m' =>
    rw [perform]
    split
    · exact h
    · exact ((keepsMasks_hold u m').tornDown m).trans h
  | release m' =>
    rcases release_cases u m' with ⟨-, hrelease⟩ | ⟨hself, hoff⟩
    · rw [perform, hrelease]
      exact ((keepsMasks_onMonitor rfl rfl).tornDown m).trans h
    · by_cases hm : m = m'
      · subst hm
        rwa [perform, hself, monitor_unmask]
      · rwa [perform, hoff.others m hm]
  | other f spares => exact ((spares u).tornDown m).trans h

def Evolves (w w' : World σ) : Prop := ∃ turns : List (Turn σ), w' = w.after turns

instance : IsPreorder (World σ) Evolves where
  refl _ := ⟨[], rfl⟩
  trans w _ _ := by
    rintro ⟨turns, rfl⟩ ⟨turns', rfl⟩
    exact ⟨turns ++ turns', (after_append w turns turns').symm⟩

theorem evolves_perform (w : World σ) (turn : Turn σ) : Evolves w (w.perform turn) := ⟨[turn], rfl⟩

theorem Evolves.tornDown (h : Evolves u v) (htornDown : (u.monitor m).tornDown = true) :
    (v.monitor m).tornDown = true := by
  obtain ⟨turns, rfl⟩ := h
  induction turns using List.reverseRecOn with
  | nil => exact htornDown
  | append_singleton turns turn ih =>
    rw [after_concat]
    exact tornDown_perform ih turn

theorem SparesMasks.evolves (h : SparesMasks w w') : Evolves w w' := by
  classical
  refine ⟨[.other (fun u => if u = w then w' else u) fun u => ?_], by simp [after, perform]⟩
  split
  · next hu => rwa [hu]
  · exact ⟨refl_of KeepsMasks u, fun _ => Iff.rfl⟩

theorem sparesMasks_onMonitor {f : Monitor → Monitor} (hmask : ∀ monitor, (f monitor).mask = monitor.mask)
    (htornDown : ∀ monitor, (f monitor).tornDown = monitor.tornDown)
    (hholders : ∀ monitor, (f monitor).holders = monitor.holders) :
    SparesMasks w (w.onMonitor m f) where
  toKeepsMasks := keepsMasks_onMonitor (hmask _) (htornDown _)
  held m' := by
    by_cases hm : m' = m
    · subst hm
      rw [monitor_onMonitor]
      split
      · rw [hholders]
      · rfl
    · rw [monitor_onMonitor_ne hm]

theorem evolves_onMonitor {f : Monitor → Monitor} (hmask : ∀ monitor, (f monitor).mask = monitor.mask)
    (htornDown : ∀ monitor, (f monitor).tornDown = monitor.tornDown)
    (hholders : ∀ monitor, (f monitor).holders = monitor.holders) :
    Evolves w (w.onMonitor m f) := (sparesMasks_onMonitor hmask htornDown hholders).evolves

theorem evolves_onTracer (w : World σ) (m : MonitorId) (f : Tracer → Tracer) :
    Evolves w (w.onTracer m f) :=
  evolves_onMonitor (fun _ => rfl) (fun _ => rfl) fun _ => rfl

theorem evolves_of_monitors (hmonitors : w'.monitors = w.monitors) (hrealms : w'.realms = w.realms) :
    Evolves w w' := by
  have hmonitor : ∀ m, w'.monitor m = w.monitor m := fun m => by rw [monitor, hmonitors, monitor]
  have hkeeps : KeepsMasks w w' :=
    ⟨congrArg Array.size hmonitors, fun m => congrArg Monitor.mask (hmonitor m),
      fun m => congrArg Monitor.tornDown (hmonitor m), congrArg Array.size hrealms,
      fun r => by rw [reflection, realm, hrealms, ← realm, ← reflection]⟩
  exact SparesMasks.evolves ⟨hkeeps, fun m => by rw [hmonitor m]⟩

theorem evolves_identify (w : World σ) (m : MonitorId) (id : ObjectId) :
    Evolves w (w.identify m id).2 := by
  have hheap : Evolves w { w with heap := (w.heap.identify (w.globalOf m) (w.nextId m) id).2.2 } :=
    evolves_of_monitors rfl rfl
  rw [identify_eq]
  dsimp only
  exact trans_of Evolves hheap (evolves_onTracer _ m _)

theorem evolves_calling (w : World σ) (m : MonitorId) (f : Callable) (arguments : List Value) :
    Evolves w (w.calling m f arguments) := by
  unfold calling
  split
  · exact evolves_onTracer w m _
  · exact trans_of Evolves (evolves_onTracer w m _) (evolves_onTracer _ m _)

theorem handles_evolves : Handles m (Evolves (σ := σ)) where
  reported _ _ _ _ := evolves_of_monitors rfl rfl
  identify w id := evolves_identify w m id
  calling w f arguments := evolves_calling w m f arguments
  called w := evolves_onTracer w m _

theorem evolves_handle (w : World σ) (m : MonitorId) : Evolves w (w.handle m).2 := by
  unfold handle
  split
  · exact refl_of Evolves w
  · have hbind : ∀ (u : World σ) id, Evolves u (u.onMonitor m fun monitor =>
        { monitor with handle := some id }) := fun _ _ =>
      evolves_onMonitor (fun _ => rfl) (fun _ => rfl) fun _ => rfl
    have halloc : ∀ (u : World σ) heap o, Evolves u ({ u with heap }.alloc o).2 := fun _ _ _ =>
      evolves_of_monitors rfl rfl
    exact trans_of Evolves (halloc w _ _) (hbind _ _)

theorem evolves_installGlobal (w : World σ) (m : MonitorId) (key : String) :
    Evolves w (w.installGlobal m key).2 := by
  have hset : ∀ (u : World σ) heap, Evolves u { u with heap } := fun _ _ =>
    evolves_of_monitors rfl rfl
  exact trans_of Evolves (evolves_handle w m) (hset _ _)

end World

namespace Monitor

open World

variable {u : World σ} {call : Call σ}

theorem traced_evolves {α : Type} (m : MonitorId) (step : TraceM α) (u : World σ) :
    Leads Evolves (traced m step) u := by
  refine Leads.get_bind (Leads.bind (.modify (evolves_onTracer u m _)) fun _ v _ => ?_)
  split
  · exact .pure _
  · exact .throw _

theorem assign_evolves (m : MonitorId) (value : Value) (target source : RawKey) (u : World σ) :
    Leads Evolves (assign m value target source) u := by
  refine ensureLive_bind ?_
  have hkey : ∀ (v : World σ) key, Leads Evolves
      (modifyGet fun w => w.traceKey m key : HostM σ TraceKey) v := fun v key =>
    .modifyGet (leads_traceKey (fun w id => evolves_identify w m id) v key)
  split
  · exact .pure _
  · exact Leads.bind (hkey u target) fun _ v _ => Leads.bind (hkey v source) fun _ x _ =>
      Leads.bind (traced_evolves m _ x) fun _ _ _ => .pure _

theorem enterCall_evolves (m : MonitorId) (parameters : List (Option String)) (captured : List String)
    (u : World σ) : Leads Evolves (enterCall m parameters captured) u :=
  ensureLive_bind (traced_evolves m _ u)

theorem leaveCall_evolves (m : MonitorId) (u : World σ) : Leads Evolves (leaveCall m) u :=
  ensureLive_bind (traced_evolves m _ u)

theorem heap_yields (u : World σ) : Yields HostM.heap u u.heap u := rfl

theorem elementsOf_cases (role : String) (v : Value) (u : World σ) :
    (∃ elements, Yields (elementsOf role v) u elements u) ∨
      ∃ typeName, Fails (elementsOf role v) u (.type (.noArray role typeName)) u := by
  unfold elementsOf
  cases helements : u.heap.elements? v with
  | some elements =>
    refine .inl ⟨elements, Yields.bind_iff.2 ⟨_, u, heap_yields u, ?_⟩⟩
    rw [helements]
    exact Yields.pure_iff.2 ⟨rfl, rfl⟩
  | none =>
    refine .inr ⟨u.heap.typeName v, Fails.bind_iff.2 (.inr ⟨_, u, heap_yields u, ?_⟩)⟩
    rw [helements]
    exact Fails.throw_iff.2 ⟨rfl, rfl⟩

theorem elementsOf_evolves (role : String) (v : Value) (u : World σ) :
    Leads Evolves (elementsOf role v) u := by
  rcases elementsOf_cases role v u with ⟨_, h⟩ | ⟨_, h⟩ <;> rw [Leads, h] <;> exact refl_of Evolves u

theorem setSink_evolves (m : MonitorId) (sink : Sink) (u : World σ) :
    Leads Evolves (setSink m sink) u :=
  .modify (evolves_onMonitor (fun _ => rfl) (fun _ => rfl) fun _ => rfl)

theorem capturedNames_evolves (v : Value) (u : World σ) : Leads Evolves (capturedNames v) u := by
  unfold capturedNames
  split
  · exact .pure _
  · exact Leads.bind (elementsOf_evolves _ v u) fun _ _ _ => .pure _

theorem alloc_evolves (o : Object) (u : World σ) :
    Leads Evolves (modifyGet fun w => w.alloc o : HostM σ ObjectId) u :=
  .modifyGet (evolves_of_monitors rfl rfl)

theorem perform_evolves (hcall : CallLeads Evolves call) (m : MonitorId) (arguments : List Value)
    (method : HookMethod) (u : World σ) : Leads Evolves (perform call m arguments method) u := by
  cases method with
  | arithmeticCheck => exact Leads.get_bind (arithmeticCheck_leads handles_evolves hcall _ _ _ _ _ u)
  | callCheck =>
    exact Leads.bind (elementsOf_evolves _ _ u) fun _ v _ =>
      Leads.get_bind (callCheck_leads handles_evolves hcall _ _ _ _ _ v)
  | assign => exact assign_evolves m _ _ _ u
  | enterCall =>
    exact Leads.bind (elementsOf_evolves _ _ u) fun _ v _ =>
      Leads.bind (capturedNames_evolves _ v) fun _ x _ =>
        Leads.bind (enterCall_evolves m _ _ x) fun _ y _ =>
          Leads.bind (alloc_evolves _ y) fun _ _ _ => .pure _
  | leaveCall => exact Leads.bind (leaveCall_evolves m u) fun _ _ _ => .pure _
  | inOperatorProxy =>
    exact Leads.bind (searchCheck_leads hcall _ _ u) fun _ _ _ => .pure _
  | setDiagnosticSink =>
    refine Leads.get_bind ?_
    dsimp only
    split
    · exact Leads.bind (setSink_evolves m _ u) fun _ _ _ => .pure _
    · split
      · exact Leads.bind (setSink_evolves m _ u) fun _ _ _ => .pure _
      · exact Leads.bind (.throw _) fun _ _ _ => .pure _
  | info => exact .pure _
  | teardown => exact Leads.bind (.modify (evolves_perform u (.tearDown m))) fun _ _ _ => .pure _

theorem invoke_evolves (hcall : CallLeads Evolves call) (m : MonitorId) (method : HookMethod)
    (arguments : List Value) (u : World σ) : Leads Evolves (invoke call m method arguments) u := by
  refine Leads.get_bind ?_
  split
  · exact .throw _
  · next h =>
    refine Leads.bind (.modify ?_) fun _ v _ =>
      HostM.andFinally_leads (perform_evolves hcall m arguments method v) fun x =>
        evolves_perform x (.release m)
    exact perform_hold h ▸ evolves_perform u (.hold m)

/-! ## Refusal -/

theorem run_arithmeticCheck_of_tornDown (h : (u.monitor m).tornDown = true) (call : Call σ)
    (result : Value) (left right : Operand) (operator location : String) :
    (arithmeticCheck call m result left right operator location).run u = (.error .tornDown, u) := by
  rw [arithmeticCheck, run_ensureLive, if_pos h]

theorem run_callCheck_of_tornDown (h : (u.monitor m).tornDown = true) (call : Call σ)
    (callee receiver : Value) (arguments : List Value) (text location : String) :
    (callCheck call m callee receiver arguments text location).run u = (.error .tornDown, u) := by
  rw [callCheck, run_ensureLive, if_pos h]

theorem run_assign_of_tornDown (h : (u.monitor m).tornDown = true) (value : Value)
    (target source : RawKey) :
    (assign m value target source).run u = (.error .tornDown, u) := by
  rw [assign, run_ensureLive, if_pos h]

theorem run_enterCall_of_tornDown (h : (u.monitor m).tornDown = true)
    (parameters : List (Option String)) (captured : List String) :
    (enterCall m parameters captured).run u = (.error .tornDown, u) := by
  rw [enterCall, run_ensureLive, if_pos h]

theorem run_leaveCall_of_tornDown (h : (u.monitor m).tornDown = true) :
    (leaveCall m).run u = (.error .tornDown, u) := by
  rw [leaveCall, run_ensureLive, if_pos h]

theorem run_searchCheck_of_tornDown (h : (u.monitor m).tornDown = true) (call : Call σ)
    (key target : Value) : (searchCheck call m key target).run u = (.error .tornDown, u) := by
  rw [searchCheck, run_ensureLive, if_pos h]

/-- The operation is refused: with the monitor, or for want of an array among its arguments. -/
inductive Refusal : HostError → Prop
  | tornDown : Refusal .tornDown
  | noArray (role typeName : String) : Refusal (.type (.noArray role typeName))

def checking : List HookMethod :=
  [.arithmeticCheck, .callCheck, .assign, .enterCall, .leaveCall, .inOperatorProxy]

theorem capturedNames_cases (v : Value) (u : World σ) :
    (∃ names, Yields (capturedNames v) u names u) ∨ ∃ e, Refusal e ∧ Fails (capturedNames v) u e u := by
  unfold capturedNames
  split
  · exact .inl ⟨[], rfl⟩
  · rcases elementsOf_cases "enterCall captured parameters" v u with ⟨elements, h⟩ | ⟨typeName, h⟩
    · exact .inl ⟨_, Yields.bind_iff.2 ⟨elements, u, h, Yields.pure_iff.2 ⟨rfl, rfl⟩⟩⟩
    · exact .inr ⟨_, .noArray _ typeName, Fails.bind_iff.2 (.inl h)⟩

theorem perform_refused (h : (u.monitor m).tornDown = true) (call : Call σ) (arguments : List Value)
    {method : HookMethod} (hmethod : method ∈ checking) :
    ∃ e, Refusal e ∧ Fails (perform call m arguments method) u e u := by
  simp only [checking, List.mem_cons, List.not_mem_nil, or_false] at hmethod
  rcases hmethod with rfl | rfl | rfl | rfl | rfl | rfl
  · exact ⟨_, .tornDown, Fails.bind_iff.2 (.inr ⟨_, u, heap_yields u,
      run_arithmeticCheck_of_tornDown h call _ _ _ _ _⟩)⟩
  · rcases elementsOf_cases "callCheck arguments" (argument arguments 2) u with
      ⟨elements, harray⟩ | ⟨typeName, harray⟩
    · exact ⟨_, .tornDown, Fails.bind_iff.2 (.inr ⟨elements, u, harray, Fails.bind_iff.2
        (.inr ⟨_, u, heap_yields u, run_callCheck_of_tornDown h call _ _ _ _ _⟩)⟩)⟩
    · exact ⟨_, .noArray _ typeName, Fails.bind_iff.2 (.inl harray)⟩
  · exact ⟨_, .tornDown, run_assign_of_tornDown h _ _ _⟩
  · rcases elementsOf_cases "enterCall parameters" (argument arguments 0) u with
      ⟨elements, harray⟩ | ⟨typeName, harray⟩
    · rcases capturedNames_cases (argument arguments 1) u with ⟨names, hnames⟩ | ⟨e, he, hnames⟩
      · exact ⟨_, .tornDown, Fails.bind_iff.2 (.inr ⟨elements, u, harray, Fails.bind_iff.2
          (.inr ⟨names, u, hnames, Fails.bind_iff.2 (.inl (run_enterCall_of_tornDown h _ _))⟩)⟩)⟩
      · exact ⟨e, he, Fails.bind_iff.2 (.inr ⟨elements, u, harray, Fails.bind_iff.2 (.inl hnames)⟩)⟩
    · exact ⟨_, .noArray _ typeName, Fails.bind_iff.2 (.inl harray)⟩
  · exact ⟨_, .tornDown, Fails.bind_iff.2 (.inl (run_leaveCall_of_tornDown h))⟩
  · exact ⟨_, .tornDown, Fails.bind_iff.2 (.inl (run_searchCheck_of_tornDown h call _ _))⟩

theorem release_hold (h : (u.monitor m).holders ≠ 0) : (u.hold m).release m = u := by
  have hback : (u.hold m).onMonitor m (fun monitor =>
      { monitor with holders := monitor.holders - 1 }) = u := by
    have hmonitors : ((u.hold m).onMonitor m fun monitor =>
        { monitor with holders := monitor.holders - 1 }).monitors = u.monitors := by
      refine Array.ext (by simp [hold, onMonitor]) fun i _ _ => ?_
      simp only [hold, onMonitor, Array.getElem_modify]
      split <;> rfl
    exact congrArg (fun monitors => { u with monitors }) hmonitors
  rw [release, hback, if_neg h]

theorem invoke_refused (h : (u.monitor m).tornDown = true) (call : Call σ) (arguments : List Value)
    {method : HookMethod} (hmethod : method ∈ checking) :
    ∃ e, Refusal e ∧ Fails (invoke call m method arguments) u e u := by
  unfold invoke
  by_cases hheld : (u.monitor m).holders = 0
  · refine ⟨_, .tornDown, ?_⟩
    rw [Fails.get_bind_iff, if_pos hheld, Fails.throw_iff]
    exact ⟨rfl, rfl⟩
  · have htornDown : ((u.hold m).monitor m).tornDown = true :=
      ((keepsMasks_hold u m).tornDown m).trans h
    obtain ⟨e, he, hfails⟩ := perform_refused htornDown call arguments hmethod
    refine ⟨e, he, ?_⟩
    rw [Fails.get_bind_iff, if_neg hheld, holding, Fails.bind_iff]
    refine .inr ⟨⟨⟩, u.hold m, rfl, ?_⟩
    rw [Fails, HostM.run_andFinally, hfails, release_hold hheld]

end Monitor

/-! ## For good -/

namespace World

open Monitor

variable {w u v : World σ}

/-- The monitor does nothing any more: its operations fail, whatever they are asked and before they
call or report anything, and leave the world as it is. -/
structure Disabled (m : MonitorId) (v : World σ) : Prop where
  arithmeticCheck : ∀ call result left right operator location,
    Fails (arithmeticCheck call m result left right operator location) v .tornDown v
  callCheck : ∀ call callee receiver arguments text location,
    Fails (callCheck call m callee receiver arguments text location) v .tornDown v
  assign : ∀ value target source, Fails (assign m value target source) v .tornDown v
  enterCall : ∀ parameters captured, Fails (enterCall m parameters captured) v .tornDown v
  leaveCall : Fails (leaveCall m) v .tornDown v
  searchCheck : ∀ call key target, Fails (searchCheck call m key target) v .tornDown v
  /-- By way of the hook object it is the same, once the arguments are taken apart. -/
  invoke : ∀ call arguments, ∀ method ∈ checking,
    ∃ e, Refusal e ∧ Fails (invoke call m method arguments) v e v
  teardown : v.teardown m = v

theorem disabled_of_tornDown (h : (v.monitor m).tornDown = true) : Disabled m v where
  arithmeticCheck := run_arithmeticCheck_of_tornDown h
  callCheck := run_callCheck_of_tornDown h
  assign := run_assign_of_tornDown h
  enterCall := run_enterCall_of_tornDown h
  leaveCall := run_leaveCall_of_tornDown h
  searchCheck := run_searchCheck_of_tornDown h
  invoke call arguments _ hmethod := invoke_refused h call arguments hmethod
  teardown := teardown_of_tornDown h

/-- What a program does with its monitors consists of turns, and so does what it does while a function
runs that a check calls. -/
structure Unfolds (call : Call σ) (m : MonitorId) (u : World σ) : Prop where
  newMonitor : ∀ r checks, Evolves u (u.newMonitor r checks).2
  init : ∀ r checks, Evolves u (u.init r checks).2
  teardown : Evolves u (u.teardown m)
  teardownCurrent : Evolves u u.teardownCurrent
  release : Evolves u (u.release m)
  installGlobal : ∀ key, Evolves u (u.installGlobal m key).2
  identify : ∀ id, Evolves u (u.identify m id).2
  settings : ∀ checks sink, Evolves u (u.onMonitor m fun monitor => { monitor with checks, sink })
  calling : ∀ f arguments, Evolves u (u.calling m f arguments)
  arithmeticCheck : ∀ result left right operator location,
    Leads Evolves (arithmeticCheck call m result left right operator location) u
  callCheck : ∀ callee receiver arguments text location,
    Leads Evolves (callCheck call m callee receiver arguments text location) u
  assign : ∀ value target source, Leads Evolves (assign m value target source) u
  enterCall : ∀ parameters captured, Leads Evolves (enterCall m parameters captured) u
  leaveCall : Leads Evolves (leaveCall m) u
  searchCheck : ∀ key target, Leads Evolves (searchCheck call m key target) u
  invoke : ∀ method arguments, Leads Evolves (invoke call m method arguments) u
  /-- All else that a program does leaves the monitors and the realms alone. -/
  elsewhere : ∀ u' : World σ, u'.monitors = u.monitors → u'.realms = u.realms → Evolves u u'

theorem unfolds {call : Call σ} (hcall : CallLeads Evolves call) (m : MonitorId) (u : World σ) :
    Unfolds call m u where
  newMonitor r checks := evolves_perform u (.make r checks)
  init r checks := init_turns u r checks
  teardown := evolves_perform u (.tearDown m)
  teardownCurrent := teardownCurrent_turns u
  release := evolves_perform u (.release m)
  installGlobal := evolves_installGlobal u m
  identify := evolves_identify u m
  settings _ _ := evolves_onMonitor (fun _ => rfl) (fun _ => rfl) fun _ => rfl
  calling := evolves_calling u m
  arithmeticCheck _ _ _ _ _ := arithmeticCheck_leads handles_evolves hcall _ _ _ _ _ u
  callCheck _ _ _ _ _ := callCheck_leads handles_evolves hcall _ _ _ _ _ u
  assign _ _ _ := assign_evolves m _ _ _ u
  enterCall _ _ := enterCall_evolves m _ _ u
  leaveCall := leaveCall_evolves m u
  searchCheck _ _ := searchCheck_leads hcall _ _ u
  invoke _ _ := invoke_evolves hcall m _ _ u
  elsewhere _ := evolves_of_monitors

/-- A monitor that was made for a realm can be torn down at any time while it is in use: the realm
answers as it did when the monitor was made, the global object lets go of the hook object, and the
monitor is disabled for good. -/
theorem teardown_final (w : World σ) (r : RealmId) (checks : CheckConfig) (hr : r < w.realms.size) :
    (∀ u, Evolves (w.newMonitor r checks).2 u → u.LiveOn r (w.newMonitor r checks).1 →
      Dismantled r (w.newMonitor r checks).1 (w.reflection r) u
          (u.teardown (w.newMonitor r checks).1) ∧
        ∀ v, Evolves (u.teardown (w.newMonitor r checks).1) v →
          Disabled (w.newMonitor r checks).1 v) ∧
    ∀ call : Call σ, CallLeads Evolves call → ∀ m u, Unfolds call m u := by
  refine ⟨?_, fun call hcall m u => unfolds hcall m u⟩
  rintro _ ⟨turns, rfl⟩ hlive
  have hr' : r < ((w.newMonitor r checks).2.after turns).realms.size := by
    rwa [size_realms_after, size_realms_newMonitor]
  have hdown := dismantled_teardown hlive hr' hlive.saved
  refine ⟨hdown, fun v hv => disabled_of_tornDown (hv.tornDown ?_)⟩
  rw [hdown.monitor]

def aliased : World Unit :=
  (((bare.newMonitor 0 {}).2.installGlobal 0 "__rt").2.installGlobal 0 "alias").2

/-- It is also in a constant, there is another variable, and a function runs in a call of a call. -/
def entangled : World Unit :=
  let constant := { value := .object 10, configurable := false }
  let heap := (aliased.heap.change 0 fun o => ((o.define "kept" constant).2.set "x" .null)).2
  ((Monitor.enterCall 0 [some "a"] []).run { aliased with heap }).2.calling 0
    { behaviour := .routine 0 } [.null]

theorem teardown_final_entangled : 0 < bare.realms.size ∧
    Evolves (bare.newMonitor 0 {}).2 entangled ∧ entangled.LiveOn 0 0 ∧
    (entangled.monitor 0).tracer.depth = 2 ∧
    (entangled.heap.object 0).ownKeys = ["__rt", "alias", "kept", "x"] ∧
    ((entangled.teardown 0).heap.object 0).ownKeys = ["kept", "x"] ∧
    Dismantled 0 0 .native entangled (entangled.teardown 0) ∧ Disabled 0 (entangled.teardown 0) := by
  have hcall : CallLeads (@Evolves Unit) fun _ _ _ => throw .callDepth := fun _ _ _ _ => .throw _
  have hmade := unfolds hcall 0
  have haliased : Evolves (bare.newMonitor 0 {}).2 aliased :=
    trans_of Evolves ((hmade _).installGlobal "__rt") ((hmade _).installGlobal "alias")
  have hchanged : ∀ heap, Evolves aliased { aliased with heap } := fun heap =>
    (hmade aliased).elsewhere _ rfl rfl
  have hentered := fun heap => trans_of Evolves (hchanged heap) ((hmade _).enterCall [some "a"] [])
  have hreached : Evolves (bare.newMonitor 0 {}).2 entangled :=
    trans_of Evolves haliased (trans_of Evolves (hentered _) ((hmade _).calling _ _))
  have hlive : entangled.LiveOn 0 0 :=
    ⟨by decide +kernel, by decide +kernel, by decide +kernel, by decide +kernel⟩
  have hfinal := (teardown_final bare 0 {} (by decide)).1 entangled hreached hlive
  exact ⟨by decide, hreached, hlive, by decide +kernel, by decide +kernel, by decide +kernel, hfinal.1,
    hfinal.2 _ (refl_of Evolves _)⟩

end World

end CoercionTrace
