import CoercionTrace.Proofs.Monitor.Hidden

/-!
# Marks that outlast their monitors

Monitors come and go, and with them masks and hook objects; none of that changes a mark in the heap.
A hook object is taken out of the global object together with all properties that hold it, and a mark
is not among them as long as it is a number (`sparesMarks_teardown`). Of the marks that a program
forges nothing is asked.
-/

namespace CoercionTrace

variable {σ : Type} {m m' : MonitorId} {watched : MonitorId → Prop} {forged : ObjectId → Prop}

namespace World

variable {w u u' : World σ} {id : ObjectId} {i : TraceId}

theorem global_reflect (w : World σ) (r r' : RealmId) (R : Reflection) :
    ((w.reflect r R).realm r').global = (w.realm r').global := by
  simp only [realm, reflect, Array.getElem?_modify]
  split
  · cases w.realms[r']? <;> rfl
  · rfl

theorem sparesMarks_reflect (w : World σ) (r : RealmId) (R : Reflection) :
    SparesMarks watched forged w (w.reflect r R) :=
  ⟨fun _ _ hm => hm, fun _ _ => Nat.le_refl _, fun _ _ _ => global_reflect w r _ R, Nat.le_refl _,
    fun _ _ => rfl⟩

theorem sparesMarks_unmask (w : World σ) (m : MonitorId) : SparesMarks watched forged w (w.unmask m) := by
  have huninstall : SparesMarks watched forged w (w.uninstall (w.monitor m).mask).2 := by
    unfold uninstall
    split
    · exact refl_of (SparesMarks watched forged) w
    · exact sparesMarks_reflect w _ _
  have hmonitor : (w.uninstall (w.monitor m).mask).2.monitor m = w.monitor m := by
    rw [monitor, monitors_uninstall, monitor]
  rw [unmask_eq]
  refine trans_of (SparesMarks watched forged) huninstall (sparesMarks_onMonitor ?_ (Nat.le_refl _))
  rw [fst_uninstall, hmonitor]

theorem sparesMarks_newMonitor (w : World σ) (r : RealmId) (checks : CheckConfig) :
    SparesMarks watched forged w (w.newMonitor r checks).2 := by
  have hmonitor := monitor_newMonitor w r checks
  refine ⟨fun m _ hm => ?_, fun m _ => ?_, fun m _ hm => ?_, Nat.le_refl _, fun _ _ => rfl⟩
  · rw [size_newMonitor]
    exact Nat.lt_succ_of_lt hm
  · rw [nextId, nextId, hmonitor]
    split
    · next hm =>
      rw [monitor_of_absent (Nat.not_lt_of_le (Nat.le_of_eq hm.symm))]
      exact Nat.le_refl _
    · exact Nat.le_refl _
  · rw [globalOf, hmonitor, if_neg (Nat.ne_of_lt hm)]
    exact global_reflect w r _ _

theorem sparesMarks_hold (w : World σ) (m : MonitorId) : SparesMarks watched forged w (w.hold m) :=
  sparesMarks_onMonitor rfl (Nat.le_refl _)

theorem sparesMarks_release (w : World σ) (m : MonitorId) : SparesMarks watched forged w (w.release m) := by
  have hletGo : SparesMarks watched forged w (w.onMonitor m fun monitor =>
      { monitor with holders := monitor.holders - 1 }) := sparesMarks_onMonitor rfl (Nat.le_refl _)
  unfold release
  dsimp only
  split
  · exact trans_of (SparesMarks watched forged) hletGo (sparesMarks_unmask _ m)
  · exact hletGo

theorem sparesMarks_choose (w : World σ) (current : Option MonitorId) :
    SparesMarks watched forged w { w with current } :=
  ⟨fun _ _ hm => hm, fun _ _ => Nat.le_refl _, fun _ _ _ => rfl, Nat.le_refl _, fun _ _ => rfl⟩

def Genuine (forged : ObjectId → Prop) (w : World σ) : Prop :=
  ∀ id, ¬ forged id → w.mark? id ≠ none → w.traceId? id ≠ none

theorem property?_delete_ne {o : Object} {key key' : String} (h : key ≠ key') :
    (o.delete key).2.property? key' = o.property? key' := by
  unfold Object.delete
  split
  · split
    · exact Table.find?_erase_ne _ h
    · rfl
  · rfl

theorem property?_foldl_delete {keys : List String} {key : String} (o : Object) (h : key ∉ keys) :
    (keys.foldl (fun o key => (o.delete key).2) o).property? key = o.property? key := by
  induction keys generalizing o with
  | nil => rfl
  | cons key' keys ih =>
    rw [List.mem_cons, not_or] at h
    rw [List.foldl_cons, ih _ h.2, property?_delete_ne (Ne.symm h.1)]

theorem sparesMarks_put {o : Object}
    (h : ¬ forged id → o.property? traceIdProperty = w.mark? id) :
    SparesMarks watched forged w { w with heap := w.heap.put id o } := by
  refine sparesMarks_heap (Nat.le_of_eq Array.size_setIfInBounds.symm) fun id' hid' => ?_
  rcases Nat.lt_or_ge id w.heap.size with hid | hid
  · by_cases hne : id = id'
    · subst hne
      rw [Heap.object_put_self _ _ hid, h hid']
    · rw [Heap.object_put_ne _ _ hne, mark?]
  · have hput : w.heap.put id o = w.heap := congrArg Heap.mk (Array.setIfInBounds_eq_of_size_le hid)
    rw [hput, mark?]

theorem sparesMarks_identify_of_forged (hid : forged id) :
    SparesMarks watched forged w (w.identify m id).2 := by
  have hheap : SparesMarks watched forged w
      { w with heap := (w.heap.identify (w.globalOf m) (w.nextId m) id).2.2 } := by
    rw [Heap.identify]
    split
    · exact refl_of (SparesMarks watched forged) w
    · split
      · exact refl_of (SparesMarks watched forged) w
      · exact sparesMarks_put fun hgenuine => absurd hid hgenuine
  rw [identify_eq]
  dsimp only
  refine trans_of (SparesMarks watched forged) hheap (sparesMarks_onTracer ?_)
  exact le_next_identify w.heap (w.globalOf m) (w.nextId m) id

theorem notMem_keysHolding (h : w.Genuine forged) (hid : ¬ forged id) (handle : ObjectId) :
    traceIdProperty ∉ keysHolding (w.heap.object id) handle := by
  intro hmem
  have hheld := beq_iff_eq.1 (List.mem_filter.1 hmem).2
  cases hmark : w.mark? id with
  | none =>
    rw [Object.own?, show (w.heap.object id).property? traceIdProperty = none from hmark,
      Object.shown?_traceIdProperty] at hheld
    cases hheld
  | some p =>
    rw [Object.own?, show (w.heap.object id).property? traceIdProperty = some p from hmark] at hheld
    refine h id hid (by simp [hmark]) ?_
    rw [traceId?, Object.traceId?,
      show (w.heap.object id).property? traceIdProperty = some p from hmark]
    simp [Option.some.inj hheld, Value.number?]

theorem sparesMarks_removeHandle (h : w.Genuine forged) (r : RealmId) (handle : ObjectId) :
    SparesMarks watched forged w (w.removeHandle r handle) :=
  sparesMarks_put fun hid => property?_foldl_delete _ (notMem_keysHolding h hid handle)

theorem Genuine.spares (h : w.Genuine forged) (hs : SparesMarks watched forged w u) : u.Genuine forged := by
  intro id hid hmark
  rw [hs.marks id hid] at hmark
  rw [traceId?_of_mark? (hs.marks id hid)]
  exact h id hid hmark

theorem sparesMarks_stopped (w : World σ) (m : MonitorId) : SparesMarks watched forged w (w.stopped m) := by
  have hstop : ∀ u : World σ, SparesMarks watched forged u (u.onMonitor m fun monitor =>
      { monitor with tornDown := true, handle := none }) := fun _ =>
    sparesMarks_onMonitor rfl (Nat.le_refl _)
  exact trans_of (SparesMarks watched forged) (sparesMarks_unmask w m) (hstop _)

theorem sparesMarks_teardown (h : w.Genuine forged) (m : MonitorId) :
    SparesMarks watched forged w (w.teardown m) := by
  have hstopped : SparesMarks watched forged w (w.stopped m) := sparesMarks_stopped w m
  cases htornDown : (w.monitor m).tornDown with
  | true =>
    rw [teardown_of_tornDown htornDown]
    exact refl_of (SparesMarks watched forged) w
  | false =>
    rw [teardown_eq htornDown]
    split
    · exact hstopped
    · exact trans_of (SparesMarks watched forged) hstopped (sparesMarks_removeHandle (h.spares hstopped) _ _)

theorem sparesMarks_teardownCurrent (h : w.Genuine forged) :
    SparesMarks watched forged w w.teardownCurrent := by
  unfold teardownCurrent
  split
  · exact refl_of (SparesMarks watched forged) w
  · next m _ =>
    exact trans_of (SparesMarks watched forged) (trans_of (SparesMarks watched forged) (sparesMarks_teardown h m)
      (sparesMarks_release _ m)) (sparesMarks_choose _ none)

theorem sparesMarks_init (h : w.Genuine forged) (r : RealmId) (checks : CheckConfig) :
    SparesMarks watched forged w (w.init r checks).2 := by
  have hdown : SparesMarks watched forged w w.teardownCurrent := sparesMarks_teardownCurrent h
  rw [init_eq]
  generalize w.teardownCurrent = u at hdown ⊢
  have hmade : SparesMarks watched forged u ((u.newMonitor r checks).2.hold u.monitors.size) :=
    trans_of (SparesMarks watched forged) (sparesMarks_newMonitor u r checks)
      (sparesMarks_hold _ u.monitors.size)
  exact trans_of (SparesMarks watched forged) hdown
    (trans_of (SparesMarks watched forged) hmade (sparesMarks_choose _ _))

end World

end CoercionTrace
