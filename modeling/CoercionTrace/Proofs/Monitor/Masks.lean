import CoercionTrace.Monitor.Hook
import CoercionTrace.Proofs.Monitor.Balanced

/-!
# Masks on a realm

What making, tearing down and letting go of a monitor does to the masks of the others, and to what a
realm shows. A mask restores the reflection that it found, whatever happened in between
(`TakesOff.of_saved`).
-/

namespace CoercionTrace

namespace Reflection

def Hides (R : Reflection) : Prop :=
  ∀ o, R.hasOwn o traceIdProperty = false ∧ traceIdProperty ∉ R.ownNames o

def Agrees (R R' : Reflection) : Prop :=
  ∀ o, (∀ key, R.hasOwn o key = R'.hasOwn o key) ∧ R.ownNames o = R'.ownNames o

variable {R R' : Reflection}

theorem hasOwn_of_ne_native (h : R ≠ native) (o : Object) (key : String) :
    R.hasOwn o key = (key != traceIdProperty && o.hasOwn key) := by
  induction R with
  | native => exact absurd rfl h
  | masked inner ih =>
    cases inner with
    | native => rfl
    | masked inner =>
      rw [hasOwn, ih (by simp), ← Bool.and_assoc, Bool.and_self]

theorem ownNames_of_ne_native (h : R ≠ native) (o : Object) :
    R.ownNames o = o.ownKeys.filter fun key => key != traceIdProperty := by
  induction R with
  | native => exact absurd rfl h
  | masked inner ih =>
    cases inner with
    | native => rfl
    | masked inner => rw [ownNames, ih (by simp), List.filter_filter, funext fun _ => Bool.and_self _]

theorem hides_iff : R.Hides ↔ R ≠ native := by
  constructor
  · rintro h rfl
    have hmark : (scopeToken 0).hasOwn traceIdProperty = true := by decide +kernel
    exact absurd ((h (scopeToken 0)).1.symm.trans hmark) Bool.false_ne_true
  · intro h o
    rw [hasOwn_of_ne_native h, ownNames_of_ne_native h]
    simp

theorem agrees_iff : R.Agrees R' ↔ (R.Hides ↔ R'.Hides) := by
  constructor
  · intro h
    simp only [Hides, (h _).1, (h _).2]
  · intro h o
    rw [hides_iff, hides_iff] at h
    by_cases hR : R = native
    · have hR' : R' = native := Classical.byContradiction fun hne => h.2 hne hR
      rw [hR, hR']
      exact ⟨fun _ => rfl, rfl⟩
    · have hR' : R' ≠ native := h.1 hR
      rw [ownNames_of_ne_native hR, ownNames_of_ne_native hR']
      exact ⟨fun key => by rw [hasOwn_of_ne_native hR, hasOwn_of_ne_native hR'], rfl⟩

end Reflection

variable {σ : Type} {m m' : MonitorId} {r r' : RealmId}

namespace World

def reflection (w : World σ) (r : RealmId) : Reflection := (w.realm r).reflection

variable {w w' : World σ} {R : Reflection}

theorem monitor_onMonitor_ne (h : m' ≠ m) (w : World σ) (f : Monitor → Monitor) :
    (w.onMonitor m f).monitor m' = w.monitor m' := by
  simp [monitor, onMonitor, Array.getElem?_modify, Ne.symm h]

theorem size_onMonitor (w : World σ) (m : MonitorId) (f : Monitor → Monitor) :
    (w.onMonitor m f).monitors.size = w.monitors.size := Array.size_modify

theorem reflection_onMonitor (w : World σ) (m : MonitorId) (f : Monitor → Monitor) :
    (w.onMonitor m f).reflection r = w.reflection r := rfl

theorem monitor_of_absent (h : ¬ m < w.monitors.size) : w.monitor m = default := by
  rw [monitor, Array.getElem?_eq_none (Nat.le_of_not_lt h)]
  rfl

theorem reflection_reflect (w : World σ) (r r' : RealmId) (R : Reflection) :
    (w.reflect r R).reflection r' = if r' = r ∧ r < w.realms.size then R else w.reflection r' := by
  simp only [reflection, realm, reflect, Array.getElem?_modify]
  by_cases hr : r = r'
  · subst hr
    by_cases hsize : r < w.realms.size <;> simp [hsize]
  · simp [hr, Ne.symm hr]

theorem size_reflect (w : World σ) (r : RealmId) (R : Reflection) :
    (w.reflect r R).realms.size = w.realms.size := Array.size_modify

theorem monitor_newMonitor (w : World σ) (r : RealmId) (checks : CheckConfig) (m : MonitorId) :
    (w.newMonitor r checks).2.monitor m =
      if m = w.monitors.size then { mask := ⟨r, some (w.reflection r)⟩, checks } else w.monitor m := by
  simp only [monitor, newMonitor, install, reflect, reflection, Array.getElem?_push]
  split <;> rfl

theorem size_newMonitor (w : World σ) (r : RealmId) (checks : CheckConfig) :
    (w.newMonitor r checks).2.monitors.size = w.monitors.size + 1 := by
  simp [newMonitor, install, reflect]

theorem reflection_newMonitor (w : World σ) (r : RealmId) (checks : CheckConfig) (r' : RealmId) :
    (w.newMonitor r checks).2.reflection r' =
      if r' = r ∧ r < w.realms.size then .masked (w.reflection r) else w.reflection r' :=
  reflection_reflect w r r' (.masked (w.reflection r))

theorem size_realms_newMonitor (w : World σ) (r : RealmId) (checks : CheckConfig) :
    (w.newMonitor r checks).2.realms.size = w.realms.size := size_reflect w r _

theorem unmask_eq (w : World σ) (m : MonitorId) : w.unmask m =
    (w.uninstall (w.monitor m).mask).2.onMonitor m fun monitor =>
      { monitor with mask := (w.uninstall (w.monitor m).mask).1 } := rfl

/-- The mask of a monitor is taken off for good, if it was still on; nothing else changes that bears
on masks. -/
structure TakesOff (m : MonitorId) (w w' : World σ) : Prop where
  size : w'.monitors.size = w.monitors.size
  others : ∀ m', m' ≠ m → w'.monitor m' = w.monitor m'
  mask : (w'.monitor m).mask = { (w.monitor m).mask with saved := none }
  realms : w'.realms.size = w.realms.size
  reflection : ∀ r, w'.reflection r = match (w.monitor m).mask.saved with
    | none => w.reflection r
    | some R => (w.reflect (w.monitor m).mask.realm R).reflection r

theorem monitors_uninstall (w : World σ) (mask : Mask) :
    (w.uninstall mask).2.monitors = w.monitors := by
  unfold uninstall
  split <;> rfl

theorem fst_uninstall (w : World σ) (mask : Mask) :
    (w.uninstall mask).1 = { mask with saved := none } := by
  unfold uninstall
  split
  · next h => rw [← h]
  · rfl

theorem monitor_unmask (w : World σ) (m : MonitorId) :
    (w.unmask m).monitor m =
      { w.monitor m with mask := { (w.monitor m).mask with saved := none } } := by
  have hmonitor : (w.uninstall (w.monitor m).mask).2.monitor m = w.monitor m := by
    rw [monitor, monitors_uninstall, monitor]
  rw [unmask_eq, monitor_onMonitor, hmonitor, fst_uninstall, monitors_uninstall]
  split
  · rfl
  · next habsent =>
    rw [monitor_of_absent habsent]
    rfl

theorem takesOff_unmask (w : World σ) (m : MonitorId) : TakesOff m w (w.unmask m) where
  size := by rw [unmask_eq, size_onMonitor, monitors_uninstall]
  others m' hne := by
    rw [unmask_eq, monitor_onMonitor_ne hne, monitor, monitors_uninstall, monitor]
  mask := by rw [monitor_unmask]
  realms := by
    rw [unmask_eq, onMonitor, uninstall]
    split
    · rfl
    · exact size_reflect w _ _
  reflection r := by
    rw [unmask_eq, reflection_onMonitor, uninstall]
    cases (w.monitor m).mask.saved <;> rfl

theorem TakesOff.of_saved_none (h : TakesOff m w w') (hsaved : (w.monitor m).mask.saved = none)
    (r : RealmId) : w'.reflection r = w.reflection r := by
  rw [h.reflection, hsaved]

theorem TakesOff.of_saved (h : TakesOff m w w') (hsaved : (w.monitor m).mask.saved = some R)
    (r : RealmId) : w'.reflection r =
      if r = (w.monitor m).mask.realm ∧ (w.monitor m).mask.realm < w.realms.size then R
      else w.reflection r := by
  rw [h.reflection, hsaved]
  exact reflection_reflect w _ r R

structure KeepsMasks (w w' : World σ) : Prop where
  size : w'.monitors.size = w.monitors.size
  mask : ∀ m, (w'.monitor m).mask = (w.monitor m).mask
  tornDown : ∀ m, (w'.monitor m).tornDown = (w.monitor m).tornDown
  realms : w'.realms.size = w.realms.size
  reflection : ∀ r, w'.reflection r = w.reflection r

instance : IsPreorder (World σ) KeepsMasks where
  refl _ := ⟨rfl, fun _ => rfl, fun _ => rfl, rfl, fun _ => rfl⟩
  trans _ _ _ h h' := ⟨h'.size.trans h.size, fun m => (h'.mask m).trans (h.mask m),
    fun m => (h'.tornDown m).trans (h.tornDown m), h'.realms.trans h.realms,
    fun r => (h'.reflection r).trans (h.reflection r)⟩

theorem keepsMasks_onMonitor {f : Monitor → Monitor}
    (hmask : (f (w.monitor m)).mask = (w.monitor m).mask)
    (htornDown : (f (w.monitor m)).tornDown = (w.monitor m).tornDown) :
    KeepsMasks w (w.onMonitor m f) := by
  have hmonitor : ∀ m', ((w.onMonitor m f).monitor m').mask = (w.monitor m').mask ∧
      ((w.onMonitor m f).monitor m').tornDown = (w.monitor m').tornDown := fun m' => by
    by_cases hm : m' = m
    · subst hm
      rw [monitor_onMonitor]
      split
      · exact ⟨hmask, htornDown⟩
      · exact ⟨rfl, rfl⟩
    · rw [monitor_onMonitor_ne hm]
      exact ⟨rfl, rfl⟩
  exact ⟨size_onMonitor w m f, fun m' => (hmonitor m').1, fun m' => (hmonitor m').2, rfl, fun _ => rfl⟩

theorem keepsMasks_hold (w : World σ) (m : MonitorId) : KeepsMasks w (w.hold m) :=
  keepsMasks_onMonitor rfl rfl

theorem keepsMasks_choose (w : World σ) (current : Option MonitorId) :
    KeepsMasks w { w with current } :=
  ⟨rfl, fun _ => rfl, fun _ => rfl, rfl, fun _ => rfl⟩

theorem TakesOff.keepsMasks (h : TakesOff m w w') (hsaved : (w.monitor m).mask.saved = none)
    (htornDown : (w'.monitor m).tornDown = (w.monitor m).tornDown) : KeepsMasks w w' where
  size := h.size
  mask m' := by
    by_cases hm : m' = m
    · rw [hm, h.mask, ← hsaved]
    · rw [h.others m' hm]
  tornDown m' := by
    by_cases hm : m' = m
    · rw [hm, htornDown]
    · rw [h.others m' hm]
  realms := h.realms
  reflection := h.of_saved_none hsaved

theorem teardown_of_tornDown (h : (w.monitor m).tornDown = true) : w.teardown m = w := if_pos h

/-- The world in which a monitor that is torn down is disabled, and its hook object not yet removed. -/
def stopped (w : World σ) (m : MonitorId) : World σ :=
  (w.unmask m).onMonitor m fun monitor => { monitor with tornDown := true, handle := none }

theorem teardown_eq (h : (w.monitor m).tornDown = false) :
    w.teardown m = match (w.monitor m).handle with
      | none => w.stopped m
      | some handle => (w.stopped m).removeHandle ((w.stopped m).monitor m).mask.realm handle := by
  rw [teardown, if_neg (by simp [h])]
  rfl

theorem monitors_teardown (h : (w.monitor m).tornDown = false) :
    (w.teardown m).monitors = (w.stopped m).monitors := by
  rw [teardown_eq h]
  split <;> rfl

theorem realms_teardown (h : (w.monitor m).tornDown = false) :
    (w.teardown m).realms = (w.unmask m).realms := by
  rw [teardown_eq h]
  split <;> rfl

theorem monitor_teardown (h : (w.monitor m).tornDown = false) (hm : m < w.monitors.size) :
    (w.teardown m).monitor m =
      { (w.unmask m).monitor m with tornDown := true, handle := none } := by
  have hsize := (takesOff_unmask w m).size
  rw [monitor, monitors_teardown h, ← monitor, stopped, monitor_onMonitor, if_pos (hsize ▸ hm)]

theorem takesOff_teardown (h : (w.monitor m).tornDown = false) : TakesOff m w (w.teardown m) where
  size := by rw [monitors_teardown h, stopped, size_onMonitor, (takesOff_unmask w m).size]
  others m' hne := by
    rw [monitor, monitors_teardown h, ← monitor, stopped, monitor_onMonitor_ne hne,
      (takesOff_unmask w m).others m' hne]
  mask := by
    rw [monitor, monitors_teardown h, ← monitor, stopped, monitor_onMonitor,
      ← (takesOff_unmask w m).mask]
    split <;> rfl
  realms := by rw [realms_teardown h, (takesOff_unmask w m).realms]
  reflection r := by
    rw [reflection, realm, realms_teardown h, ← realm, ← reflection, (takesOff_unmask w m).reflection]

theorem current_unmask (w : World σ) (m : MonitorId) : (w.unmask m).current = w.current := by
  rw [unmask_eq, onMonitor, uninstall]
  split <;> rfl

theorem current_teardown (w : World σ) (m : MonitorId) : (w.teardown m).current = w.current := by
  cases h : (w.monitor m).tornDown with
  | true => rw [teardown_of_tornDown h]
  | false =>
    rw [teardown_eq h, ← current_unmask w m]
    split <;> rfl

theorem release_cases (w : World σ) (m : MonitorId) :
    let u := w.onMonitor m fun monitor => { monitor with holders := monitor.holders - 1 }
    (u.monitor m).holders ≠ 0 ∧ w.release m = u ∨
      (w.release m).monitor m = { (w.unmask m).monitor m with holders := 0 } ∧
        TakesOff m w (w.release m) := by
  intro u
  by_cases hheld : (u.monitor m).holders = 0
  · have hrelease : w.release m = u.unmask m := if_pos hheld
    have hoff := takesOff_unmask u m
    have hu : u.monitor m = { w.monitor m with holders := 0 } := by
      rw [← hheld]
      simp only [u, monitor_onMonitor]
      split <;> rfl
    refine .inr ⟨?_, ?_⟩
    · rw [hrelease, monitor_unmask, hu, monitor_unmask]
    · rw [hrelease]
      refine ⟨hoff.size.trans (size_onMonitor _ _ _), fun m' hne => ?_, ?_, hoff.realms, fun r => ?_⟩
      · exact (hoff.others m' hne).trans (monitor_onMonitor_ne hne _ _)
      · rw [hoff.mask, hu]
      · rw [hoff.reflection, hu]
        rfl
  · exact .inl ⟨hheld, if_neg hheld⟩

theorem keepsMasks_release (h : (w.monitor m).mask.saved = none) : KeepsMasks w (w.release m) := by
  rcases release_cases w m with ⟨-, hrelease⟩ | ⟨hself, hoff⟩
  · rw [hrelease]
    exact keepsMasks_onMonitor rfl rfl
  · refine hoff.keepsMasks h ?_
    rw [hself, monitor_unmask]

theorem current_release (w : World σ) (m : MonitorId) : (w.release m).current = w.current := by
  unfold release
  dsimp only
  split
  · exact current_unmask _ m
  · rfl

theorem init_eq (w : World σ) (r : RealmId) (checks : CheckConfig) :
    let u := w.teardownCurrent
    w.init r checks = (u.monitors.size,
      { (u.newMonitor r checks).2.hold u.monitors.size with current := some u.monitors.size }) := rfl

theorem size_teardown (w : World σ) (m : MonitorId) :
    (w.teardown m).monitors.size = w.monitors.size := by
  cases h : (w.monitor m).tornDown with
  | true => rw [teardown_of_tornDown h]
  | false => exact (takesOff_teardown h).size

theorem size_release (w : World σ) (m : MonitorId) :
    (w.release m).monitors.size = w.monitors.size := by
  rcases release_cases w m with ⟨-, h⟩ | ⟨-, h⟩
  · rw [h, size_onMonitor]
  · exact h.size

theorem size_teardownCurrent (w : World σ) :
    w.teardownCurrent.monitors.size = w.monitors.size := by
  unfold teardownCurrent
  split
  · rfl
  · next m _ => exact (size_release _ m).trans (size_teardown w m)

theorem current_teardownCurrent (w : World σ) : w.teardownCurrent.current = none := by
  unfold teardownCurrent
  split
  · assumption
  · rfl

theorem fst_init (w : World σ) (r : RealmId) (checks : CheckConfig) :
    (w.init r checks).1 = w.monitors.size := by
  rw [init_eq]
  exact size_teardownCurrent w

theorem size_init (w : World σ) (r : RealmId) (checks : CheckConfig) :
    (w.init r checks).2.monitors.size = w.monitors.size + 1 := by
  rw [init_eq]
  dsimp only
  rw [hold, size_onMonitor, size_newMonitor, size_teardownCurrent]

theorem current_init (w : World σ) (r : RealmId) (checks : CheckConfig) :
    (w.init r checks).2.current = some (w.init r checks).1 := by
  rw [init_eq]

theorem run_invoke_teardown (call : Call σ) (m : MonitorId) (arguments : List Value) (w : World σ) :
    ((Monitor.invoke call m .teardown arguments).run w).2 =
      if (w.monitor m).holders = 0 then w else ((w.hold m).teardown m).release m := by
  have hinvoke : (Monitor.invoke call m .teardown arguments).run w =
      (if (w.monitor m).holders = 0 then throw .tornDown
        else Monitor.holding m (Monitor.perform call m arguments .teardown) :
          HostM σ Value).run w := rfl
  have hheld : (Monitor.holding m (Monitor.perform call m arguments .teardown)).run w =
      ((Monitor.perform call m arguments .teardown).andFinally fun w => w.release m).run
        (w.hold m) := rfl
  have hperform : ((Monitor.perform call m arguments .teardown).run (w.hold m)).2 =
      (w.hold m).teardown m := rfl
  rw [hinvoke]
  split
  · rfl
  · rw [hheld, HostM.run_andFinally, hperform]

end World

end CoercionTrace
