import Mathlib.Data.List.Induction
import CoercionTrace.Proofs.Monitor.Masks

/-!
# The current monitor

Programs that are instrumented one by one share a monitor: the current one. A new one is made after
the one before was torn down, so there is never more than one mask. Main statement: only the current
monitor ever works, and no realm but its own shows that there is a monitor (`current_exclusive`).
-/

namespace CoercionTrace

variable {σ : Type} {m m' : MonitorId} {r r' : RealmId}

inductive Demand (σ : Type)
  | init (r : RealmId) (checks : CheckConfig)
  | tearDownCurrent
  | tearDown (m : MonitorId)
  | invoke (call : Call σ) (m : MonitorId) (arguments : List Value)
  | other (f : World σ → World σ)
      (keeps : ∀ w, World.KeepsMasks w (f w) ∧ (f w).current = w.current)

namespace Demand

def Spares (m : MonitorId) : Demand σ → Prop
  | init _ _ | tearDownCurrent => False
  | tearDown m' | invoke _ m' _ => m' ≠ m
  | other _ _ => True

end Demand

namespace World

variable {w u u' : World σ} {demand : Demand σ} {demands : List (Demand σ)}

def serve (w : World σ) : Demand σ → World σ
  | .init r checks => (w.init r checks).2
  | .tearDownCurrent => w.teardownCurrent
  | .tearDown m => w.teardown m
  | .invoke call m arguments => ((Monitor.invoke call m .teardown arguments).run w).2
  | .other f _ => f w

def served (w : World σ) (demands : List (Demand σ)) : World σ := demands.foldl serve w

theorem served_append (w : World σ) (demands demands' : List (Demand σ)) :
    w.served (demands ++ demands') = (w.served demands).served demands' := List.foldl_append

theorem served_concat (w : World σ) (demands : List (Demand σ)) (demand : Demand σ) :
    w.served (demands ++ [demand]) = (w.served demands).serve demand := served_append ..

def Retired (m : MonitorId) (u : World σ) : Prop :=
  (u.monitor m).tornDown = true ∧ (u.monitor m).mask.saved = none

structure Idle (w u : World σ) : Prop where
  retired : ∀ m, m < u.monitors.size → u.Retired m
  realms : u.realms.size = w.realms.size
  reflection : ∀ r, u.reflection r = w.reflection r

structure Serves (m : MonitorId) (r : RealmId) (w u : World σ) : Prop where
  present : m < u.monitors.size
  current : u.current = some m
  working : (u.monitor m).tornDown = false
  mask : (u.monitor m).mask = ⟨r, some (w.reflection r)⟩
  retired : ∀ m', m' < u.monitors.size → m' ≠ m → u.Retired m'
  exists_realm : r < w.realms.size
  realms : u.realms.size = w.realms.size
  reflection : ∀ r', u.reflection r' =
    if r' = r then .masked (w.reflection r) else w.reflection r'

theorem KeepsMasks.retired_iff (h : KeepsMasks u u') : u'.Retired m ↔ u.Retired m := by
  rw [Retired, Retired, h.tornDown, h.mask]

theorem Idle.keeps (h : Idle w u) (hk : KeepsMasks u u') : Idle w u' where
  retired m hm := hk.retired_iff.2 (h.retired m (hk.size ▸ hm))
  realms := hk.realms.trans h.realms
  reflection r := (hk.reflection r).trans (h.reflection r)

theorem Serves.keeps (h : Serves m r w u) (hk : KeepsMasks u u') (hcurrent : u'.current = u.current) :
    Serves m r w u' where
  present := hk.size.symm ▸ h.present
  current := hcurrent.trans h.current
  working := (hk.tornDown m).trans h.working
  mask := (hk.mask m).trans h.mask
  retired m' hm' hne := hk.retired_iff.2 (h.retired m' (hk.size ▸ hm') hne)
  exists_realm := h.exists_realm
  realms := hk.realms.trans h.realms
  reflection r' := (hk.reflection r').trans (h.reflection r')

theorem saved_of_retired (h : m < u.monitors.size → u.Retired m) :
    (u.monitor m).mask.saved = none := by
  by_cases hm : m < u.monitors.size
  · exact (h hm).2
  · rw [monitor_of_absent hm]
    rfl

theorem keepsMasks_teardown (h : m < u.monitors.size → u.Retired m) : KeepsMasks u (u.teardown m) := by
  cases htornDown : (u.monitor m).tornDown with
  | true =>
    rw [teardown_of_tornDown htornDown]
    exact refl_of KeepsMasks u
  | false =>
    have hm : ¬ m < u.monitors.size := fun hm => by simp [(h hm).1] at htornDown
    have hoff := takesOff_teardown htornDown
    refine hoff.keepsMasks (saved_of_retired h) ?_
    rw [monitor_of_absent hm, monitor_of_absent (hoff.size.symm ▸ hm)]

theorem Idle.teardown (h : Idle w u) (m : MonitorId) : Idle w (u.teardown m) :=
  h.keeps (keepsMasks_teardown (h.retired m))

theorem Serves.teardown_ne (h : Serves m r w u) (hne : m' ≠ m) : Serves m r w (u.teardown m') :=
  h.keeps (keepsMasks_teardown fun hm' => h.retired m' hm' hne) (current_teardown u m')

theorem Serves.teardown (h : Serves m r w u) : Idle w (u.teardown m) where
  retired m' hm' := by
    have hoff := takesOff_teardown h.working
    by_cases hne : m' = m
    · subst hne
      refine ⟨?_, by rw [hoff.mask]⟩
      rw [monitor_teardown h.working h.present]
    · rw [Retired, hoff.others m' hne]
      exact h.retired m' (hoff.size ▸ hm') hne
  realms := (takesOff_teardown h.working).realms.trans h.realms
  reflection r' := by
    have hr : r < u.realms.size := h.realms.symm ▸ h.exists_realm
    rw [(takesOff_teardown h.working).of_saved (congrArg Mask.saved h.mask), h.mask]
    by_cases hr' : r' = r
    · rw [if_pos ⟨hr', hr⟩, hr']
    · rw [if_neg fun h => hr' h.1, h.reflection, if_neg hr']

theorem Idle.release (h : Idle w u) (m : MonitorId) : Idle w (u.release m) :=
  h.keeps (keepsMasks_release (saved_of_retired (h.retired m)))

theorem Idle.invoke (h : Idle w u) (call : Call σ) (m : MonitorId) (arguments : List Value) :
    Idle w ((Monitor.invoke call m .teardown arguments).run u).2 := by
  rw [run_invoke_teardown]
  split
  · exact h
  · exact ((h.keeps (keepsMasks_hold u m)).teardown m).release m

theorem Serves.invoke (h : Serves m r w u) (call : Call σ) (arguments : List Value) :
    Idle w ((Monitor.invoke call m .teardown arguments).run u).2 ∨
      Serves m r w ((Monitor.invoke call m .teardown arguments).run u).2 := by
  rw [run_invoke_teardown]
  split
  · exact .inr h
  · exact .inl ((h.keeps (keepsMasks_hold u m) rfl).teardown.release m)

theorem Serves.invoke_ne (h : Serves m r w u) (hne : m' ≠ m) (call : Call σ)
    (arguments : List Value) :
    Serves m r w ((Monitor.invoke call m' .teardown arguments).run u).2 := by
  rw [run_invoke_teardown]
  split
  · exact h
  · have hu := (h.keeps (keepsMasks_hold u m') rfl).teardown_ne hne
    exact hu.keeps (keepsMasks_release (saved_of_retired fun hm' => hu.retired m' hm' hne))
      (current_release _ m')

theorem idle_teardownCurrent (h : Idle w u ∨ ∃ m r, Serves m r w u) : Idle w u.teardownCurrent := by
  unfold teardownCurrent
  split
  · next hnone =>
    rcases h with h | ⟨m, r, h⟩
    · exact h
    · rw [h.current] at hnone
      cases hnone
  · next m hm =>
    have hidle : Idle w (u.teardown m) := by
      rcases h with h | ⟨m', r, h⟩
      · exact h.teardown m
      · rw [h.current] at hm
        cases hm
        exact h.teardown
    exact (hidle.release m).keeps (keepsMasks_choose _ none)

theorem Idle.newMonitor (h : Idle w u) (hr : r < w.realms.size) (checks : CheckConfig) :
    Serves u.monitors.size r w
      { (u.newMonitor r checks).2 with current := some u.monitors.size } := by
  have hsize := size_newMonitor u r checks
  have hmonitor := monitor_newMonitor u r checks
  have hreflection := reflection_newMonitor u r checks
  refine ⟨?_, rfl, ?_, ?_, fun m hm hne => ?_, hr, ?_, fun r' => ?_⟩
  · exact hsize ▸ Nat.lt_succ_self _
  · exact congrArg Monitor.tornDown ((hmonitor _).trans (if_pos rfl))
  · rw [← h.reflection]
    exact congrArg Monitor.mask ((hmonitor _).trans (if_pos rfl))
  · have hm' : m < u.monitors.size :=
      Nat.lt_of_le_of_ne (Nat.le_of_lt_succ (Nat.lt_of_lt_of_eq hm hsize)) hne
    have hsame := (hmonitor m).trans (if_neg hne)
    exact ⟨(congrArg Monitor.tornDown hsame).trans (h.retired m hm').1,
      (congrArg (fun monitor => monitor.mask.saved) hsame).trans (h.retired m hm').2⟩
  · exact (size_realms_newMonitor u r checks).trans h.realms
  · refine (hreflection r').trans ?_
    rw [h.reflection, h.reflection, h.realms]
    by_cases hr' : r' = r
    · rw [if_pos ⟨hr', hr⟩, if_pos hr']
    · rw [if_neg fun h => hr' h.1, if_neg hr']

theorem serves_init (h : Idle w u ∨ ∃ m r, Serves m r w u) (hr : r < w.realms.size)
    (checks : CheckConfig) : Serves (u.init r checks).1 r w (u.init r checks).2 := by
  have hidle := idle_teardownCurrent h
  rw [init_eq]
  generalize u.teardownCurrent = v at hidle ⊢
  exact (hidle.newMonitor hr checks).keeps (keepsMasks_hold _ v.monitors.size) rfl

theorem Serves.serve (h : Serves m r w u) (hdemand : demand.Spares m) :
    Serves m r w (u.serve demand) := by
  cases demand with
  | init | tearDownCurrent => exact hdemand.elim
  | tearDown m' => exact h.teardown_ne hdemand
  | invoke call m' arguments => exact h.invoke_ne hdemand call arguments
  | other f keeps => exact h.keeps (keeps u).1 (keeps u).2

theorem Serves.served (h : Serves m r w u) (hdemands : ∀ demand ∈ demands, demand.Spares m) :
    Serves m r w (u.served demands) := by
  induction demands generalizing u with
  | nil => exact h
  | cons demand demands ih =>
    rw [List.forall_mem_cons] at hdemands
    exact ih (h.serve hdemands.1) hdemands.2

theorem idle_or_serves (h : Idle w u ∨ ∃ m r, Serves m r w u)
    (hrealms : ∀ r checks, demand = .init r checks → r < w.realms.size) :
    Idle w (u.serve demand) ∨ ∃ m r, Serves m r w (u.serve demand) := by
  cases demand with
  | init r checks => exact .inr ⟨_, r, serves_init h (hrealms r checks rfl) checks⟩
  | tearDownCurrent => exact .inl (idle_teardownCurrent h)
  | tearDown m' =>
    rcases h with h | ⟨m, r, h⟩
    · exact .inl (h.teardown m')
    · by_cases hne : m' = m
      · subst hne
        exact .inl h.teardown
      · exact .inr ⟨m, r, h.teardown_ne hne⟩
  | invoke call m' arguments =>
    rcases h with h | ⟨m, r, h⟩
    · exact .inl (h.invoke call m' arguments)
    · by_cases hne : m' = m
      · subst hne
        exact (h.invoke call arguments).imp_right fun h => ⟨m', r, h⟩
      · exact .inr ⟨m, r, h.invoke_ne hne call arguments⟩
  | other f keeps =>
    rcases h with h | ⟨m, r, h⟩
    · exact .inl (h.keeps (keeps u).1)
    · exact .inr ⟨m, r, h.keeps (keeps u).1 (keeps u).2⟩

theorem idle_or_serves_served (hw : w.monitors = #[])
    (hrealms : ∀ r checks, .init r checks ∈ demands → r < w.realms.size) :
    Idle w (w.served demands) ∨ ∃ m r, Serves m r w (w.served demands) := by
  induction demands using List.reverseRecOn with
  | nil =>
    refine .inl ⟨fun m hm => ?_, rfl, fun _ => rfl⟩
    change m < w.monitors.size at hm
    rw [hw] at hm
    exact absurd hm (Nat.not_lt_zero m)
  | append_singleton demands demand ih =>
    rw [served_concat]
    refine idle_or_serves (ih fun r checks h => ?_) fun r checks h => ?_
    · exact hrealms r checks (List.mem_append_left _ h)
    · exact hrealms r checks (by simp [h])

theorem serves_of_working (h : Idle w u ∨ ∃ m r, Serves m r w u) (hm : m < u.monitors.size)
    (hworking : (u.monitor m).tornDown = false) : ∃ r, Serves m r w u := by
  rcases h with h | ⟨m', r, h⟩
  · simp [(h.retired m hm).1] at hworking
  · by_cases hne : m = m'
    · exact ⟨r, hne ▸ h⟩
    · simp [(h.retired m hm hne).1] at hworking

theorem current_invoke (call : Call σ) (m : MonitorId) (arguments : List Value) (u : World σ) :
    ((Monitor.invoke call m .teardown arguments).run u).2.current = u.current := by
  rw [run_invoke_teardown]
  split
  · rfl
  · rw [current_release, current_teardown, hold, onMonitor]

theorem size_invoke (call : Call σ) (m : MonitorId) (arguments : List Value) (u : World σ) :
    ((Monitor.invoke call m .teardown arguments).run u).2.monitors.size = u.monitors.size := by
  rw [run_invoke_teardown]
  split
  · rfl
  · rw [size_release, size_teardown, hold, size_onMonitor]

theorem serve_cases (u : World σ) (demand : Demand σ) :
    (∃ r checks, demand = .init r checks) ∨ demand = .tearDownCurrent ∨
      (∀ r checks, demand ≠ .init r checks) ∧ demand ≠ .tearDownCurrent ∧
        (u.serve demand).current = u.current ∧
        (u.serve demand).monitors.size = u.monitors.size := by
  cases demand with
  | init r checks => exact .inl ⟨r, checks, rfl⟩
  | tearDownCurrent => exact .inr (.inl rfl)
  | tearDown m =>
    exact .inr (.inr ⟨by simp, by simp, current_teardown u m, size_teardown u m⟩)
  | invoke call m arguments =>
    exact .inr (.inr ⟨by simp, by simp, current_invoke call m arguments u,
      size_invoke call m arguments u⟩)
  | other f keeps => exact .inr (.inr ⟨by simp, by simp, (keeps u).2, (keeps u).1.size⟩)

theorem split_concat {before later : List (Demand σ)} {demand' : Demand σ}
    (h : demands ++ [demand] = before ++ demand' :: later) :
    demands = before ∧ demand = demand' ∧ later = [] ∨
      ∃ later', later = later' ++ [demand] ∧ demands = before ++ demand' :: later' := by
  rcases List.eq_nil_or_concat later with rfl | ⟨later', last, rfl⟩
  · obtain ⟨rfl, hlast⟩ := List.append_inj' h rfl
    exact .inl ⟨rfl, List.head_eq_of_cons_eq hlast, rfl⟩
  · rw [List.concat_eq_append, ← List.cons_append, ← List.append_assoc] at h
    obtain ⟨rfl, hlast⟩ := List.append_inj' h rfl
    cases hlast
    exact .inr ⟨later', List.concat_eq_append, rfl⟩

def GivenUp (demands : List (Demand σ)) : Prop :=
  ∀ before r checks later, demands = before ++ .init r checks :: later → .tearDownCurrent ∈ later

theorem givenUp_tearDownCurrent (demands : List (Demand σ)) :
    GivenUp (demands ++ [.tearDownCurrent]) := by
  intro before r checks later h
  obtain ⟨-, hinit, -⟩ | ⟨later', rfl, -⟩ := split_concat h
  · cases hinit
  · exact List.mem_append_right _ (List.mem_singleton_self _)

theorem not_givenUp_init {checks : CheckConfig} : ¬ GivenUp (demands ++ [.init r checks]) := by
  intro h
  exact absurd (h demands r checks [] rfl) List.not_mem_nil

theorem givenUp_concat_iff (hinit : ∀ r checks, demand ≠ .init r checks)
    (hgives : demand ≠ .tearDownCurrent) :
    GivenUp (demands ++ [demand]) ↔ GivenUp demands := by
  constructor
  · rintro h before r checks later rfl
    have hmem := h before r checks (later ++ [demand]) (by simp)
    exact (List.mem_append.1 hmem).resolve_right fun hlast =>
      hgives (List.mem_singleton.1 hlast).symm
  · intro h before r checks later hsplit
    obtain ⟨-, hlast, -⟩ | ⟨later', rfl, hdemands⟩ := split_concat hsplit
    · exact absurd hlast (hinit r checks)
    · exact List.mem_append_left _ (h before r checks later' hdemands)

theorem current_eq_none_iff (hcurrent : w.current = none) :
    (w.served demands).current = none ↔ GivenUp demands := by
  induction demands using List.reverseRecOn with
  | nil =>
    refine iff_of_true hcurrent fun before r checks later h => ?_
    simp at h
  | append_singleton demands demand ih =>
    rw [served_concat]
    rcases serve_cases (w.served demands) demand with
      ⟨r, checks, rfl⟩ | rfl | ⟨hinit, hgives, hsame, -⟩
    · refine iff_of_false (fun h => ?_) not_givenUp_init
      rw [serve, current_init] at h
      cases h
    · exact iff_of_true (current_teardownCurrent _) (givenUp_tearDownCurrent demands)
    · rw [hsame, ih, givenUp_concat_iff hinit hgives]

def Returned (w : World σ) (demands : List (Demand σ)) (m : MonitorId) : Prop :=
  ∃ before r checks later, demands = before ++ .init r checks :: later ∧
    m = ((w.served before).init r checks).1

theorem returned_concat_iff : Returned w (demands ++ [demand]) m ↔ Returned w demands m ∨
    ∃ r checks, demand = .init r checks ∧ m = ((w.served demands).init r checks).1 := by
  constructor
  · rintro ⟨before, r, checks, later, hsplit, hm⟩
    obtain ⟨rfl, rfl, -⟩ | ⟨later', -, rfl⟩ := split_concat hsplit
    · exact .inr ⟨r, checks, rfl, hm⟩
    · exact .inl ⟨before, r, checks, later', rfl, hm⟩
  · rintro (⟨before, r, checks, later, rfl, hm⟩ | ⟨r, checks, rfl, hm⟩)
    · exact ⟨before, r, checks, later ++ [demand], by simp, hm⟩
    · exact ⟨demands, r, checks, [], rfl, hm⟩

theorem present_iff (hw : w.monitors = #[]) :
    m < (w.served demands).monitors.size ↔ Returned w demands m := by
  induction demands using List.reverseRecOn with
  | nil =>
    refine iff_of_false (fun hm => ?_) ?_
    · change m < w.monitors.size at hm
      rw [hw] at hm
      exact Nat.not_lt_zero m hm
    · rintro ⟨before, r, checks, later, h, -⟩
      simp at h
  | append_singleton demands demand ih =>
    rw [served_concat, returned_concat_iff, ← ih]
    rcases serve_cases (w.served demands) demand with ⟨r, checks, rfl⟩ | rfl | ⟨hinit, -, -, hsame⟩
    · rw [serve, size_init, Nat.lt_succ_iff_lt_or_eq]
      refine or_congr_right ⟨fun hm => ⟨r, checks, rfl, ?_⟩, ?_⟩
      · rw [fst_init, hm]
      · rintro ⟨r', checks', -, hm⟩
        rw [hm, fst_init]
    · rw [serve, size_teardownCurrent]
      simp
    · rw [hsame]
      exact (or_iff_left fun ⟨r, checks, h, _⟩ => hinit r checks h).symm

structure Exclusive (w : World σ) (demands : List (Demand σ)) (u : World σ) : Prop where
  /-- One that works is the current one; every other is torn down. -/
  current : ∀ m, Returned w demands m → (u.monitor m).tornDown = false → u.current = some m
  returned : ∀ m, u.current = some m → Returned w demands m
  hides : ∀ m, Returned w demands m → (u.monitor m).tornDown = false →
    (u.reflection (u.monitor m).mask.realm).Hides
  others : ∀ r, (∀ m, Returned w demands m → (u.monitor m).tornDown = false →
    (u.monitor m).mask.realm ≠ r) → (u.reflection r).Agrees (w.reflection r)
  current_none : u.current = none ↔ GivenUp demands
  working : ∀ before r checks later, demands = before ++ .init r checks :: later →
    let m := ((w.served before).init r checks).1
    (∀ demand ∈ later, demand.Spares m) →
      u.current = some m ∧ (u.monitor m).tornDown = false ∧ (u.monitor m).mask.realm = r

theorem current_mem (hcurrent : w.current = none) (h : (w.served demands).current = some m) :
    Returned w demands m := by
  induction demands using List.reverseRecOn with
  | nil => simp [served, hcurrent] at h
  | append_singleton demands demand ih =>
    rw [served_concat] at h
    rw [returned_concat_iff]
    rcases serve_cases (w.served demands) demand with ⟨r, checks, rfl⟩ | rfl | ⟨-, -, hsame, -⟩
    · rw [serve, current_init] at h
      exact .inr ⟨r, checks, rfl, (Option.some.inj h).symm⟩
    · simp [serve, current_teardownCurrent] at h
    · exact .inl (ih (hsame ▸ h))

/-- Whatever is asked for, in any order, on realms that there are: at most one of the monitors that
were made the current one works, and it is the current one. Its realm hides marks, and every other
realm answers as it did in the beginning. There is no current monitor just if each was given up. -/
theorem current_exclusive (hw : w.monitors = #[]) (hcurrent : w.current = none)
    (hrealms : ∀ r checks, .init r checks ∈ demands → r < w.realms.size) :
    Exclusive w demands (w.served demands) := by
  have hstate := idle_or_serves_served hw hrealms
  refine ⟨fun m hm hworking => ?_, fun m => current_mem hcurrent, fun m hm hworking => ?_,
    fun r hothers => ?_, current_eq_none_iff hcurrent, ?_⟩
  · obtain ⟨r, h⟩ := serves_of_working hstate ((present_iff hw).2 hm) hworking
    exact h.current
  · obtain ⟨r, h⟩ := serves_of_working hstate ((present_iff hw).2 hm) hworking
    rw [h.mask, h.reflection, if_pos rfl, Reflection.hides_iff]
    simp
  · suffices hsame : (w.served demands).reflection r = w.reflection r by
      rw [hsame]
      exact fun _ => ⟨fun _ => rfl, rfl⟩
    rcases hstate with h | ⟨m, r', h⟩
    · exact h.reflection r
    · have hne := hothers m ((present_iff hw).1 h.present) h.working
      rw [h.mask] at hne
      rw [h.reflection, if_neg (Ne.symm hne)]
  · rintro before r checks later rfl m hlater
    have hbefore : ∀ r' checks', .init r' checks' ∈ before → r' < w.realms.size :=
      fun r' checks' hmem => hrealms r' checks' (List.mem_append_left _ hmem)
    have hmade := serves_init (idle_or_serves_served hw hbefore)
      (hrealms r checks (List.mem_append_right _ List.mem_cons_self)) checks
    have hserves := hmade.served hlater
    rw [served_append]
    exact ⟨hserves.current, hserves.working, congrArg Mask.realm hserves.mask⟩

def twoRealms : World Unit :=
  { heap := ⟨#[{}, {}]⟩, realms := #[{ global := 0 }, { global := 1 }], program := () }

/-- The first monitor is torn down by way of its hook object and a second one made on the other
realm; then it is asked once more that the first be torn down. -/
def handedOver : List (Demand Unit) :=
  [.init 0 {}, .invoke (fun _ _ _ => pure .undefined) 0 [], .init 1 {}, .tearDown 0]

theorem current_exclusive_handedOver :
    (twoRealms.monitors = #[] ∧ twoRealms.current = none ∧
      ∀ r checks, .init r checks ∈ handedOver → r < twoRealms.realms.size) ∧
    (twoRealms.served handedOver).current = some 1 ∧
      Exclusive twoRealms handedOver (twoRealms.served handedOver) := by
  have hrealms : ∀ r checks, .init r checks ∈ handedOver → r < twoRealms.realms.size := by
    intro r checks h
    simp only [handedOver, List.mem_cons, Demand.init.injEq, List.not_mem_nil, or_false,
      reduceCtorEq, false_or] at h
    rcases h with ⟨rfl, -⟩ | ⟨rfl, -⟩ <;> decide
  exact ⟨⟨rfl, rfl, hrealms⟩, by decide +kernel, current_exclusive rfl rfl hrealms⟩

end World

end CoercionTrace
