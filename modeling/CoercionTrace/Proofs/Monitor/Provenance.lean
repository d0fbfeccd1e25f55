import CoercionTrace.Proofs.Monitor.Course
import CoercionTrace.Proofs.Trace.Listing

/-!
# What an entry shows

A slot of the running call shows the value that was assigned to it last, if that has a history. A
place outside it shows the last value with a history that was assigned to it, whatever was assigned
later, unless it is a slot of a call: then a later copy of what the call itself keeps may stand there
(`entry_current`).
-/

namespace CoercionTrace

open Tracer (start kept)

variable {σ : Type} {m : MonitorId}

structure Moment (σ : Type) where
  before : World σ
  event : Option Event
  after : World σ

namespace World

inductive Run (m : MonitorId) (w : World σ) : List (Moment σ) → World σ → Prop
  | refl : Run m w [] w
  | step {moments : List (Moment σ)} {u u' : World σ} {e : Option Event} : Run m w moments u →
      Step m u e u' → Run m w (⟨u, e, u'⟩ :: moments) u'

end World

def logOf (moments : List (Moment σ)) : Log := moments.filterMap Moment.event

/-- A call takes its identity, and the value is one that it is passed for a parameter which nested
functions read. -/
def Moment.Passes (m : MonitorId) (x : Moment σ) (key : TraceKey) (value : Value) : Prop :=
  let t := (x.before.monitor m).tracer
  x.event.bind Event.call? = some t.nextId ∧ ∃ parameters captured arguments,
    ((Monitor.enterCall m parameters captured).run x.before).2 = x.after ∧
    t.stack.top.pendingArguments = some arguments ∧
    t.Publishable arguments captured parameters key value

/-- The entry comes to the table. Its value is what a running call keeps in the slot that the key
names, or is passed to a call. -/
structure Moment.Copies (m : MonitorId) (x : Moment σ) (key : TraceKey) (item : TraceItem) : Prop where
  absent : (x.before.monitor m).tracer.globalItem? key ≠ some item
  present : (x.after.monitor m).tracer.globalItem? key = some item
  origin : (x.before.monitor m).tracer.stack.Holds key item.value ∨ x.Passes m key item.value

/-- At one of the moments the entry was copied. From then on nothing was recorded in its place, and it
stood there. -/
def Copied (m : MonitorId) (moments : List (Moment σ)) (key : TraceKey) (item : TraceItem) : Prop :=
  ∃ later x earlier, moments = later ++ x :: earlier ∧
    Log.lastRecorded key (logOf (later ++ [x])) = none ∧
    (∀ y ∈ later, (y.after.monitor m).tracer.globalItem? key = some item) ∧ x.Copies m key item

namespace World

variable {w u u' : World σ} {e : Option Event} {moments : List (Moment σ)} {key : TraceKey}

theorem Run.course (h : Run m w moments u) : Course m w (logOf moments) u := by
  induction h with
  | refl => exact .refl
  | @step moments u u' e _ hs ih =>
    have hlog : logOf (⟨u, e, u'⟩ :: moments) = e.toList ++ logOf moments := by
      cases e <;> rfl
    exact hlog ▸ ih.step hs

theorem Course.run {log : Log} (h : Course m w log u) :
    ∃ moments, Run m w moments u ∧ logOf moments = log := by
  induction h with
  | refl => exact ⟨[], .refl, rfl⟩
  | @step log u u' e _ hs ih =>
    obtain ⟨moments, hrun, rfl⟩ := ih
    exact ⟨_, hrun.step hs, by cases e <;> rfl⟩

theorem Run.split {later earlier : List (Moment σ)} {x : Moment σ}
    (h : Run m w (later ++ x :: earlier) u) :
    Run m w earlier x.before ∧ Step m x.before x.event x.after := by
  induction later generalizing u with
  | nil =>
    obtain _ | ⟨hrun, hs⟩ := h
    exact ⟨hrun, hs⟩
  | cons y later ih =>
    obtain _ | ⟨hrun, -⟩ := h
    exact ih hrun

theorem tracer_enterCall (hu : m < u.monitors.size) (parameters : List (Option String))
    (captured : List String) :
    (((Monitor.enterCall m parameters captured).run u).2.monitor m).tracer = (u.monitor m).tracer ∨
    (((Monitor.enterCall m parameters captured).run u).2.monitor m).tracer =
      ((Tracer.pushFrame parameters captured).run (u.monitor m).tracer).2 := by
  unfold Monitor.enterCall
  rw [Monitor.run_ensureLive]
  split
  · exact .inl rfl
  · right
    rcases Computation.yields_or_fails (Tracer.pushFrame parameters captured) (u.monitor m).tracer with
      ⟨_, hy⟩ | ⟨_, hf⟩
    · rw [show (Monitor.traced m _).run u = _ from Monitor.traced_yields hy]
      exact tracer_onTracer hu _
    · rw [show (Monitor.traced m _).run u = _ from Monitor.traced_fails hf]
      exact tracer_onTracer hu _

theorem Step.grows (hu : m < u.monitors.size) (h : Step m u e u') :
    Grows (fun key value => e.bind (Event.recorded? key) = some value ∨
        (u.monitor m).tracer.stack.Holds key value ∨ Moment.Passes m ⟨u, e, u'⟩ key value)
      (u.monitor m).tracer.global (u'.monitor m).tracer.global := by
  -- what a call is passed depends on its parameters, which its event does not tell
  have hentering : ∀ {parameters captured},
      e.bind Event.call? = some (u.monitor m).tracer.nextId →
      ((Monitor.enterCall m parameters captured).run u).2 = u' →
      Grows (fun key value => e.bind (Event.recorded? key) = some value ∨
          (u.monitor m).tracer.stack.Holds key value ∨ Moment.Passes m ⟨u, e, u'⟩ key value)
        (u.monitor m).tracer.global (u'.monitor m).tracer.global := by
    rintro parameters captured hcall rfl
    rcases tracer_enterCall hu parameters captured with htracer | htracer <;> rw [htracer]
    · exact .refl _
    · refine (Tracer.pushFrame_grows _ parameters captured).mono fun key value hgrown => .inr ?_
      exact hgrown.imp_right fun ⟨n, hpending, hpublishable⟩ =>
        ⟨hcall, parameters, captured, n, rfl, hpending, hpublishable⟩
  have hother : e.bind Event.call? = none →
      Grows (fun key value => e.bind (Event.recorded? key) = some value ∨
          (u.monitor m).tracer.stack.Holds key value ∨ Moment.Passes m ⟨u, e, u'⟩ key value)
        (u.monitor m).tracer.global (u'.monitor m).tracer.global := by
    intro hcall
    obtain ⟨-, n, -, ⟨rfl, htracer⟩ | ⟨e, rfl, htracer⟩⟩ := h.tracer hu
    · rw [htracer]
      exact .refl _
    · refine htracer.grows.mono fun key value hgrown => ?_
      rcases hgrown with hrecorded | hholds | ⟨hnot, -⟩
      · exact .inl hrecorded
      · exact .inr (.inl hholds)
      · cases hcall.symm.trans hnot
  cases h with
  | enterCall hy =>
    obtain ⟨_, _, -, hid, -⟩ := step_of_enterCall hy
    exact hentering (congrArg some hid) (congrArg Prod.snd hy)
  | refused hf => exact hentering rfl (congrArg Prod.snd hf)
  | _ => exact hother rfl

theorem Step.records (hu : m < u.monitors.size) (h : Step m u e u') (htraced : key.isTraced = true)
    (hhere : key.isHere = false) {value : Value} (he : e.bind (Event.recorded? key) = some value) :
    ((u'.monitor m).tracer.globalItem? key).map TraceItem.value = some value := by
  obtain ⟨-, n, -, ⟨rfl, -⟩ | ⟨e, rfl, htracer⟩⟩ := h.tracer hu
  · cases he
  · exact htracer.records htraced hhere he

theorem lastRecorded_cons (key : TraceKey) (x : Moment σ) (moments : List (Moment σ)) :
    Log.lastRecorded key (logOf (x :: moments)) =
      (x.event.bind (Event.recorded? key)).or (Log.lastRecorded key (logOf moments)) := by
  obtain ⟨_, _ | e, _⟩ := x
  · rfl
  · show List.findSome? _ (e :: _) = _
    rw [List.findSome?_cons]
    cases he : e.recorded? key <;> simp [he, Log.lastRecorded, logOf]

/-- A place outside the running calls at which a value was recorded has an entry. It is that value,
or one that was copied since. -/
theorem Run.item_cases (hw : m < w.monitors.size) (h : Run m w moments u)
    (htraced : key.isTraced = true) (hhere : key.isHere = false)
    (h₀ : (w.monitor m).tracer.globalItem? key = none) :
    (Log.lastRecorded key (logOf moments) ≠ none → (u.monitor m).tracer.globalItem? key ≠ none) ∧
      ∀ item, (u.monitor m).tracer.globalItem? key = some item →
        Log.lastRecorded key (logOf moments) = some item.value ∨ Copied m moments key item := by
  induction h with
  | refl => exact ⟨fun h => absurd rfl h, fun item hitem => by simp [h₀] at hitem⟩
  | @step moments u u' e hrun hs ih =>
    have hu := (hrun.course.tracer hw).1
    rw [lastRecorded_cons]
    dsimp only
    cases he : e.bind (Event.recorded? key) with
    | some value =>
      have hitem := hs.records hu htraced hhere he
      refine ⟨fun _ hnone => by simp [hnone] at hitem, fun item hi => .inl ?_⟩
      rw [hi] at hitem
      exact hitem.symm
    | none =>
      have hgrows := hs.grows hu
      refine ⟨fun hlast => hgrows.kept key (ih.1 hlast), fun item hi => ?_⟩
      by_cases hbefore : (u.monitor m).tracer.globalItem? key = some item
      · -- the entry stood there before, and was copied then if it was
        refine (ih.2 item hbefore).imp_right ?_
        rintro ⟨later, x, earlier, rfl, hlast, hstood, hcopies⟩
        refine ⟨⟨u, e, u'⟩ :: later, x, earlier, rfl, ?_, List.forall_mem_cons.2 ⟨hi, hstood⟩, hcopies⟩
        rw [List.cons_append, lastRecorded_cons, he]
        exact hlast
      · rcases hgrows.items key item hi with hi | hrecorded | horigin
        · exact absurd hi hbefore
        · cases he.symm.trans hrecorded
        · refine .inr ⟨[], ⟨u, e, u'⟩, moments, rfl, ?_, by simp, hbefore, hi, horigin⟩
          rw [List.nil_append, lastRecorded_cons, he]
          rfl

theorem Run.not_copied {id : TraceId} {slot : Slot} {item : TraceItem} (hw : m < w.monitors.size)
    (h : Run m w moments u) (hid : id ∉ (logOf moments).calls)
    (hid₀ : id ∉ (w.monitor m).tracer.running) : ¬ Copied m moments (.of id slot) item := by
  rintro ⟨later, x, earlier, rfl, -, -, -, -, hcopy⟩
  obtain ⟨hearlier, -⟩ := h.split
  have hcall : ∀ y ∈ x :: earlier, y.event.bind Event.call? ≠ some id := by
    intro y hy he
    obtain ⟨e, he, hcall⟩ := Option.bind_eq_some_iff.1 he
    refine hid (List.mem_filterMap.2 ⟨e, List.mem_filterMap.2 ⟨y, ?_, he⟩, hcall⟩)
    exact List.mem_append_right _ hy
  rcases hcopy with ⟨f, hf, k, kept, -, hkey, -⟩ | ⟨he, _, _, _, -, -, name, _, _, -, -, -, hkey, -⟩
  · cases hkey
    have hrunning : f.callId ∈ (x.before.monitor m).tracer.running := List.mem_map_of_mem hf
    rw [(hearlier.course.tracer hw).2.running_eq] at hrunning
    rcases Log.mem_running hrunning with hmem | hmem
    · obtain ⟨e, he, hcall'⟩ := List.mem_filterMap.1 hmem
      obtain ⟨y, hy, hevent⟩ := List.mem_filterMap.1 he
      exact hcall y (List.mem_cons_of_mem _ hy) (Option.bind_eq_some_iff.2 ⟨e, hevent, hcall'⟩)
    · exact hid₀ hmem
  · cases hkey
    exact hcall x List.mem_cons_self he

end World

open World

/-- Wherever a program leads to, for every key that it may name: the entry of a slot of the running
call is that of the value assigned last. Outside, there is an entry once a value that needs a history
was assigned; it is that of the last such value, or was copied since from a running call or for a call
that was entered. Nothing is copied to the global object, or to any object that does not stand for a
call. -/
theorem entry_current {σ : Type} (w : World σ) (r : RealmId) (checks : CheckConfig)
    {moments : List (Moment σ)} {u : World σ}
    (h : Run (w.newMonitor r checks).1 (w.newMonitor r checks).2 moments u) (key : RawKey) :
    let m := (w.newMonitor r checks).1
    let t := (u.monitor m).tracer
    let target := (u.traceKey m key).1
    let log := logOf moments
    (∀ slot value, target = .here slot → slot ≠ .anonymous → log.assignedAt slot 0 = some value →
      (t.localItem? slot).map TraceItem.value = kept target value) ∧
    ∀ id slot, target = .of id slot → slot ≠ .anonymous →
      (log.lastRecorded target ≠ none → t.globalItem? target ≠ none) ∧
      (∀ item, t.globalItem? target = some item →
        log.lastRecorded target = some item.value ∨ Copied m moments target item) ∧
      (id = globalTraceId ∨ id ≠ globalTraceId + 1 ∧ id ∉ log.calls →
        (t.globalItem? target).map TraceItem.value = log.lastRecorded target) := by
  intro m t target log
  have hw : m < (w.newMonitor r checks).2.monitors.size := (w.ready_newMonitor r checks).present
  have hcourse : start.Course log t := (h.course.fromStart w r checks).2
  have hstart : ((w.newMonitor r checks).2.monitor m).tracer = start := tracer_newMonitor w r checks
  constructor
  · intro slot value htarget hslot hvalue
    rw [htarget]
    exact hcourse.agrees.assigned 0 slot value hslot hvalue
  · intro id slot htarget hslot
    rw [htarget]
    obtain ⟨hpresent, hcases⟩ := h.item_cases hw
      (bne_iff_ne.2 hslot : (TraceKey.of id slot).isTraced = true) rfl (by rw [hstart]; rfl)
    refine ⟨hpresent, hcases, fun hid => ?_⟩
    have hcalls : id ∉ log.calls := by
      rcases hid with rfl | ⟨-, hid⟩
      · exact fun hcall => absurd (hcourse.nextId_le.2 _ hcall) (by decide)
      · exact hid
    have hrunning : id ∉ ((w.newMonitor r checks).2.monitor m).tracer.running := by
      rw [hstart]
      rcases hid with rfl | ⟨hid, -⟩
      · decide
      · simpa [Tracer.running, start, CallStack.frames] using hid
    cases hitem : t.globalItem? (.of id slot) with
    | none => exact (Classical.not_not.1 fun hne => hpresent hne hitem).symm
    | some item =>
      exact ((hcases item hitem).resolve_right (h.not_copied hw hcalls hrunning)).symm

def World.globalKey : RawKey := { scope := .object 0, slot := .text "g" }

def World.stored (value : Value) : World Unit :=
  watched.assigned [(.number .nan, globalKey, {}), (value, globalKey, {})]

theorem entry_current_again :
    let g : TraceKey := .of globalTraceId (.name "g")
    ∃ moments, Run 0 World.watched moments (World.stored .undefined) ∧
      ((World.stored .undefined).traceKey 0 World.globalKey).1 = g ∧
      (logOf moments).lastRecorded g = some .undefined ∧
      (((World.stored .undefined).monitor 0).tracer.globalItem? g).map TraceItem.value =
        some .undefined := by
  intro g
  have hfirst : Yields (Monitor.assign 0 (.number .nan) World.globalKey {}) World.watched
      (.number .nan) _ := .of_toOption (by decide +kernel)
  have hsecond : Yields (Monitor.assign 0 .undefined World.globalKey {}) _ .undefined
      (World.stored .undefined) := .of_toOption (by decide +kernel)
  have hkey : ((World.stored .undefined).traceKey 0 World.globalKey).1 = g := by decide +kernel
  have h : Run 0 World.watched _ (World.stored .undefined) :=
    (Run.refl.step (.assign hfirst)).step (.assign hsecond)
  have hlast : (((World.stored .undefined).monitor 0).tracer.globalItem?
      ((World.stored .undefined).traceKey 0 World.globalKey).1).map TraceItem.value =
        Log.lastRecorded ((World.stored .undefined).traceKey 0 World.globalKey).1 (logOf _) :=
    ((entry_current (.withFunction { behaviour := .routine 0 }) 0 {} h
      World.globalKey).2 globalTraceId (.name "g") hkey (by simp)).2.2 (.inl rfl)
  rw [hkey] at hlast
  exact ⟨_, h, hkey, by decide +kernel, hlast.trans (by decide +kernel)⟩

-- Where a nested function assigned a variable of a call, what the call itself keeps is copied over it.
example :
    let w := (World.watched.alloc (scopeToken 2)).2.assigned
      [(.number .nan, { slot := .text "x" }, {}),
        (.undefined, { scope := .object 2, slot := .text "x" }, {}),
        (.number .nan, World.globalKey, { slot := .text "x" })]
    ((w.monitor 0).tracer.globalItem? (.of 2 (.name "x"))).map TraceItem.value =
      some (.number .nan) := by
  decide +kernel

theorem entry_overwritten_clean :
    let g : TraceKey := .of globalTraceId (.name "g")
    ∃ moments, Run 0 World.watched moments (World.stored (.number .zero)) ∧
      ((World.stored (.number .zero)).traceKey 0 World.globalKey).1 = g ∧
      (logOf moments).head? = some (.assigned g (.number .zero)) ∧
      (((World.stored (.number .zero)).monitor 0).tracer.globalItem? g).map TraceItem.value =
        some (.number .nan) := by
  intro g
  have hfirst : Yields (Monitor.assign 0 (.number .nan) World.globalKey {}) World.watched
      (.number .nan) _ := .of_toOption (by decide +kernel)
  have hsecond : Yields (Monitor.assign 0 (.number .zero) World.globalKey {}) _ (.number .zero)
      (World.stored (.number .zero)) := .of_toOption (by decide +kernel)
  exact ⟨_, (Run.refl.step (.assign hfirst)).step (.assign hsecond), by decide +kernel,
    by decide +kernel, by decide +kernel⟩

end CoercionTrace
