import CoercionTrace.Proofs.Monitor.Balanced
import CoercionTrace.Proofs.Trace.Course

/-!
# The course of a program

A log of what a program does with its monitor, in any order and from inside the functions that the
checks call. Main statements: the log is one of the monitor's tracer (`Course.tracer`), and wherever
a program gets by operations of its monitor, whatever their outcome, there is a log that leads there
(`admits_goesOn`, `assign_goesOn`, `enterCall_goesOn`, `leaveCall_goesOn`, `Balanced.goesOn`).
-/

namespace CoercionTrace

variable {σ : Type} {m : MonitorId}

def announcement (f : Callable) (arguments : List Value) : Option Nat :=
  if f.isNative then none else some arguments.length

namespace World

structure Elsewhere (m : MonitorId) (w w' : World σ) : Prop where
  present : m < w.monitors.size → m < w'.monitors.size
  tracer : (w'.monitor m).tracer = (w.monitor m).tracer

theorem Spares.elsewhere {w w' : World σ} (h : Spares m w w') : Elsewhere m w w' :=
  ⟨h.present, h.tracer⟩

/-- What a program does with its monitor at once, and what is logged of it. An operation that fails
changes nothing of the monitor, except that a call may take its identity and then not be entered. -/
inductive Step (m : MonitorId) (u : World σ) : Option Event → World σ → Prop
  | elsewhere {u' : World σ} : Elsewhere m u u' → Step m u none u'
  | identify (id : ObjectId) : Step m u none (u.identify m id).2
  | assign {u' : World σ} {value answer : Value} {target source : RawKey} :
      Yields (Monitor.assign m value target source) u answer u' →
      Step m u (some (.assigned (u.traceKey m target).1 value)) u'
  | enterCall {u' : World σ} {parameters : List (Option String)} {captured : List String}
      {callId : TraceId} : Yields (Monitor.enterCall m parameters captured) u callId u' →
      Step m u (some (.entered callId)) u'
  | refused {u' : World σ} {parameters : List (Option String)} {captured : List String}
      {fault : TraceError} : Fails (Monitor.enterCall m parameters captured) u (.trace fault) u' →
      Step m u (some (.refused (u.monitor m).tracer.nextId)) u'
  | leaveCall {u' : World σ} : Yields (Monitor.leaveCall m) u () u' → Step m u (some .left) u'
  | calling (f : Callable) (arguments : List Value) :
      Step m u (some (.calling (announcement f arguments))) (u.calling m f arguments)
  | called : Step m u (some .called) (u.onTracer m Tracer.clearPending)

inductive Course (m : MonitorId) (w : World σ) : Log → World σ → Prop
  | refl : Course m w [] w
  | step {log : Log} {u u' : World σ} {e : Option Event} : Course m w log u → Step m u e u' →
      Course m w (e.toList ++ log) u'

namespace Course

variable {w u u' : World σ} {log : Log}

theorem elsewhere (h : Course m w log u) (he : Elsewhere m u u') : Course m w log u' :=
  h.step (.elsewhere he)

theorem identify (h : Course m w log u) (id : ObjectId) : Course m w log (u.identify m id).2 :=
  h.step (.identify id)

theorem assign {value answer : Value} {target source : RawKey} (h : Course m w log u)
    (hy : Yields (Monitor.assign m value target source) u answer u') :
    Course m w (.assigned (u.traceKey m target).1 value :: log) u' :=
  h.step (.assign hy)

theorem enterCall {parameters : List (Option String)} {captured : List String} {callId : TraceId}
    (h : Course m w log u) (hy : Yields (Monitor.enterCall m parameters captured) u callId u') :
    Course m w (.entered callId :: log) u' :=
  h.step (.enterCall hy)

theorem refused {parameters : List (Option String)} {captured : List String} {fault : TraceError}
    (h : Course m w log u)
    (hf : Fails (Monitor.enterCall m parameters captured) u (.trace fault) u') :
    Course m w (.refused (u.monitor m).tracer.nextId :: log) u' :=
  h.step (.refused hf)

theorem leaveCall (h : Course m w log u) (hy : Yields (Monitor.leaveCall m) u () u') :
    Course m w (.left :: log) u' :=
  h.step (.leaveCall hy)

theorem calling (h : Course m w log u) (f : Callable) (arguments : List Value) :
    Course m w (.calling (announcement f arguments) :: log) (u.calling m f arguments) :=
  h.step (.calling f arguments)

theorem called (h : Course m w log u) : Course m w (.called :: log) (u.onTracer m Tracer.clearPending) :=
  h.step .called

theorem trans {v : World σ} {log' : Log} (h : Course m w log u) (h' : Course m u log' v) :
    Course m w (log' ++ log) v := by
  induction h' with
  | refl => exact h
  | step _ hs ih =>
    rw [List.append_assoc]
    exact ih.step hs

end Course

def GoesOn (m : MonitorId) (w w' : World σ) : Prop := ∃ log, Course m w log w'

instance : IsPreorder (World σ) (GoesOn m) where
  refl _ := ⟨[], .refl⟩
  trans _ _ _ := fun ⟨_, h⟩ ⟨_, h'⟩ => ⟨_, h.trans h'⟩

theorem admits_goesOn : Admits m (GoesOn (σ := σ) m) where
  spares h := ⟨[], .elsewhere .refl h.elsewhere⟩
  identify _ id := ⟨[], .identify .refl id⟩
  calling _ f arguments := ⟨_, .calling .refl f arguments⟩
  called _ := ⟨_, .called .refl⟩

def GoesLevel (m : MonitorId) (w w' : World σ) : Prop :=
  ∃ log, Course m w log w' ∧ log.rise = some 0

instance : IsPreorder (World σ) (GoesLevel m) where
  refl _ := ⟨[], .refl, rfl⟩
  trans _ _ _ := fun ⟨_, h, hrise⟩ ⟨_, h', hrise'⟩ => ⟨_, h.trans h', Log.rise_append hrise hrise'⟩

theorem goesLevel_identify (w : World σ) (id : ObjectId) : GoesLevel m w (w.identify m id).2 :=
  ⟨[], .identify .refl id, rfl⟩

def StaysLevel (m : MonitorId) (w w' : World σ) : Prop :=
  w.Ready m → w'.Ready m ∧ GoesLevel m w w'

instance : IsPreorder (World σ) (StaysLevel m) where
  refl w h := ⟨h, refl_of (GoesLevel m) w⟩
  trans _ _ _ h₁ h₂ h := ⟨(h₂ (h₁ h).1).1, trans_of (GoesLevel m) (h₁ h).2 (h₂ (h₁ h).1).2⟩

theorem admits_staysLevel : Admits m (StaysLevel (σ := σ) m) where
  spares h hw := ⟨(h.staysReady hw).1, [], .elsewhere .refl h.elsewhere, rfl⟩
  identify w id hw := ⟨(staysReady_identify w id hw).1, goesLevel_identify w id⟩
  calling w f arguments hw :=
    ⟨(staysReady_calling w f arguments hw).1, _, .calling .refl f arguments, rfl⟩
  called w hw := ⟨(staysReady_clearPending w hw).1, _, .called .refl, rfl⟩

structure Identifies (m : MonitorId) (w w' : World σ) : Prop where
  present : m < w.monitors.size → m < w'.monitors.size
  tracer : ∃ n, (w.monitor m).tracer.nextId ≤ n ∧
    (w'.monitor m).tracer = { (w.monitor m).tracer with nextId := n }

instance : IsPreorder (World σ) (Identifies m) where
  refl _ := ⟨id, _, Nat.le_refl _, rfl⟩
  trans _ _ _ := by
    rintro ⟨hpresent, n, hn, htracer⟩ ⟨hpresent', n', hn', htracer'⟩
    rw [htracer] at hn' htracer'
    exact ⟨hpresent' ∘ hpresent, n', Nat.le_trans hn hn', htracer'⟩

theorem identifies_identify (w : World σ) (id : ObjectId) : Identifies m w (w.identify m id).2 := by
  refine ⟨fun h => ?_, ?_⟩
  · unfold identify
    rwa [size_onTracer]
  · unfold identify onTracer
    dsimp only
    rw [monitor_onMonitor]
    split
    · exact ⟨_, le_next_identify _ _ _ id, rfl⟩
    · exact ⟨_, Nat.le_refl _, rfl⟩

theorem identifies_traceKey (w : World σ) (key : RawKey) : Identifies m w (w.traceKey m key).2 :=
  leads_traceKey identifies_identify w key

theorem isHere_traceKey (w : World σ) {key : RawKey} (h : key.scope.isObject = true) :
    (w.traceKey m key).1.isHere = false := by
  obtain ⟨scope, slot⟩ := key
  cases scope with
  | object id =>
    by_cases hid : (w.monitor m).handle = some id <;>
      simp [traceKey, traceScope, hid, TraceKey.of, TraceKey.isHere]
  | _ => simp [Value.isObject] at h

theorem tracer_calling {w : World σ} (h : m < w.monitors.size) (f : Callable)
    (arguments : List Value) : ((w.calling m f arguments).monitor m).tracer =
      (w.monitor m).tracer.calling (announcement f arguments) := by
  unfold calling announcement
  split
  · exact tracer_onTracer h _
  · rw [tracer_onTracer (by rwa [size_onTracer]), tracer_onTracer h]
    rfl

theorem size_calling (w : World σ) (m : MonitorId) (f : Callable) (arguments : List Value) :
    (w.calling m f arguments).monitors.size = w.monitors.size := by
  unfold calling
  split <;> simp only [size_onTracer]

end World

namespace Monitor

variable {α : Type} {w w' : World σ}

theorem yields_of_live {x : HostM σ α} {a : α} (h : Yields (do ensureLive m; x) w a w') :
    Yields x w a w' := by
  rw [Yields, run_ensureLive] at h
  split at h
  · cases h
  · exact h

theorem fails_of_live {x : HostM σ α} {e : HostError} (h : Fails (do ensureLive m; x) w e w') :
    (e = .tornDown ∧ w' = w) ∨ Fails x w e w' := by
  rw [Fails, run_ensureLive] at h
  split at h
  · cases h
    exact .inl ⟨rfl, rfl⟩
  · exact .inr h

theorem traced_fails {step : TraceM α} {fault : TraceError} {t' : Tracer}
    (h : Fails step (w.monitor m).tracer fault t') :
    Fails (traced (σ := σ) m step) w (.trace fault) (w.onTracer m fun _ => t') := by
  have hrun : step.run.run (w.monitor m).tracer = (.error fault, t') := h
  unfold traced
  rw [Fails.get_bind_iff, hrun]
  rfl

theorem yields_traced {step : TraceM α} {a : α} (h : Yields (traced m step) w a w') :
    ∃ t', Yields step (w.monitor m).tracer a t' ∧ w' = w.onTracer m fun _ => t' := by
  rcases Computation.yields_or_fails step (w.monitor m).tracer with ⟨b, hy⟩ | ⟨fault, hf⟩
  · cases h.symm.trans (traced_yields hy)
    exact ⟨_, hy, rfl⟩
  · cases h.symm.trans (traced_fails hf)

theorem fails_traced {step : TraceM α} {e : HostError} (h : Fails (traced m step) w e w') :
    ∃ fault t', e = .trace fault ∧ Fails step (w.monitor m).tracer fault t' ∧
      w' = w.onTracer m fun _ => t' := by
  rcases Computation.yields_or_fails step (w.monitor m).tracer with ⟨b, hy⟩ | ⟨fault, hf⟩
  · cases h.symm.trans (traced_yields hy)
  · cases h.symm.trans (traced_fails hf)
    exact ⟨fault, _, rfl, hf, rfl⟩

theorem yields_assign {value answer : Value} {target source : RawKey}
    (h : Yields (assign m value target source) w answer w') :
    answer = value ∧ ((w' = w ∧ target.scope.isObject = true ∧ value.isSuspect = false) ∨
      ∃ u origin t', World.Identifies m w u ∧
        Yields (Tracer.record (w.traceKey m target).1 value origin) (u.monitor m).tracer () t' ∧
        w' = u.onTracer m fun _ => t') := by
  replace h := yields_of_live h
  split at h
  · next hclean =>
    obtain ⟨rfl, rfl⟩ := Yields.pure_iff.1 h
    simp only [Bool.and_eq_true, Bool.not_eq_true'] at hclean
    exact ⟨rfl, .inl ⟨rfl, hclean⟩⟩
  · obtain ⟨key, u, hkey, h⟩ := Yields.bind_iff.1 h
    obtain ⟨origin, v, horigin, h⟩ := Yields.bind_iff.1 h
    obtain ⟨_, x, htraced, h⟩ := Yields.bind_iff.1 h
    obtain ⟨rfl, rfl⟩ := Yields.pure_iff.1 h
    cases hkey
    cases horigin
    obtain ⟨t', hrecord, rfl⟩ := yields_traced htraced
    refine ⟨rfl, .inr ⟨_, _, t', ?_, hrecord, rfl⟩⟩
    exact trans_of (World.Identifies m) (World.identifies_traceKey w target)
      (World.identifies_traceKey _ source)

end Monitor

namespace World

open Tracer (Recorded pushFrame_cases left_of_yields recorded_of_yields)

theorem step_of_enterCall {u u' : World σ} {parameters : List (Option String)}
    {captured : List String} {callId : TraceId}
    (hy : Yields (Monitor.enterCall m parameters captured) u callId u') :
    ∃ entries g, (u.monitor m).tracer.Begins entries g ∧ callId = (u.monitor m).tracer.nextId ∧
      u' = u.onTracer m fun _ => (u.monitor m).tracer.begun entries g := by
  obtain ⟨t', hpush, rfl⟩ := Monitor.yields_traced (Monitor.yields_of_live hy)
  rcases pushFrame_cases (u.monitor m).tracer parameters captured with
    ⟨entries, g, hb, hyields⟩ | ⟨e, g, -, hfails⟩
  · cases hpush.symm.trans hyields
    exact ⟨entries, g, hb, rfl, rfl⟩
  · cases hpush.symm.trans hfails

theorem step_of_refused {u u' : World σ} {parameters : List (Option String)}
    {captured : List String} {fault : TraceError}
    (hf : Fails (Monitor.enterCall m parameters captured) u (.trace fault) u') :
    ∃ g, Grows (Tracer.Enters (u.monitor m).tracer.stack (u.monitor m).tracer.nextId)
        (u.monitor m).tracer.global g ∧
      u' = u.onTracer m fun _ => (u.monitor m).tracer.taken g := by
  rcases Monitor.fails_of_live hf with ⟨⟨⟩, -⟩ | hf
  obtain ⟨_, t', -, hpush, rfl⟩ := Monitor.fails_traced hf
  rcases pushFrame_cases (u.monitor m).tracer parameters captured with
    ⟨entries, g, -, hyields⟩ | ⟨e, g, hg, hfails⟩
  · cases hpush.symm.trans hyields
  · cases hpush.symm.trans hfails
    exact ⟨g, hg, rfl⟩

theorem tracer_of_step {e : Event} {u v : World σ} {t' : Tracer} (hu : m < u.monitors.size)
    (h : Identifies m u v)
    (hs : Tracer.Step (v.monitor m).tracer e t') :
    m < (v.onTracer m fun _ => t').monitors.size ∧ ∃ n, (u.monitor m).tracer.nextId ≤ n ∧
      ((some e = none ∧ ((v.onTracer m fun _ => t').monitor m).tracer =
          { (u.monitor m).tracer with nextId := n }) ∨
        ∃ event, some e = some event ∧ Tracer.Step { (u.monitor m).tracer with nextId := n } event
          ((v.onTracer m fun _ => t').monitor m).tracer) := by
  obtain ⟨n, hn, htracer⟩ := h.tracer
  rw [size_onTracer, tracer_onTracer (h.present hu)]
  exact ⟨h.present hu, n, hn, .inr ⟨e, rfl, htracer ▸ hs⟩⟩

/-- What the program does with a monitor at once is one thing for the tracer, too, behind identities
that objects are given. -/
theorem Step.tracer {e : Option Event} {u u' : World σ} (hu : m < u.monitors.size)
    (h : Step m u e u') : m < u'.monitors.size ∧ ∃ n, (u.monitor m).tracer.nextId ≤ n ∧
      ((e = none ∧ (u'.monitor m).tracer = { (u.monitor m).tracer with nextId := n }) ∨
        ∃ event, e = some event ∧
          Tracer.Step { (u.monitor m).tracer with nextId := n } event (u'.monitor m).tracer) := by
  have hsame : Identifies m u u := refl_of (Identifies m) u
  cases h with
  | elsewhere h => exact ⟨h.present hu, _, Nat.le_refl _, .inl ⟨rfl, h.tracer⟩⟩
  | identify id =>
    have hid : Identifies m u (u.identify m id).2 := identifies_identify u id
    obtain ⟨n, hn, htracer⟩ := hid.tracer
    exact ⟨hid.present hu, n, hn, .inl ⟨rfl, htracer⟩⟩
  | @assign u' value answer target source hy =>
    obtain ⟨-, ⟨rfl, hobject, hclean⟩ | ⟨v, origin, t', hv, hrecord, rfl⟩⟩ := Monitor.yields_assign hy
    · have hr : Recorded (u'.monitor m).tracer (u'.traceKey m target).1 value .untraced
          (u'.monitor m).tracer := .nothing fun _ => ⟨isHere_traceKey u' hobject, hclean⟩
      exact ⟨hu, _, Nat.le_refl _, .inr ⟨_, rfl, .assigned hr⟩⟩
    · exact tracer_of_step hu hv (.assigned (recorded_of_yields hrecord))
  | enterCall hy =>
    obtain ⟨entries, g, hb, rfl, rfl⟩ := step_of_enterCall hy
    exact tracer_of_step hu hsame (.entered hb)
  | refused hf =>
    obtain ⟨g, hg, rfl⟩ := step_of_refused hf
    exact tracer_of_step hu hsame (.refused hg)
  | leaveCall hy =>
    obtain ⟨t', hpop, rfl⟩ := Monitor.yields_traced (Monitor.yields_of_live hy)
    exact tracer_of_step hu hsame (.left (left_of_yields hpop))
  | calling f arguments =>
    rw [size_calling, tracer_calling hu]
    exact ⟨hu, _, Nat.le_refl _, .inr ⟨_, rfl, .calling _⟩⟩
  | called =>
    rw [size_onTracer, tracer_onTracer hu]
    exact ⟨hu, _, Nat.le_refl _, .inr ⟨_, rfl, .called⟩⟩

theorem Course.tracer {w u : World σ} {log : Log} (hw : m < w.monitors.size)
    (h : Course m w log u) : m < u.monitors.size ∧
      (w.monitor m).tracer.Course log (u.monitor m).tracer := by
  induction h with
  | refl => exact ⟨hw, .refl⟩
  | @step log u u' e _ hs ih =>
    obtain ⟨hu', n, hn, ⟨rfl, htracer⟩ | ⟨e, rfl, htracer⟩⟩ := hs.tracer ih.1
    · rw [htracer]
      exact ⟨hu', ih.2.identified hn⟩
    · exact ⟨hu', (ih.2.identified hn).step htracer⟩

theorem Course.fromStart (w : World σ) (r : RealmId) (checks : CheckConfig) {u : World σ} {log : Log}
    (h : Course (w.newMonitor r checks).1 (w.newMonitor r checks).2 log u) :
    (w.newMonitor r checks).1 < u.monitors.size ∧
      Tracer.start.Course log (u.monitor (w.newMonitor r checks).1).tracer := by
  have hcourse := h.tracer (w.ready_newMonitor r checks).present
  rwa [tracer_newMonitor] at hcourse

end World

namespace Monitor

open World (GoesOn GoesLevel StaysLevel)

theorem elsewhere_of_tracer {w : World σ} {t' : Tracer} (h : t' = (w.monitor m).tracer) :
    World.Elsewhere m w (w.onTracer m fun _ => t') := by
  subst h
  refine ⟨fun hw => by rwa [World.size_onTracer], ?_⟩
  rw [World.onTracer, World.monitor_onMonitor]
  split <;> rfl

theorem assign_goesLevel (value : Value) (target source : RawKey) (w : World σ) :
    Leads (GoesLevel m) (assign m value target source) w := by
  rcases Computation.yields_or_fails (assign m value target source) w with ⟨_, hy⟩ | ⟨e, hf⟩
  · exact ⟨_, .assign .refl hy, rfl⟩
  rcases fails_of_live hf with ⟨-, hw⟩ | hf
  · rw [Leads, hw]
    exact refl_of (GoesLevel m) w
  split at hf
  · exact (Fails.not_pure hf).elim
  rcases Fails.bind_iff.1 hf with ⟨⟨⟩⟩ | ⟨key, u, ⟨⟩, hf⟩
  rcases Fails.bind_iff.1 hf with ⟨⟨⟩⟩ | ⟨origin, v, ⟨⟩, hf⟩
  rcases Fails.bind_iff.1 hf with hf | ⟨_, _, -, hf⟩
  · obtain ⟨_, t', -, hrecord, hw⟩ := fails_traced hf
    have hsame := elsewhere_of_tracer (Tracer.eq_of_record_fails hrecord)
    rw [Leads, hw]
    refine trans_of (GoesLevel m) (World.leads_traceKey World.goesLevel_identify w target) ?_
    exact trans_of (GoesLevel m) (World.leads_traceKey World.goesLevel_identify _ source)
      ⟨[], .elsewhere .refl hsame, rfl⟩
  · exact (Fails.not_pure hf).elim

theorem assign_goesOn (value : Value) (target source : RawKey) (w : World σ) :
    Leads (GoesOn m) (assign m value target source) w :=
  (assign_goesLevel value target source w).mono fun ⟨log, h, _⟩ => ⟨log, h⟩

theorem enterCall_goesOn (parameters : List (Option String)) (captured : List String) (w : World σ) :
    Leads (GoesOn m) (enterCall m parameters captured) w := by
  rcases Computation.yields_or_fails (enterCall m parameters captured) w with ⟨_, hy⟩ | ⟨e, hf⟩
  · exact ⟨_, .enterCall .refl hy⟩
  rcases fails_of_live hf with ⟨-, hw⟩ | htraced
  · rw [Leads, hw]
    exact refl_of (GoesOn m) w
  · obtain ⟨fault, _, rfl, -, -⟩ := fails_traced htraced
    exact ⟨_, .refused .refl hf⟩

theorem leaveCall_goesOn (w : World σ) : Leads (GoesOn m) (leaveCall m) w := by
  rcases Computation.yields_or_fails (leaveCall m) w with ⟨_, hy⟩ | ⟨e, hf⟩
  · exact ⟨_, .leaveCall .refl hy⟩
  rcases fails_of_live hf with ⟨-, hw⟩ | hf
  · rw [Leads, hw]
    exact refl_of (GoesOn m) w
  · obtain ⟨_, t', -, hpop, hw⟩ := fails_traced hf
    rw [Leads, hw]
    exact ⟨[], .elsewhere .refl (elsewhere_of_tracer (Tracer.eq_of_popFrame_fails hpop))⟩

theorem answer_goesOn {α : Type} (r : Except HostError α) (w : World σ) :
    Leads (GoesOn m) (HostM.answer r) w := by
  cases r with
  | ok a => exact .pure a
  | error e => exact .throw e

theorem withFrame_goesOn (parameters captured : List String) {body : TraceId → HostM σ Value}
    (hbody : ∀ id w, Leads (GoesOn m) (body id) w) (w : World σ) :
    Leads (GoesOn m) (withFrame m parameters captured body) w := by
  refine Leads.bind (enterCall_goesOn _ _ w) fun id u _ => ?_
  refine Leads.bind (HostM.attempt_leads (hbody id u)) fun r v _ => ?_
  exact Leads.bind (leaveCall_goesOn v) fun _ x _ => answer_goesOn r x

theorem withFrame_staysLevel (parameters captured : List String) {body : TraceId → HostM σ Value}
    (hbody : ∀ id w, Leads (StaysLevel m) (body id) w) (w : World σ) :
    Leads (StaysLevel m) (withFrame m parameters captured body) w := by
  intro hw
  obtain ⟨id, u, henter, hu, hrunning⟩ := enterCall_ready hw (parameters.map some) captured
  obtain ⟨hv, log, hlog, hrise⟩ := hbody id u hu
  have hrunning' : ((body id).run u).2.running m = id :: w.running m := by
    rw [← hrunning, World.running, (hlog.tracer hu.present).2.running_eq, Log.running_of_rise hrise]
    rfl
  obtain ⟨x, hleave, hx, -⟩ := leaveCall_ready hv hrunning' (running_ne_nil w m)
  rw [run_withFrame henter hleave]
  refine ⟨hx, _, ((World.Course.refl.enterCall henter).trans hlog).leaveCall hleave, ?_⟩
  rw [Log.rise, Log.rise_append (rfl : Log.rise [.entered id] = some 1) hrise]

end Monitor

theorem Balanced.leads {R : World σ → World σ → Prop} [IsPreorder (World σ) R]
    {E : HostError → Prop} {α : Type} {x : HostM σ α} (hR : World.Admits m R)
    (hassign : ∀ value target source w, ¬ source.IsArgument →
      Leads R (Monitor.assign m value target source) w)
    (hframe : ∀ parameters captured body, (∀ id w, Leads R (body id) w) →
      ∀ w, Leads R (Monitor.withFrame m parameters captured body) w)
    (h : Balanced m E x) : ∀ w, Leads R x w := by
  induction h with
  | own hspares => exact fun w => hR.spares (hspares w)
  | bind _ _ ihx ihf => exact fun w => Leads.bind (ihx w) fun a u _ => ihf a u
  | attempt _ ih => exact fun w => HostM.attempt_leads (ih w)
  | assign value target hsource => exact fun w => hassign value target _ w hsource
  | arithmeticCheck result left right operator location _ ih =>
    exact Monitor.arithmeticCheck_leads hR.handles ih result left right operator location
  | callCheck callee receiver arguments text location _ ih =>
    exact Monitor.callCheck_leads hR.handles ih callee receiver arguments text location
  | withFrame parameters captured _ ih => exact hframe parameters captured _ ih

theorem Balanced.goesOn {E : HostError → Prop} {α : Type} {x : HostM σ α} (h : Balanced m E x) :
    ∀ w, Leads (World.GoesOn m) x w :=
  h.leads World.admits_goesOn (fun value target source w _ => Monitor.assign_goesOn value target source w)
    fun parameters captured _ => Monitor.withFrame_goesOn parameters captured

theorem Balanced.staysLevel {E : HostError → Prop} {α : Type} {x : HostM σ α}
    (h : Balanced m E x) : ∀ w, Leads (World.StaysLevel m) x w :=
  h.leads World.admits_staysLevel
    (fun value target source w hsource hw =>
      ⟨(Monitor.assign_steady value target hsource w (E := E) hw).1.1,
        Monitor.assign_goesLevel value target source w⟩)
    fun parameters captured _ => Monitor.withFrame_staysLevel parameters captured

end CoercionTrace
