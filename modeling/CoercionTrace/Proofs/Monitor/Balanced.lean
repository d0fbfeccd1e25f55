import CoercionTrace.Proofs.Monitor.Reach
import CoercionTrace.Proofs.Trace.Grounded

/-!
# Programs that leave what they enter

A program that enters instrumented functions through `Monitor.withFrame` only leaves each of them,
also when it fails, and finds its monitor in step. Main statement: no operation of such a program
fails for want of a running call, the calls that run afterwards are those that ran before, and a
frame has the outcome of its body (`balanced_in_step`).
-/

namespace CoercionTrace

variable {σ : Type} {m : MonitorId} {E : HostError → Prop}

namespace World

def running (w : World σ) (m : MonitorId) : List TraceId := (w.monitor m).tracer.running

structure Ready (m : MonitorId) (w : World σ) : Prop where
  present : m < w.monitors.size
  live : (w.monitor m).tornDown = false
  invariant : (w.monitor m).tracer.Invariant
  grounded : (w.monitor m).tracer.stack.Grounded

def StaysReady (m : MonitorId) (w w' : World σ) : Prop :=
  w.Ready m → w'.Ready m ∧ w'.running m = w.running m

instance : IsPreorder (World σ) (StaysReady m) where
  refl _ h := ⟨h, rfl⟩
  trans _ _ _ h₁ h₂ h := ⟨(h₂ (h₁ h).1).1, (h₂ (h₁ h).1).2.trans (h₁ h).2⟩

theorem Spares.staysReady {w w' : World σ} (h : Spares m w w') : StaysReady m w w' := by
  intro hw
  refine ⟨⟨h.present hw.present, h.live.trans hw.live, ?_, ?_⟩, ?_⟩
  · rw [h.tracer]
    exact hw.invariant
  · rw [h.tracer]
    exact hw.grounded
  · rw [running, running, h.tracer]

theorem size_onTracer (w : World σ) (m : MonitorId) (f : Tracer → Tracer) :
    (w.onTracer m f).monitors.size = w.monitors.size := by
  simp [onTracer, onMonitor]

theorem tornDown_onTracer (w : World σ) (m : MonitorId) (f : Tracer → Tracer) :
    ((w.onTracer m f).monitor m).tornDown = (w.monitor m).tornDown := by
  rw [onTracer, monitor_onMonitor]
  split <;> rfl

theorem tracer_onTracer {w : World σ} (h : m < w.monitors.size) (f : Tracer → Tracer) :
    ((w.onTracer m f).monitor m).tracer = f (w.monitor m).tracer := by
  rw [onTracer, monitor_onMonitor, if_pos h]

theorem Ready.onTracer {w : World σ} (h : w.Ready m) {f : Tracer → Tracer}
    (hi : (f (w.monitor m).tracer).Invariant) (hg : (f (w.monitor m).tracer).stack.Grounded) :
    (w.onTracer m f).Ready m := by
  have ht := tracer_onTracer h.present f
  refine ⟨?_, ?_, ?_, ?_⟩
  · rw [size_onTracer]
    exact h.present
  · rw [tornDown_onTracer]
    exact h.live
  · rwa [ht]
  · rwa [ht]

theorem staysReady_onTracer {w : World σ} {f : Tracer → Tracer}
    (hkeeps : Tracer.Keeps (w.monitor m).tracer (f (w.monitor m).tracer))
    (hgrounded : (w.monitor m).tracer.stack.Grounded → (f (w.monitor m).tracer).stack.Grounded)
    (hrunning : (f (w.monitor m).tracer).running = (w.monitor m).tracer.running) :
    StaysReady m w (w.onTracer m f) := by
  intro h
  refine ⟨h.onTracer (hkeeps h.invariant).1 (hgrounded h.grounded), ?_⟩
  rw [running, tracer_onTracer h.present]
  exact hrunning

-- Nothing that a frame holds besides its entries bears on where a history ends.
theorem staysReady_onTop (g : Frame → Frame) {w : World σ}
    (hkeeps : Tracer.Keeps (w.monitor m).tracer ((w.monitor m).tracer.onTop g))
    (hid : ∀ f, (g f).callId = f.callId) (hentries : ∀ f, (g f).entries = f.entries) :
    StaysReady m w (w.onTracer m fun t => t.onTop g) := by
  refine staysReady_onTracer hkeeps (fun h => ?_) (Tracer.running_onTop _ (hid _))
  apply Tracer.grounded_onTop h
  intro _ slot item hi
  rw [hentries] at hi
  exact .inl hi

theorem staysReady_clearPending (w : World σ) :
    StaysReady m w (w.onTracer m Tracer.clearPending) :=
  staysReady_onTop (fun f => { f with pendingArguments := none }) (Tracer.keeps_clearPending _)
    (fun _ => rfl) (fun _ => rfl)

theorem staysReady_calling (w : World σ) (f : Callable) (arguments : List Value) :
    StaysReady m w (w.calling m f arguments) := by
  have hclear : StaysReady m w (w.onTracer m Tracer.clearReturn) :=
    staysReady_onTop (fun f => { f with calleeReturn := none }) (Tracer.keeps_clearReturn _)
      (fun _ => rfl) (fun _ => rfl)
  unfold calling
  split
  · exact hclear
  · refine trans_of (StaysReady m) hclear ?_
    exact staysReady_onTop (fun f => { f with pendingArguments := some arguments.length })
      (Tracer.keeps_announce _ _) (fun _ => rfl) (fun _ => rfl)

theorem staysReady_identify (w : World σ) (id : ObjectId) :
    StaysReady m w (w.identify m id).2 := by
  have hheap : StaysReady m w { w with heap := (w.heap.identify
      (w.realm (w.monitor m).mask.realm).global (w.monitor m).tracer.nextId id).2.2 } :=
    Spares.staysReady ⟨fun h => h, rfl, rfl⟩
  refine trans_of (StaysReady m) hheap (@staysReady_onTracer _ _ _ (fun t => { t with
    nextId := (w.heap.identify (w.realm (w.monitor m).mask.realm).global
      (w.monitor m).tracer.nextId id).2.1 }) ?_ (fun h => h) rfl)
  exact Tracer.keeps_nextId (le_next_identify _ _ _ id)

theorem staysReady_traceKey (w : World σ) (key : RawKey) : StaysReady m w (w.traceKey m key).2 :=
  leads_traceKey staysReady_identify w key

theorem staysReady_historyLines (w : World σ) (key : RawKey) :
    StaysReady m w (w.historyLines m key).2 := staysReady_traceKey w key

end World

def RawKey.IsArgument (key : RawKey) : Prop :=
  (key.scope = .undefined ∨ key.scope = .null) ∧
    ∃ n : Number, key.slot = .number n ∧ n.isFinite = true ∧ (!n.negative || n.isZero) = true

theorem World.isArgument_of_traceKey {w : World σ} {key : RawKey} {i : Nat}
    (h : (w.traceKey m key).1 = .here (.argument i)) : key.IsArgument := by
  obtain ⟨scope, slot⟩ := key
  have hslot : ∀ h : Heap, localSlot h slot = .argument i →
      ∃ n : Number, slot = .number n ∧ n.isFinite = true ∧ (!n.negative || n.isZero) = true := by
    intro heap hs
    cases slot with
    | number n =>
      by_cases hn : (n.isFinite && (!n.negative || n.isZero)) = true
      · exact ⟨n, rfl, by simpa using hn⟩
      · simp [localSlot, hn] at hs
    | text t =>
      by_cases ht : t = returnSlotName <;> simp [localSlot, ht] at hs
    | _ => simp [localSlot] at hs
  cases scope with
  | undefined => exact ⟨.inl rfl, hslot w.heap (congrArg TraceKey.slot h)⟩
  | null => exact ⟨.inr rfl, hslot w.heap (congrArg TraceKey.slot h)⟩
  | object id =>
    by_cases hid : (w.monitor m).handle = some id <;>
      simp [World.traceKey, World.traceScope, hid, TraceKey.of, TraceKey.here] at h
  | _ => simp [World.traceKey, World.traceScope, TraceKey.untraced, TraceKey.here] at h

/-- The step leaves a monitor that is ready so, with the same calls running. It fails with an error
of `E`, if not with one of the monitor's own that is no fault of its tracer. -/
def Steady (m : MonitorId) (E : HostError → Prop) {α : Type} (x : HostM σ α) (w : World σ) : Prop :=
  w.Ready m → ((x.run w).2.Ready m ∧ (x.run w).2.running m = w.running m) ∧
    ∀ e, (x.run w).1 = .error e → E e ∨ ∀ fault, e ≠ .trace fault

namespace Steady

variable {α β : Type} {w : World σ}

theorem of_ok {x : HostM σ α} {a : α} {u : World σ} (hx : Yields x w a u)
    (h : World.StaysReady m w u) : Steady m E x w := by
  intro hw
  rw [hx.run]
  exact ⟨h hw, by simp⟩

theorem pure (a : α) : Steady m E (Pure.pure a : HostM σ α) w := of_ok rfl (refl_of _ w)

theorem modify {g : World σ → World σ} (h : World.StaysReady m w (g w)) :
    Steady m E (modifyThe (World σ) g : HostM σ PUnit) w := of_ok rfl h

theorem modifyGet {g : World σ → α × World σ} (h : World.StaysReady m w (g w).2) :
    Steady m E (MonadStateOf.modifyGet g : HostM σ α) w := of_ok rfl h

theorem get_bind {f : World σ → HostM σ β} (h : Steady m E (f w) w) :
    Steady m E (MonadState.get >>= f) w := h

theorem throw {e : HostError} (h : E e ∨ ∀ fault, e ≠ .trace fault) :
    Steady m E (MonadExcept.throw e : HostM σ α) w := by
  intro hw
  refine ⟨⟨hw, rfl⟩, fun e' he => ?_⟩
  cases he
  exact h

theorem bind {x : HostM σ α} {f : α → HostM σ β} (hx : Steady m E x w)
    (hf : ∀ a u, Steady m E (f a) u) : Steady m E (x >>= f) w := by
  intro hw
  obtain ⟨⟨hready, hrunning⟩, herror⟩ := hx hw
  rw [Computation.run_bind]
  cases hr : x.run w with
  | mk r u =>
    rw [hr] at hready hrunning herror
    cases r with
    | error e => exact ⟨⟨hready, hrunning⟩, fun e' he => herror e' (by cases he; rfl)⟩
    | ok a =>
      obtain ⟨⟨hready', hrunning'⟩, herror'⟩ := hf a u hready
      exact ⟨⟨hready', hrunning'.trans hrunning⟩, herror'⟩

theorem attempt {x : HostM σ α} (h : Steady m E x w) : Steady m E (HostM.attempt x) w :=
  fun hw => ⟨(h hw).1, fun _ he => by cases he⟩

theorem andFinally {x : HostM σ α} {last : World σ → World σ} (h : Steady m E x w)
    (hlast : ∀ u, World.StaysReady m u (last u)) : Steady m E (x.andFinally last) w := by
  intro hw
  obtain ⟨hready, herror⟩ := h hw
  rw [HostM.run_andFinally]
  exact ⟨trans_of (World.StaysReady m) (fun _ => hready) (hlast _) hw, herror⟩

end Steady

namespace Monitor

variable {call : Call σ} {w : World σ}

theorem ensureLive_steady (w : World σ) : Steady m E (ensureLive (σ := σ) m) w := by
  refine .get_bind ?_
  split
  · exact .throw (.inr fun _ => by simp)
  · exact .pure _

theorem ensureLive_yields (h : (w.monitor m).tornDown = false) : Yields (ensureLive m) w () w := by
  unfold ensureLive
  rw [Yields.get_bind_iff, h]
  rfl

theorem traced_yields {α : Type} {step : TraceM α} {a : α} {t' : Tracer}
    (h : Yields step (w.monitor m).tracer a t') :
    Yields (traced (σ := σ) m step) w a (w.onTracer m fun _ => t') := by
  have hrun : step.run.run (w.monitor m).tracer = (.ok a, t') := h.run
  unfold traced
  rw [Yields.get_bind_iff, hrun]
  rfl

def CallSteady (m : MonitorId) (E : HostError → Prop) (call : Call σ) : Prop :=
  ∀ f receiver arguments w, Steady m E (call f receiver arguments) w

theorem deliver_steady (hcall : CallSteady m E call) (r : CheckReport) (w : World σ) :
    Steady m E (deliver call m r) w := by
  refine .get_bind ?_
  split
  · split
    · exact .modify (World.Spares.staysReady ⟨fun h => h, rfl, rfl⟩)
    · exact .modify (World.Spares.staysReady ⟨fun h => h, rfl, rfl⟩)
  · exact .modify (World.Spares.staysReady ⟨fun h => h, rfl, rfl⟩)
  · exact .bind (.attempt (hcall _ _ _ w)) fun _ _ => .pure _

theorem report_steady (hcall : CallSteady m E call) (kind : CheckKind) (arguments : List String)
    (location : String) (cause : Option RawKey) (w : World σ) :
    Steady m E (report call m kind arguments location cause) w := by
  have hfinish : ∀ (history : List String) (u : World σ), Steady m E (do
      deliver call m (CheckReport.make kind ((w.monitor m).checks.severity kind) arguments
        (some location) history)
      if (w.monitor m).checks.severity kind = .error then
        throw (.check kind (CheckReport.make kind ((w.monitor m).checks.severity kind) arguments
          (some location) history).head) : HostM σ Unit) u := by
    refine fun history u => .bind (deliver_steady hcall _ u) fun _ v => ?_
    split
    · exact .throw (.inr fun _ => by simp)
    · exact .pure _
  refine .get_bind ?_
  dsimp only
  split
  · cases cause with
    | none => exact hfinish [] w
    | some key =>
      exact .bind (.modifyGet (World.staysReady_historyLines w key)) fun history u =>
        hfinish history u
  · exact .pure _

theorem arithmeticCheck_steady (hcall : CallSteady m E call) (result : Value)
    (left right : Operand) (operator location : String) (w : World σ) :
    Steady m E (arithmeticCheck call m result left right operator location) w := by
  refine .bind (ensureLive_steady w) fun _ u => .get_bind ?_
  dsimp only
  split
  · exact .pure _
  · exact .bind (report_steady hcall _ _ _ _ u) fun _ _ => .pure _

theorem announced_steady (hcall : CallSteady m E call) (f : Callable) (receiver : Value)
    (arguments : List Value) (w : World σ) :
    Steady m E (announced call m f receiver arguments) w := by
  intro hw
  rw [run_announced]
  have h := Steady.andFinally (hcall f receiver arguments (w.calling m f arguments))
    World.staysReady_clearPending
  have hc := World.staysReady_calling w f arguments hw
  obtain ⟨⟨hready, hrunning⟩, herror⟩ := h hc.1
  exact ⟨⟨hready, hrunning.trans hc.2⟩, herror⟩

theorem callCheck_steady (hcall : CallSteady m E call) (callee receiver : Value)
    (arguments : List Value) (text location : String) (w : World σ) :
    Steady m E (callCheck call m callee receiver arguments text location) w := by
  refine .bind (ensureLive_steady w) fun _ u => .get_bind ?_
  dsimp only
  split
  · exact .bind (report_steady hcall _ _ _ _ u) fun _ _ => .throw (.inr fun _ => by simp)
  · next f _ =>
    split
    · exact .bind (report_steady hcall _ _ _ _ u) fun _ v =>
        announced_steady hcall f receiver arguments v
    · exact announced_steady hcall f receiver arguments u

theorem record_steady (target : TraceKey) (ht : target.isHere = true ∨ target.slot ≠ .result)
    (value : Value) {source : TraceKey} (hs : ∀ i, source ≠ .here (.argument i)) (w : World σ) :
    Steady m E (traced (σ := σ) m (Tracer.record target value source)) w := by
  intro hw
  obtain ⟨t', hrecord, hgrounded, hrunning⟩ :=
    Tracer.record_runs hw.invariant hw.grounded target value hs
  have hkeeps := Tracer.record_leads ht value source (t := (w.monitor m).tracer)
  rw [Leads, hrecord] at hkeeps
  exact Steady.of_ok (traced_yields hrecord)
    (World.staysReady_onTracer hkeeps (fun _ => hgrounded) hrunning) hw

theorem assign_steady (value : Value) (target : RawKey) {source : RawKey}
    (hs : ¬ source.IsArgument) (w : World σ) : Steady m E (assign m value target source) w := by
  refine .bind (ensureLive_steady w) fun _ u => ?_
  split
  · exact .pure _
  · intro hu
    have hkey := World.staysReady_traceKey u target hu
    have hsource := World.staysReady_traceKey (u.traceKey m target).2 source hkey.1
    have h : Steady m E (do
        traced m (Tracer.record (u.traceKey m target).1 value
          ((u.traceKey m target).2.traceKey m source).1)
        return value : HostM σ Value) ((u.traceKey m target).2.traceKey m source).2 := by
      refine .bind (record_steady _ (World.traceKey_isHere_or u m target) value ?_ _) fun _ _ => .pure _
      exact fun i hi => hs (World.isArgument_of_traceKey hi)
    obtain ⟨⟨hready, hrunning⟩, herror⟩ := h hsource.1
    exact ⟨⟨hready, hrunning.trans (hsource.2.trans hkey.2)⟩, herror⟩

theorem enterCall_ready (hw : w.Ready m) (parameters : List (Option String))
    (captured : List String) :
    ∃ id u, Yields (enterCall m parameters captured) w id u ∧ u.Ready m ∧
      u.running m = id :: w.running m := by
  obtain ⟨t', hpush, hgrounded, hrunning⟩ :=
    Tracer.pushFrame_runs hw.grounded parameters captured
  have hkeeps := Tracer.pushFrame_leads (w.monitor m).tracer parameters captured hw.invariant
  rw [hpush] at hkeeps
  refine ⟨_, _, Yields.bind_iff.2 ⟨⟨⟩, w, ensureLive_yields hw.live, traced_yields hpush⟩,
    hw.onTracer hkeeps.1 hgrounded, ?_⟩
  rw [World.running, World.tracer_onTracer hw.present]
  exact hrunning

theorem leaveCall_ready (hw : w.Ready m) {id : TraceId} {rest : List TraceId}
    (hids : w.running m = id :: rest) (hne : rest ≠ []) :
    ∃ u, Yields (leaveCall m) w () u ∧ u.Ready m ∧ u.running m = rest := by
  obtain ⟨t', hpop, hgrounded, hrunning⟩ := Tracer.popFrame_runs hw.grounded hids hne
  have hkeeps := Tracer.popFrame_leads (w.monitor m).tracer hw.invariant
  rw [hpop] at hkeeps
  refine ⟨_, Yields.bind_iff.2 ⟨⟨⟩, w, ensureLive_yields hw.live, traced_yields hpop⟩,
    hw.onTracer hkeeps.1 hgrounded, ?_⟩
  rw [World.running, World.tracer_onTracer hw.present]
  exact hrunning

theorem running_ne_nil (w : World σ) (m : MonitorId) : w.running m ≠ [] := by
  simp [World.running, Tracer.running, CallStack.frames]

theorem run_withFrame {parameters captured : List String} {body : TraceId → HostM σ Value}
    {id : TraceId} {u v : World σ}
    (henter : Yields (enterCall m (parameters.map some) captured) w id u)
    (hleave : Yields (leaveCall m) ((body id).run u).2 () v) :
    (withFrame m parameters captured body).run w = (((body id).run u).1, v) := by
  unfold withFrame
  rw [Computation.run_bind, henter.run]
  change ((do
    leaveCall m
    HostM.answer ((body id).run u).1 : HostM σ Value).run ((body id).run u).2) = _
  rw [Computation.run_bind, hleave.run]
  cases ((body id).run u).1 <;> rfl

theorem withFrame_outcome (hw : w.Ready m) (parameters captured : List String)
    {body : TraceId → HostM σ Value} (hbody : ∀ id u, Steady m E (body id) u) :
    ∃ id u, Yields (enterCall m (parameters.map some) captured) w id u ∧
      ((withFrame m parameters captured body).run w).1 = ((body id).run u).1 ∧
      ((withFrame m parameters captured body).run w).2.Ready m ∧
      ((withFrame m parameters captured body).run w).2.running m = w.running m ∧
      u.Ready m := by
  obtain ⟨id, u, henter, hready, hrunning⟩ := enterCall_ready hw (parameters.map some) captured
  obtain ⟨⟨hready', hrunning'⟩, -⟩ := hbody id u hready
  obtain ⟨v, hleave, hready'', hrunning''⟩ :=
    leaveCall_ready hready' (hrunning'.trans hrunning) (running_ne_nil w m)
  rw [run_withFrame henter hleave]
  exact ⟨id, u, henter, rfl, hready'', hrunning'', hready⟩

theorem withFrame_steady (parameters captured : List String) {body : TraceId → HostM σ Value}
    (hbody : ∀ id u, Steady m E (body id) u) (w : World σ) :
    Steady m E (withFrame m parameters captured body) w := by
  intro hw
  obtain ⟨id, u, -, hout, hready, hrunning, hu⟩ := withFrame_outcome hw parameters captured hbody
  refine ⟨⟨hready, hrunning⟩, fun e he => ?_⟩
  rw [hout] at he
  exact (hbody id u hu).2 e he

end Monitor

/-- The computations that a program consists of which names no argument as a source and leaves what
it enters. What it does of its own may fail with the errors in `E`. -/
inductive Balanced (m : MonitorId) (E : HostError → Prop) : {α : Type} → HostM σ α → Prop
  | own {α : Type} {x : HostM σ α} (hspares : ∀ w, World.Spares m w (x.run w).2)
      (herror : ∀ w e, (x.run w).1 = .error e → E e) : Balanced m E x
  | bind {α β : Type} {x : HostM σ α} {f : α → HostM σ β} :
      Balanced m E x → (∀ a, Balanced m E (f a)) → Balanced m E (x >>= f)
  | attempt {α : Type} {x : HostM σ α} : Balanced m E x → Balanced m E (HostM.attempt x)
  | assign (value : Value) (target : RawKey) {source : RawKey} :
      ¬ source.IsArgument → Balanced m E (Monitor.assign m value target source)
  | arithmeticCheck {call : Call σ} (result : Value) (left right : Operand)
      (operator location : String) :
      (∀ f receiver arguments, Balanced m E (call f receiver arguments)) →
      Balanced m E (Monitor.arithmeticCheck call m result left right operator location)
  | callCheck {call : Call σ} (callee receiver : Value) (arguments : List Value)
      (text location : String) :
      (∀ f receiver arguments, Balanced m E (call f receiver arguments)) →
      Balanced m E (Monitor.callCheck call m callee receiver arguments text location)
  | withFrame (parameters captured : List String) {body : TraceId → HostM σ Value} :
      (∀ id, Balanced m E (body id)) → Balanced m E (Monitor.withFrame m parameters captured body)

theorem Balanced.steady {α : Type} {x : HostM σ α} (h : Balanced m E x) :
    ∀ w, Steady m E x w := by
  induction h with
  | own hspares herror =>
    exact fun w hw => ⟨(hspares w).staysReady hw, fun e he => .inl (herror w e he)⟩
  | bind _ _ ihx ihf => exact fun w => .bind (ihx w) ihf
  | attempt _ ih => exact fun w => .attempt (ih w)
  | assign value target hs => exact Monitor.assign_steady value target hs
  | arithmeticCheck result left right operator location _ ih =>
    exact Monitor.arithmeticCheck_steady ih result left right operator location
  | callCheck callee receiver arguments text location _ ih =>
    exact Monitor.callCheck_steady ih callee receiver arguments text location
  | withFrame parameters captured _ ih => exact Monitor.withFrame_steady parameters captured ih

/-- The worlds in which the parts of such a program begin, from the bodies of the frames that it
enters to the functions that its checks call. -/
inductive Within (m : MonitorId) (E : HostError → Prop) (w₀ : World σ) : World σ → Prop
  | start : Within m E w₀ w₀
  | after {w : World σ} {α : Type} {x : HostM σ α} :
      Within m E w₀ w → Balanced m E x → Within m E w₀ (x.run w).2
  | entered {w : World σ} (parameters : List (Option String)) (captured : List String) :
      Within m E w₀ w → Within m E w₀ ((Monitor.enterCall m parameters captured).run w).2
  | reporting {w : World σ} (key : RawKey) :
      Within m E w₀ w → Within m E w₀ (w.historyLines m key).2
  | calling {w : World σ} (f : Callable) (arguments : List Value) :
      Within m E w₀ w → Within m E w₀ (w.calling m f arguments)

theorem Within.ready {w₀ w : World σ} (h : Within m E w₀ w) (h₀ : w₀.Ready m) : w.Ready m := by
  induction h with
  | start => exact h₀
  | after _ hx ih => exact (hx.steady _ ih).1.1
  | entered parameters captured _ ih =>
    obtain ⟨id, u, henter, hu, -⟩ := Monitor.enterCall_ready ih parameters captured
    rwa [henter.run]
  | reporting key _ ih => exact (World.staysReady_historyLines _ key ih).1
  | calling f arguments _ ih => exact (World.staysReady_calling _ f arguments ih).1

theorem World.ready_newMonitor (w : World σ) (r : RealmId) (checks : CheckConfig) :
    (w.newMonitor r checks).2.Ready (w.newMonitor r checks).1 := by
  refine ⟨?_, ?_, ?_, ?_⟩
  · simp [newMonitor, install, reflect]
  · simp [newMonitor, monitor, install, reflect]
  · rw [tracer_newMonitor]
    exact Tracer.invariant_start
  · rw [tracer_newMonitor]
    exact Tracer.grounded_start

/-- Wherever in a balanced program, begun with a new monitor, a part of it begins: it fails with an
error of its own or of a check, never for want of a running call, and ends with the calls that ran
when it began. A frame is entered, and what comes out of it is what came out of its body. -/
theorem balanced_in_step (w : World σ) (r : RealmId) (checks : CheckConfig)
    {E E' : HostError → Prop} {u : World σ}
    (hu : Within (w.newMonitor r checks).1 E (w.newMonitor r checks).2 u) :
    let m := (w.newMonitor r checks).1
    (∀ {α : Type} {x : HostM σ α}, Balanced m E' x →
      (∀ e, (x.run u).1 = .error e → E' e ∨ ∀ fault, e ≠ .trace fault) ∧
      (x.run u).2.running m = u.running m ∧
      ((x.run u).2.monitor m).tracer.depth = (u.monitor m).tracer.depth) ∧
    ∀ parameters captured body, (∀ id, Balanced m E' (body id)) →
      ∃ id v, Yields (Monitor.enterCall m (parameters.map some) captured) u id v ∧
        ((Monitor.withFrame m parameters captured body).run u).1 = ((body id).run v).1 := by
  intro m
  have hready : u.Ready m := hu.ready (World.ready_newMonitor w r checks)
  have hdepth : ∀ v : World σ, (v.monitor m).tracer.depth = (v.running m).length := fun v => by
    simp [World.running, Tracer.running, Tracer.depth, CallStack.depth, CallStack.frames]
  constructor
  · intro α x hx
    obtain ⟨⟨-, hrunning⟩, herror⟩ := hx.steady u hready
    exact ⟨herror, hrunning, by rw [hdepth, hdepth, hrunning]⟩
  · intro parameters captured body hbody
    obtain ⟨id, v, henter, hout, -⟩ :=
      Monitor.withFrame_outcome hready parameters captured fun id => (hbody id).steady
    exact ⟨id, v, henter, hout⟩

def throwingFunction : Callable := { arity := 1, source := some "a => f(a)", behaviour := .routine 0 }

def throwing : Call Unit := fun _ _ _ =>
  Monitor.withFrame 0 ["a"] ["a"] fun _ => do
    let _ ← Monitor.assign 0 (.number .nan) { scope := .object 0, slot := .text "x" }
      { slot := .text "a" }
    throw (.thrown .null)

theorem balanced_throwing (f : Callable) (receiver : Value) (arguments : List Value) :
    Balanced 0 (fun e => e = .thrown .null) (throwing f receiver arguments) := by
  refine .withFrame _ _ fun _ => .bind (.assign _ _ ?_) fun _ => .own (fun w => ?_) fun w e he => ?_
  · simp [RawKey.IsArgument]
  · exact ⟨fun h => h, rfl, rfl⟩
  · cases he
    rfl

theorem balanced_in_step_throwing :
    let w := ((World.withFunction throwingFunction).newMonitor 0 {}).2
    let u := ((Monitor.enterCall 0 [some "b"] []).run w).2
    let x : HostM Unit Value := do
      let _ ← Monitor.assign 0 (.number .nan) { slot := .number .zero } {}
      Monitor.callCheck throwing 0 (.object 1) .undefined [.number .nan] "f" "f.js 1:1"
    (x.run u).1.toBool = false ∧ u.running 0 = [3, 2] ∧
      (x.run u).2.running 0 = u.running 0 ∧ ((x.run u).2.monitor 0).tracer.global.size = 3 := by
  intro w u x
  have hx : Balanced 0 (fun e => e = .thrown .null) x := by
    refine .bind (.assign _ _ ?_) fun _ => .callCheck _ _ _ _ _ balanced_throwing
    simp [RawKey.IsArgument]
  have hu : Within 0 (fun e => e = .thrown .null) w u := .entered [some "b"] [] .start
  have h := ((balanced_in_step (.withFunction throwingFunction) 0 {} hu).1 hx).2.1
  exact ⟨by decide +kernel, by decide +kernel, h, by decide +kernel⟩

end CoercionTrace
