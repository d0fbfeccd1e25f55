import CoercionTrace.Monitor.Check
import CoercionTrace.Proofs.Trace.Invariant

/-!
# What the tracer of every monitor keeps to

A program that is watched reaches its monitor through the checks only, in any order and from inside
the functions that the checks call. Main statement: whatever it does, the tracer keeps to
`Tracer.Invariant` and to the frame in which the program began (`tracer_invariant_of_reaches`).
-/

namespace CoercionTrace

variable {σ : Type} {m : MonitorId}

namespace World

def KeepsTracer (m : MonitorId) (w w' : World σ) : Prop :=
  Tracer.Keeps (w.monitor m).tracer (w'.monitor m).tracer

instance : IsPreorder (World σ) (KeepsTracer m) where
  refl w := refl_of Tracer.Keeps (w.monitor m).tracer
  trans _ _ _ h h' := trans_of Tracer.Keeps h h'

theorem keepsTracer_of_eq {w w' : World σ} (h : (w'.monitor m).tracer = (w.monitor m).tracer) :
    KeepsTracer m w w' := by
  rw [KeepsTracer, h]
  exact refl_of Tracer.Keeps _

-- A number that no monitor has names a monitor that does not change.
theorem monitor_onMonitor (w : World σ) (m : MonitorId) (f : Monitor → Monitor) :
    (w.onMonitor m f).monitor m = if m < w.monitors.size then f (w.monitor m) else w.monitor m := by
  simp only [monitor, onMonitor, Array.getElem?_modify, if_true]
  by_cases h : m < w.monitors.size
  · simp [h]
  · simp [h]

theorem keepsTracer_onTracer {w : World σ} {f : Tracer → Tracer}
    (h : Tracer.Keeps (w.monitor m).tracer (f (w.monitor m).tracer)) :
    KeepsTracer m w (w.onTracer m f) := by
  unfold KeepsTracer onTracer
  rw [monitor_onMonitor]
  split
  · exact h
  · exact refl_of Tracer.Keeps _

theorem le_next_identify (h : Heap) (global : ObjectId) (next : TraceId) (id : ObjectId) :
    next ≤ (h.identify global next id).2.1 := by
  unfold Heap.identify
  split
  · exact Nat.le_refl _
  · split
    · exact Nat.le_refl _
    · exact Nat.le_succ _

theorem keepsTracer_identify (w : World σ) (m : MonitorId) (id : ObjectId) :
    KeepsTracer m w (w.identify m id).2 := by
  refine trans_of (KeepsTracer m) (keepsTracer_of_eq ?_) (keepsTracer_onTracer ?_)
  · rfl
  · exact Tracer.keeps_nextId (le_next_identify _ _ _ id)

def KeepsSink (m : MonitorId) (w w' : World σ) : Prop := (w'.monitor m).sink = (w.monitor m).sink

instance : IsPreorder (World σ) (KeepsSink m) where
  refl _ := rfl
  trans _ _ _ h h' := h'.trans h

structure Spares (m : MonitorId) (w w' : World σ) : Prop where
  present : m < w.monitors.size → m < w'.monitors.size
  live : (w'.monitor m).tornDown = (w.monitor m).tornDown
  tracer : (w'.monitor m).tracer = (w.monitor m).tracer

def calling (w : World σ) (m : MonitorId) (f : Callable) (arguments : List Value) : World σ :=
  if f.isNative then w.onTracer m Tracer.clearReturn
  else (w.onTracer m Tracer.clearReturn).onTracer m fun t => t.announce arguments.length

theorem keepsTracer_calling (w : World σ) (m : MonitorId) (f : Callable)
    (arguments : List Value) : KeepsTracer m w (w.calling m f arguments) := by
  have hclear : KeepsTracer m w (w.onTracer m Tracer.clearReturn) :=
    keepsTracer_onTracer (Tracer.keeps_clearReturn _)
  unfold calling
  split
  · exact hclear
  · exact trans_of (KeepsTracer m) hclear (keepsTracer_onTracer (Tracer.keeps_announce _ _))

structure Handles (m : MonitorId) (R : World σ → World σ → Prop) : Prop where
  reported : ∀ w reports stdout stderr, R w { w with reports, stdout, stderr }
  identify : ∀ w id, R w (w.identify m id).2
  calling : ∀ w f arguments, R w (w.calling m f arguments)
  called : ∀ w, R w (w.onTracer m Tracer.clearPending)

/-- What checks and programs do with a monitor and its realm, apart from the functions that they
call. -/
structure Admits (m : MonitorId) (R : World σ → World σ → Prop) : Prop where
  spares : ∀ {w w'}, Spares m w w' → R w w'
  identify : ∀ w id, R w (w.identify m id).2
  calling : ∀ w f arguments, R w (w.calling m f arguments)
  called : ∀ w, R w (w.onTracer m Tracer.clearPending)

theorem Admits.handles {R : World σ → World σ → Prop} (h : Admits m R) : Handles m R where
  reported _ _ _ _ := h.spares ⟨id, rfl, rfl⟩
  identify := h.identify
  calling := h.calling
  called := h.called

theorem admits_keepsTracer : Admits m (KeepsTracer (σ := σ) m) where
  spares h := keepsTracer_of_eq h.tracer
  identify w id := keepsTracer_identify w m id
  calling w f arguments := keepsTracer_calling w m f arguments
  called _ := keepsTracer_onTracer (Tracer.keeps_clearPending _)

section
variable {R : World σ → World σ → Prop} [IsPreorder (World σ) R]

theorem leads_traceScope (hidentify : ∀ w id, R w (w.identify m id).2) (w : World σ) (v : Value) :
    R w (w.traceScope m v).2 := by
  unfold traceScope
  split
  · exact refl_of R w
  · exact refl_of R w
  · split
    · exact refl_of R w
    · exact hidentify w _
  · exact refl_of R w

theorem leads_traceKey (hidentify : ∀ w id, R w (w.identify m id).2) (w : World σ) (key : RawKey) :
    R w (w.traceKey m key).2 := by
  have h := leads_traceScope hidentify w key.scope
  unfold traceKey
  split <;> simp_all

end

theorem keepsSink_identify (w : World σ) (m : MonitorId) (id : ObjectId) :
    KeepsSink m w (w.identify m id).2 := by
  unfold KeepsSink identify onTracer
  dsimp only
  rw [monitor_onMonitor]
  split <;> rfl

theorem keepsSink_traceKey (w : World σ) (m : MonitorId) (key : RawKey) :
    KeepsSink m w (w.traceKey m key).2 :=
  leads_traceKey (keepsSink_identify · m) w key

theorem keepsTracer_traceKey (w : World σ) (m : MonitorId) (key : RawKey) :
    KeepsTracer m w (w.traceKey m key).2 :=
  leads_traceKey (fun w id => keepsTracer_identify w m id) w key

theorem memberSlot_ne_result (h : Heap) (v : Value) : memberSlot h v ≠ .result := by
  cases v <;> simp [memberSlot]

theorem traceKey_isHere_or (w : World σ) (m : MonitorId) (key : RawKey) :
    (w.traceKey m key).1.isHere = true ∨ (w.traceKey m key).1.slot ≠ .result := by
  unfold traceKey
  split
  · exact .inl rfl
  · exact .inl rfl
  · exact .inr (memberSlot_ne_result _ _)

end World

open World

namespace HostM

variable {R : World σ → World σ → Prop} {α : Type} {w : World σ}

theorem attempt_leads {step : HostM σ α} (h : Leads R step w) : Leads R (attempt step) w := h

theorem run_andFinally (step : HostM σ α) (last : World σ → World σ) (w : World σ) :
    (step.andFinally last).run w = ((step.run w).1, last (step.run w).2) := by
  unfold andFinally attempt
  rw [Computation.run_bind]
  change ((do
    modifyThe (World σ) last
    answer (step.run w).1 : HostM σ α).run (step.run w).2) = _
  cases (step.run w).1 <;> rfl

theorem andFinally_leads [IsPreorder (World σ) R] {step : HostM σ α} {last : World σ → World σ}
    (h : Leads R step w) (hlast : ∀ u, R u (last u)) : Leads R (step.andFinally last) w := by
  rw [Leads, run_andFinally]
  exact trans_of R h (hlast _)

end HostM

namespace Monitor

theorem ensureLive_leads {R : World σ → World σ → Prop} [Std.Refl R] (w : World σ) :
    Leads R (ensureLive m) w := by
  refine Leads.get_bind ?_
  split
  · exact .throw _
  · exact .pure _

theorem run_ensureLive {α : Type} (x : HostM σ α) (w : World σ) :
    (do ensureLive m; x : HostM σ α).run w =
      if (w.monitor m).tornDown then (.error .tornDown, w) else x.run w := by
  have hrun : (ensureLive m).run w =
      (if (w.monitor m).tornDown then throw .tornDown else pure () : HostM σ Unit).run w := rfl
  rw [Computation.run_bind, hrun]
  cases (w.monitor m).tornDown <;> rfl

theorem ensureLive_bind {R : World σ → World σ → Prop} [Std.Refl R] {α : Type} {w : World σ}
    {x : HostM σ α} (h : Leads R x w) : Leads R (do ensureLive m; x) w := by
  rw [Leads, run_ensureLive]
  split
  · exact refl_of R w
  · exact h

theorem traced_leads {α : Type} {step : TraceM α} {w : World σ}
    (h : Leads Tracer.Keeps step (w.monitor m).tracer) :
    Leads (KeepsTracer m) (traced (σ := σ) m step) w := by
  refine Leads.get_bind (Leads.bind (.modify (keepsTracer_onTracer h)) fun _ u _ => ?_)
  split
  · exact .pure _
  · exact .throw _

def CallLeads (R : World σ → World σ → Prop) (call : Call σ) : Prop :=
  ∀ f receiver arguments w, Leads R (call f receiver arguments) w

/-- The program's own sink for the reports of a monitor, if it has one, leads to related worlds
only. -/
def SinkLeads (m : MonitorId) (R : World σ → World σ → Prop) (call : Call σ) (w : World σ) : Prop :=
  ∀ f, (w.monitor m).sink = .script f → ∀ text u, Leads R (call f .undefined [.text text]) u

theorem CallLeads.sink {R : World σ → World σ → Prop} {call : Call σ} (h : CallLeads R call)
    (w : World σ) : SinkLeads m R call w := fun f _ _ u => h f _ _ u

section
variable {R : World σ → World σ → Prop} [IsPreorder (World σ) R] {call : Call σ}

theorem deliver_leads {w : World σ} (hR : Handles m R) (hsink : SinkLeads m R call w)
    (r : CheckReport) : Leads R (deliver call m r) w := by
  refine Leads.get_bind ?_
  split
  · split
    · exact .modify (hR.reported w _ _ _)
    · exact .modify (hR.reported w _ _ _)
  · exact .modify (hR.reported w _ _ _)
  · next f hf => exact Leads.bind (HostM.attempt_leads (hsink f hf _ w)) fun _ _ _ => .pure _

theorem report_leads_of_sink {w : World σ} (hR : Handles m R) (hsink : SinkLeads m R call w)
    (kind : CheckKind) (arguments : List String) (location : String) (cause : Option RawKey) :
    Leads R (report call m kind arguments location cause) w := by
  have hfinish : ∀ (history : List String) (u : World σ), SinkLeads m R call u → Leads R (do
      deliver call m (CheckReport.make kind ((w.monitor m).checks.severity kind) arguments
        (some location) history)
      if (w.monitor m).checks.severity kind = .error then
        throw (.check kind (CheckReport.make kind ((w.monitor m).checks.severity kind) arguments
          (some location) history).head) : HostM σ Unit) u := by
    refine fun history u hu => Leads.bind (deliver_leads hR hu _) fun _ v _ => ?_
    split
    · exact .throw _
    · exact .pure _
  refine Leads.get_bind ?_
  dsimp only
  split
  · cases cause with
    | none => exact hfinish [] w hsink
    | some key =>
      -- What is marked for a history does not change where reports go.
      have hkey : SinkLeads m R call (w.traceKey m key).2 := by
        rw [SinkLeads, keepsSink_traceKey w m key]
        exact hsink
      refine Leads.bind (.modifyGet (leads_traceKey hR.identify w key)) fun history u hu => ?_
      cases hu
      exact hfinish _ _ hkey
  · exact .pure _

theorem report_leads (hR : Handles m R) (hcall : CallLeads R call) (kind : CheckKind)
    (arguments : List String) (location : String) (cause : Option RawKey) (w : World σ) :
    Leads R (report call m kind arguments location cause) w :=
  report_leads_of_sink hR (hcall.sink w) kind arguments location cause

theorem arithmeticCheck_leads_of_sink {w : World σ} (hR : Handles m R)
    (hsink : SinkLeads m R call w) (result : Value) (left right : Operand)
    (operator location : String) :
    Leads R (arithmeticCheck call m result left right operator location) w := by
  refine ensureLive_bind (Leads.get_bind ?_)
  dsimp only
  split
  · exact .pure _
  · exact Leads.bind (report_leads_of_sink hR hsink _ _ _ _) fun _ _ _ => .pure _

theorem arithmeticCheck_leads (hR : Handles m R) (hcall : CallLeads R call) (result : Value)
    (left right : Operand) (operator location : String) (w : World σ) :
    Leads R (arithmeticCheck call m result left right operator location) w :=
  arithmeticCheck_leads_of_sink hR (hcall.sink w) result left right operator location

theorem run_announced (call : Call σ) (m : MonitorId) (f : Callable) (receiver : Value)
    (arguments : List Value) (w : World σ) :
    (announced call m f receiver arguments).run w =
      ((call f receiver arguments).andFinally fun w => w.onTracer m Tracer.clearPending).run
        (w.calling m f arguments) := by
  unfold announced World.calling
  cases f.isNative <;> rfl

theorem announced_leads (hR : Handles m R) (hcall : CallLeads R call) (f : Callable)
    (receiver : Value) (arguments : List Value) (w : World σ) :
    Leads R (announced call m f receiver arguments) w := by
  rw [Leads, run_announced]
  refine trans_of R (hR.calling w f arguments) ?_
  exact HostM.andFinally_leads (hcall f receiver arguments _) hR.called

theorem callCheck_leads (hR : Handles m R) (hcall : CallLeads R call) (callee receiver : Value)
    (arguments : List Value) (text location : String) (w : World σ) :
    Leads R (callCheck call m callee receiver arguments text location) w := by
  refine Leads.bind (ensureLive_leads w) fun _ u _ => Leads.get_bind ?_
  dsimp only
  split
  · exact Leads.bind (report_leads hR hcall _ _ _ _ u) fun _ _ _ => .throw _
  · next f _ =>
    split
    · exact Leads.bind (report_leads hR hcall _ _ _ _ u) fun _ v _ =>
        announced_leads hR hcall f receiver arguments v
    · exact announced_leads hR hcall f receiver arguments u

theorem toPrimitive_leads (hcall : CallLeads R call) (v : Value) (w : World σ) :
    Leads R (HostM.toPrimitive call v) w := by
  unfold HostM.toPrimitive
  split
  · refine Leads.get_bind ?_
    split
    · exact .pure _
    split
    · exact .pure _
    · refine Leads.bind (hcall _ _ _ w) fun _ u _ => ?_
      split
      · exact .throw _
      · exact .pure _
  · exact .pure _

theorem searchCheck_leads (hcall : CallLeads R call) (key target : Value) (w : World σ) :
    Leads R (searchCheck call m key target) w := by
  refine Leads.bind (ensureLive_leads w) fun _ u _ => ?_
  unfold HostM.search
  split
  · refine Leads.bind (Leads.bind (toPrimitive_leads hcall key u) fun _ _ _ => .pure _)
      fun _ v _ => ?_
    split
    · exact .pure _
    · exact Leads.get_bind (.pure _)
  · exact Leads.get_bind (.throw _)

end

theorem assign_leads (value : Value) (target source : RawKey) (w : World σ) :
    Leads (KeepsTracer m) (assign m value target source) w := by
  refine Leads.bind (ensureLive_leads w) fun _ u _ => ?_
  split
  · exact .pure _
  · refine Leads.bind (.modifyGet (keepsTracer_traceKey u m target)) fun key v hv => ?_
    refine Leads.bind (.modifyGet (keepsTracer_traceKey v m source)) fun origin x _ => ?_
    have hkey : key.isHere = true ∨ key.slot ≠ .result := by
      obtain ⟨rfl, -⟩ : key = (u.traceKey m target).1 ∧ v = (u.traceKey m target).2 := by
        cases hv
        exact ⟨rfl, rfl⟩
      exact traceKey_isHere_or u m target
    exact Leads.bind (traced_leads (Tracer.record_leads hkey value origin)) fun _ _ _ => .pure _

theorem enterCall_leads (parameters : List (Option String)) (captured : List String)
    (w : World σ) : Leads (KeepsTracer m) (enterCall m parameters captured) w :=
  Leads.bind (ensureLive_leads w) fun _ u _ =>
    traced_leads (Tracer.pushFrame_leads (u.monitor m).tracer parameters captured)

theorem leaveCall_leads (w : World σ) : Leads (KeepsTracer m) (leaveCall m) w :=
  Leads.bind (ensureLive_leads w) fun _ u _ => traced_leads (Tracer.popFrame_leads (u.monitor m).tracer)

end Monitor

/-- The worlds that a program leads to, which touches the tracer of a monitor through its operations
only. Its functions are such programs again, and a world is also reached in the midst of a call. -/
inductive Reaches (m : MonitorId) : World σ → World σ → Prop
  | refl (w : World σ) : Reaches m w w
  | other {w u u' : World σ} : Reaches m w u → (u'.monitor m).tracer = (u.monitor m).tracer →
      Reaches m w u'
  | identify {w u : World σ} (id : ObjectId) : Reaches m w u → Reaches m w (u.identify m id).2
  | assign {w u : World σ} (value : Value) (target source : RawKey) : Reaches m w u →
      Reaches m w ((Monitor.assign m value target source).run u).2
  | enterCall {w u : World σ} (parameters : List (Option String)) (captured : List String) :
      Reaches m w u → Reaches m w ((Monitor.enterCall m parameters captured).run u).2
  | leaveCall {w u : World σ} : Reaches m w u → Reaches m w ((Monitor.leaveCall m).run u).2
  | calling {w u : World σ} (f : Callable) (arguments : List Value) : Reaches m w u →
      Reaches m w (u.calling m f arguments)
  | arithmeticCheck {w u : World σ} {call : Call σ} (result : Value) (left right : Operand)
      (operator location : String)
      (hcall : ∀ f receiver arguments v, Reaches m v ((call f receiver arguments).run v).2) :
      Reaches m w u →
      Reaches m w ((Monitor.arithmeticCheck call m result left right operator location).run u).2
  | callCheck {w u : World σ} {call : Call σ} (callee receiver : Value) (arguments : List Value)
      (text location : String)
      (hcall : ∀ f receiver arguments v, Reaches m v ((call f receiver arguments).run v).2) :
      Reaches m w u →
      Reaches m w ((Monitor.callCheck call m callee receiver arguments text location).run u).2

theorem Reaches.keepsTracer {w w' : World σ} (h : Reaches m w w') : KeepsTracer m w w' := by
  induction h with
  | refl w => exact refl_of _ w
  | other _ htracer ih => exact trans_of _ ih (keepsTracer_of_eq htracer)
  | identify id _ ih => exact trans_of _ ih (keepsTracer_identify _ m id)
  | assign value target source _ ih =>
    exact trans_of _ ih (Monitor.assign_leads value target source _)
  | enterCall parameters captured _ ih =>
    exact trans_of _ ih (Monitor.enterCall_leads parameters captured _)
  | leaveCall _ ih => exact trans_of _ ih (Monitor.leaveCall_leads _)
  | calling f arguments _ ih => exact trans_of _ ih (keepsTracer_calling _ m f arguments)
  | arithmeticCheck result left right operator location _ _ hcall ih =>
    exact trans_of _ ih
      (Monitor.arithmeticCheck_leads admits_keepsTracer.handles hcall result left right operator location _)
  | callCheck callee receiver arguments text location _ _ hcall ih =>
    exact trans_of _ ih
      (Monitor.callCheck_leads admits_keepsTracer.handles hcall callee receiver arguments text location _)

theorem Tracer.invariant_start : start.Invariant where
  ordered := List.pairwise_singleton _ _
  ids f hf := by
    obtain rfl := List.mem_singleton.1 hf
    exact ⟨Nat.lt_succ_self _, Nat.lt_succ_self _⟩
  entries f hf := by
    obtain rfl := List.mem_singleton.1 hf
    exact keepable_empty
  global key item h := by simp [start] at h
  returns f hf item hi := by
    obtain rfl := List.mem_singleton.1 hf
    cases hi

theorem World.tracer_newMonitor (w : World σ) (r : RealmId) (checks : CheckConfig) :
    ((w.newMonitor r checks).2.monitor (w.newMonitor r checks).1).tracer = .start := by
  simp [newMonitor, monitor, install, reflect]

/-- What a monitor does for a program keeps the invariant of its tracer and its bottom frame, and
both are those of a fresh tracer at first. -/
theorem Reaches.tracer_kept {w : World σ} {r : RealmId} {checks : CheckConfig} {w' : World σ}
    (h : Reaches (w.newMonitor r checks).1 (w.newMonitor r checks).2 w') :
    (w'.monitor (w.newMonitor r checks).1).tracer.Invariant ∧
      (w'.monitor (w.newMonitor r checks).1).tracer.stack.bottom.callId =
        Tracer.start.stack.bottom.callId := by
  have hkeeps := h.keepsTracer
  rw [KeepsTracer, World.tracer_newMonitor] at hkeeps
  exact hkeeps Tracer.invariant_start

/-- Whatever a program does with a monitor that was made for it, in any order: the invariant holds,
and there is a bottom frame, the one in which the program began. -/
theorem tracer_invariant_of_reaches (w : World σ) (r : RealmId) (checks : CheckConfig)
    {w' : World σ} (h : Reaches (w.newMonitor r checks).1 (w.newMonitor r checks).2 w') :
    (w'.monitor (w.newMonitor r checks).1).tracer.Invariant ∧
      (w'.monitor (w.newMonitor r checks).1).tracer.stack.frames.getLast?.map Frame.callId =
        some (globalTraceId + 1) := by
  obtain ⟨hinvariant, hbottom⟩ := h.tracer_kept
  refine ⟨hinvariant, ?_⟩
  rw [CallStack.getLast?_frames, Option.map_some, hbottom]
  rfl

def World.withFunction (f : Callable) : World Unit :=
  { heap := { objects := #[{}, { kind := .function f }] }, realms := #[{ global := 0 }],
    program := () }

/-- The program calls a function that enters a call and never leaves it, leaves two calls, and
stores a value. -/
theorem tracer_invariant_of_unbalanced :
    ∃ w' : World Unit,
      Reaches 0 ((World.withFunction { behaviour := .routine 0 }).newMonitor 0 {}).2 w' ∧
      (w'.monitor 0).tracer.localItem? (.name "x") = some ⟨.number .nan, .untraced⟩ ∧
      (w'.monitor 0).tracer.Invariant ∧
      (w'.monitor 0).tracer.stack.frames.getLast?.map Frame.callId = some (globalTraceId + 1) := by
  have hcall : ∀ (f : Callable) (receiver : Value) (arguments : List Value) (v : World Unit),
      Reaches 0 v ((do
        let _ ← Monitor.enterCall 0 [some "a"] []
        return .undefined : HostM Unit Value).run v).2 := by
    intro f receiver arguments v
    have h := Reaches.enterCall (m := 0) [some "a"] [] (.refl v)
    rw [Computation.run_bind]
    cases hr : (Monitor.enterCall 0 [some "a"] []).run v with
    | mk r u =>
      rw [hr] at h
      cases r <;> exact h
  have h := Reaches.assign (.number .nan) { slot := .text "x" } {} (.leaveCall (.leaveCall
    (.callCheck (.object 1) .undefined [.undefined] "f" "f.js 1:1" hcall
      (.refl ((World.withFunction { behaviour := .routine 0 }).newMonitor 0 {}).2))))
  exact ⟨_, h, by decide +kernel, tracer_invariant_of_reaches (.withFunction _) 0 {} h⟩

end CoercionTrace
