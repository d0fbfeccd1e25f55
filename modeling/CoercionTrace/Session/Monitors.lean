import CoercionTrace.Session.State

/-!
# Commands on tracers, monitors and masks
-/

namespace CoercionTrace.Session

def traced {α : Type} (t : TracerRef) (step : TraceM α) : SessionM α :=
  match t with
  | .ofMonitor m => Monitor.traced m step
  | .free i => do
    let w ← get
    let (r, tracer) := step.run.run ((w.program.tracers[i]?).getD default)
    let tracers := w.program.tracers.setIfInBounds i tracer
    set { w with program := { w.program with tracers } }
    match r with
    | .ok a => return a
    | .error e => throw (.trace e)

def onTracer (a : Activation) (t : TracerRef) : TraceCommand → SessionM Answer
  | .depth => return .count (← traced t get).depth
  | .localEntry slot => return .item ((← traced t get).localItem? slot)
  | .globalEntry key => return .item ((← traced t get).globalItem? key)
  | .lines key => return .texts ((← traced t get).lines (← HostM.heap).describe key)
  | .record target v source => do
    let v ← eval a v
    traced t (Tracer.record target v source)
    return .done
  | .push parameters captured => return .entered (← traced t (Tracer.pushFrame parameters captured))
  | .pop => do
    traced t Tracer.popFrame
    return .done
  | .announce arguments => do
    traced t (modify fun tracer => tracer.announce arguments)
    return .done
  | .clearPending => do
    traced t (modify Tracer.clearPending)
    return .done
  | .clearReturn => do
    traced t (modify Tracer.clearReturn)
    return .done
  | .inspect => return .text (← traced t get).inspect

def setSink (m : MonitorId) (sink : Sink) : SessionM Answer := do
  Monitor.setSink m sink
  return .done

def provide (m : MonitorId) : SessionM Unit := do
  if m = 0 ∧ (← get).monitors.isEmpty then
    let m ← modifyGet fun w => w.newMonitor realm {}
    Monitor.setSink m .recording

/-- Make sure that a session has a monitor. One that it has let go counts as torn down. -/
def require (m : MonitorId) : SessionM Unit := do
  provide m
  let w ← get
  if w.monitors.size ≤ m ∨ m ∈ w.program.forgotten then throw .tornDown

def performOn (call : Call Session) (a : Activation) (m : MonitorId) :
    MonitorCommand → SessionM Answer
  | .tearDown => do
    modify fun w => w.teardown m
    return .done
  | .isTornDown => return .flag ((← get).monitor m).tornDown
  | .info => return .text monitorInfo
  | .inspect => return .text (Monitor.inspect ((← get).monitor m))
  | .leaveError => do
    match ← HostM.attempt (Monitor.leaveCall m) with
    | .ok () => return .error none
    | .error e => return .error (some ("Runtime error: " ++ e.message (← HostM.heap).display))
  | .setSeverity kind severity => do
    modify fun w => w.onMonitor m fun monitor =>
      { monitor with checks := monitor.checks.set kind severity }
    return .done
  | .severities => return .severities ((← get).monitor m).checks
  | .record => setSink m .recording
  | .print => setSink m .console
  | .identify v => do
    match (← eval a v).object? with
    | some id => return .count (← modifyGet fun w => w.identify m id)
    | none => return .done
  | .key key => do
    let key ← evalKey a key
    return .key (← modifyGet fun w => w.traceKey m key)
  | .lines key => do
    let key ← evalKey a key
    return .texts (← modifyGet fun w => w.historyLines m key)
  | .arithmetic result left right operator location => do
    let left ← evalOperand a left
    let right ← evalOperand a right
    let result ← match result with
      | some t => eval a t
      | none => HostM.binary call operator left.value right.value
    return .value (← Monitor.arithmeticCheck call m result left right operator location)
  | .call callee receiver arguments text location => do
    let callee ← eval a callee
    let receiver ← eval a receiver
    let arguments ← evalAll a arguments
    return .value (← Monitor.callCheck call m callee receiver arguments text location)
  | .assign v target source => do
    let v ← eval a v
    let target ← evalKey a target
    let source ← evalKey a source
    return .value (← Monitor.assign m v target source)
  | .enter parameters captured => return .entered (← Monitor.enterCall m parameters captured)
  | .leave => do
    Monitor.leaveCall m
    return .done
  | .search key target => do
    let key ← eval a key
    let target ← eval a target
    return .flag (← Monitor.searchCheck call m key target)
  | .withFrame parameters captured token body =>
    return .value (← Monitor.withFrame m parameters captured fun id => do
      match token with
      | some name =>
        let (token, w) := (← get).alloc (scopeToken id)
        set (bind name (.object token) w)
      | none => pure ()
      call { behaviour := .routine body } a.receiver a.arguments)
  | .handle => return .value (.object (← modifyGet fun w => w.handle m))
  | .installGlobal key => return .value (.object (← modifyGet fun w => w.installGlobal m key))

def onMonitor (call : Call Session) (a : Activation) (m : MonitorId) (c : MonitorCommand) :
    SessionM Answer := do
  require m
  Monitor.holding m (performOn call a m c)

def made (printing : Bool) (m : MonitorId) : SessionM Answer := do
  if !printing then Monitor.setSink m .recording
  return .count m

def currentIndex (w : World Session) : Option MonitorId :=
  w.current.filter fun m => !w.program.forgotten.contains m

def forget (m : MonitorId) : SessionM Answer := do
  require m
  modify fun w =>
    let w := { w with program := { w.program with forgotten := m :: w.program.forgotten } }
    w.release m
  return .done

def newMask : SessionM Answer := do
  let (mask, w) := (← get).install realm
  set { w with program := { w.program with masks := w.program.masks.push { mask } } }
  return .count w.program.masks.size

def onMask (call : Call Session) (a : Activation) (i : Nat) : MaskCommand → SessionM Answer
  | .isInstalled => return .flag ((((← get).program.masks[i]?).getD default).mask.isInstalled)
  | .uninstall => do
    let w ← get
    let free := (w.program.masks[i]?).getD default
    let (mask, w) := w.uninstall free.mask
    set { w with program :=
      { w.program with masks := w.program.masks.setIfInBounds i { free with mask } } }
    return .done
  | .identify v => do
    match (← eval a v).object? with
    | none => return .done
    | some id =>
      let w ← get
      let free := (w.program.masks[i]?).getD default
      let (trace, nextId, heap) :=
        w.heap.identify (w.realm free.mask.realm).global free.nextId id
      set { w with heap, program :=
        { w.program with masks := w.program.masks.setIfInBounds i { free with nextId } } }
      return .count trace
  | .search key target => do
    let key ← eval a key
    let target ← eval a target
    return .flag (← HostM.search call key target)

end CoercionTrace.Session
