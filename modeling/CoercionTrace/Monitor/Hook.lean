import CoercionTrace.Monitor.Check

/-!
# The hook object

What the methods of a hook object do with the arguments that instrumented code passes.
-/

namespace CoercionTrace

def monitorInfo : String := "JSane runtime library, v0.1"

variable {σ : Type}

namespace Monitor

def argument (arguments : List Value) (i : Nat) : Value := arguments.getD i .undefined

def keyArgument (arguments : List Value) (i : Nat) : RawKey :=
  { scope := argument arguments i, slot := argument arguments (i + 1) }

def elementsOf (role : String) (v : Value) : HostM σ (List Value) := do
  let h ← HostM.heap
  match h.elements? v with
  | some elements => return elements
  | none => throw (.type (.noArray role (h.typeName v)))

def capturedNames : Value → HostM σ (List String)
  | .undefined => return []
  | v => return (← elementsOf "enterCall captured parameters" v).filterMap Value.text?

def setSink (m : MonitorId) (sink : Sink) : HostM σ Unit :=
  modify fun w => w.onMonitor m fun monitor => { monitor with sink }

def perform (call : Call σ) (m : MonitorId) (arguments : List Value) :
    HookMethod → HostM σ Value
  | .arithmeticCheck => do
    let h ← HostM.heap
    arithmeticCheck call m (argument arguments 0)
      { value := argument arguments 1, key := keyArgument arguments 5 }
      { value := argument arguments 2, key := keyArgument arguments 7 }
      (h.display (argument arguments 3)) (h.display (argument arguments 4))
  | .callCheck => do
    let passed ← elementsOf "callCheck arguments" (argument arguments 2)
    let h ← HostM.heap
    callCheck call m (argument arguments 0) (argument arguments 1) passed
      (h.display (argument arguments 3)) (h.display (argument arguments 4))
  | .assign =>
    assign m (argument arguments 0) (keyArgument arguments 1) (keyArgument arguments 3)
  | .enterCall => do
    let parameters ← elementsOf "enterCall parameters" (argument arguments 0)
    let captured ← capturedNames (argument arguments 1)
    let id ← enterCall m (parameters.map Value.text?) captured
    return .object (← modifyGet fun w => w.alloc (scopeToken id))
  | .leaveCall => do
    leaveCall m
    return .undefined
  | .inOperatorProxy =>
    return .boolean (← searchCheck call m (argument arguments 0) (argument arguments 1))
  | .setDiagnosticSink => do
    let h ← HostM.heap
    let sink := argument arguments 0
    if sink.isUndefined then setSink m .console
    else
      match h.callable? sink with
      | some f => setSink m (.script f)
      | none => throw (.type (.noSink (h.typeName sink)))
    return .undefined
  | .info => return .text monitorInfo
  | .teardown => do
    modify fun w => w.teardown m
    return .undefined

def holding {α : Type} (m : MonitorId) (step : HostM σ α) : HostM σ α := do
  modify fun w => w.hold m
  step.andFinally fun w => w.release m

def invoke (call : Call σ) (m : MonitorId) (method : HookMethod) (arguments : List Value) :
    HostM σ Value := do
  if ((← get).monitor m).holders = 0 then throw .tornDown
  else holding m (perform call m arguments method)

def inspect (monitor : Monitor) : String :=
  "Runtime \x7b tracer: " ++ monitor.tracer.inspect ++ ", torn_down: " ++
    (if monitor.tornDown then "true" else "false") ++ ", .. \x7d"

end Monitor

end CoercionTrace
