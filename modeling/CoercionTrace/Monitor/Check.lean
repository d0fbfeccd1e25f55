import CoercionTrace.Host.ValueClass
import CoercionTrace.Monitor.Conversion
import CoercionTrace.Monitor.Key
import CoercionTrace.Text.Word

/-!
# Checks of a monitor

Operations that instrumented code hands over: arithmetic, calls and assignments. A check looks at
the operands, reports what it finds and, at error severity, fails the operation; otherwise the
operation has the outcome that the program would have had.
-/

namespace CoercionTrace

structure Operand where
  value : Value
  key : RawKey := {}
  deriving DecidableEq, Inhabited

def excerptLength : Nat := 200

variable {σ : Type}

namespace Monitor

def ensureLive (m : MonitorId) : HostM σ Unit := do
  if ((← get).monitor m).tornDown then throw .tornDown

def traced {α : Type} (m : MonitorId) (step : TraceM α) : HostM σ α := do
  let (r, tracer) := step.run.run ((← get).monitor m).tracer
  modify fun w => w.onTracer m fun _ => tracer
  match r with
  | .ok a => return a
  | .error e => throw (.trace e)

/-- Give a report to the sink of a monitor. A sink of the program's own may fail; that does not
matter to the operation. -/
def deliver (call : Call σ) (m : MonitorId) (r : CheckReport) : HostM σ Unit := do
  match ((← get).monitor m).sink with
  | .console =>
    if r.severity = .error then modify fun w => { w with stderr := w.stderr ++ r.text ++ "\n" }
    else modify fun w => { w with stdout := w.stdout ++ r.text ++ "\n" }
  | .recording => modify fun w => { w with reports := w.reports ++ [r] }
  | .script f =>
    let _ ← HostM.attempt (call f .undefined [.text r.text])

/-- Report a check that fires, with the history of the key that caused it, and fail if it is an
error. -/
def report (call : Call σ) (m : MonitorId) (kind : CheckKind) (arguments : List String)
    (location : String) (cause : Option RawKey) : HostM σ Unit := do
  let severity := ((← get).monitor m).checks.severity kind
  if severity ≠ .ignore then
    let history ← match cause with
      | none => pure []
      | some key => modifyGet fun w => w.historyLines m key
    let r := CheckReport.make kind severity arguments (some location) history
    deliver call m r
    if severity = .error then throw (.check kind r.head)

/-- What is wrong with `left operator right` that gave `result`, and the operand to blame where its
history is worth telling. -/
def arithmeticFault (h : Heap) (result : Value) (left right : Operand) (operator : String) :
    Option (CheckKind × Option RawKey) :=
  let a := left.value
  let b := right.value
  let suspects : Option (CheckKind × Option RawKey) :=
    if a.isFiniteNumber && b.isFiniteNumber then none
    else some (if result.isFiniteNumber then .hiddenBadOperand else .nonFiniteResult,
      some (if b.isFiniteNumber then left.key else right.key))
  if operator = "+" then
    if h.classOf a = .plainObject ∨ h.classOf b = .plainObject then
      some (.badStringConversion, none)
    else if h.isArray a && h.isArray b then some (.arrayConcatenation, none)
    else if result.isText then none
    else suspects
  else if a.isText || b.isText then some (.stringCoercion, none)
  else suspects

def arithmeticCheck (call : Call σ) (m : MonitorId) (result : Value) (left right : Operand)
    (operator location : String) : HostM σ Value := do
  ensureLive m
  let h ← HostM.heap
  match arithmeticFault h result left right operator with
  | none => return result
  | some (kind, cause) =>
    let arguments :=
      [h.display result, h.display left.value, h.display right.value, operator, location]
    report call m kind arguments location cause
    return result

/-- Whether a function may look at arguments beyond its parameters. Native code always may. -/
def mayReadExcess (f : Callable) : Bool :=
  match f.source with
  | none => true
  | some source => Text.hasWord "arguments" source || Text.hasWord "eval" source

/-- More arguments than parameters, not all of them undefined. -/
def oversupplied (f : Callable) (arguments : List Value) : Bool :=
  (arguments.drop f.arity).any fun v => !v.isUndefined

def excerpt (f : Callable) : String :=
  String.ofList ((f.source.getD "").toList.take excerptLength)

/-- Run a call of which the tracer is told, so that the frame of the function can take over the
arguments. A native function has no frame. -/
def announced (call : Call σ) (m : MonitorId) (f : Callable) (receiver : Value)
    (arguments : List Value) : HostM σ Value := do
  modify fun w => w.onTracer m Tracer.clearReturn
  if !f.isNative then modify fun w => w.onTracer m fun t => t.announce arguments.length
  (call f receiver arguments).andFinally fun w => w.onTracer m Tracer.clearPending

/-- Call `callee`, having made sure that it can be called and is not given too much. -/
def callCheck (call : Call σ) (m : MonitorId) (callee receiver : Value) (arguments : List Value)
    (text location : String) : HostM σ Value := do
  ensureLive m
  let h ← HostM.heap
  match h.callable? callee with
  | none =>
    let details := [h.display callee, h.display receiver, h.displayElements arguments, text, location]
    report call m .notCallable details location none
    throw (.notCallable text)
  | some f =>
    if oversupplied f arguments && !mayReadExcess f then
      let details := [toString f.arity, toString arguments.length, excerpt f]
      report call m .tooManyArguments details location none
    announced call m f receiver arguments

/-- Record `target = value` read from `source`, and answer the value. Nothing is recorded on an
object for a value that needs no history. -/
def assign (m : MonitorId) (value : Value) (target source : RawKey) : HostM σ Value := do
  ensureLive m
  if target.scope.isObject && !value.isSuspect then return value
  else
    let target ← modifyGet fun w => w.traceKey m target
    let source ← modifyGet fun w => w.traceKey m source
    traced m (Tracer.record target value source)
    return value

def enterCall (m : MonitorId) (parameters : List (Option String)) (captured : List String) :
    HostM σ TraceId := do
  ensureLive m
  traced m (Tracer.pushFrame parameters captured)

def leaveCall (m : MonitorId) : HostM σ Unit := do
  ensureLive m
  traced m Tracer.popFrame

/-- Run a body as that of an instrumented function: in a frame that it leaves even when it fails. -/
def withFrame (m : MonitorId) (parameters captured : List String)
    (body : TraceId → HostM σ Value) : HostM σ Value := do
  let id ← enterCall m (parameters.map some) captured
  let r ← HostM.attempt (body id)
  leaveCall m
  HostM.answer r

def searchCheck (call : Call σ) (m : MonitorId) (key target : Value) : HostM σ Bool := do
  ensureLive m
  HostM.search call key target

end Monitor

end CoercionTrace
