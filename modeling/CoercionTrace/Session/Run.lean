import CoercionTrace.Session.Monitors
import CoercionTrace.Session.Values

/-!
# Running scripts

Every step answers, also one that fails, and the steps after it run; a function ends with its first
step that fails, unless that step is to be caught.
-/

namespace CoercionTrace

namespace Session

def perform (call : Call Session) (a : Activation) : Command → SessionM Answer
  | .value v c => do onValue call a (← eval a v) c
  | .readNumber text => return .value (.number (.ofText text))
  | .binary operator left right => do
    let left ← eval a left
    let right ← eval a right
    return .value (← HostM.binary call operator left right)
  | .object v c => do
    match ← eval a v with
    | .object id => onObject call a id c
    | v => throw (.notCallable ((← HostM.heap).display v))
  | .newTracer => do
    let w ← get
    set { w with program := { w.program with tracers := w.program.tracers.push .start } }
    return .count w.program.tracers.size
  | .trace (.ofMonitor m) c => do
    require m
    onTracer a (.ofMonitor m) c
  | .trace t c => onTracer a t c
  | .keyText key => return .keyText key
  | .newMonitor checks printing => do
    made printing (← modifyGet fun w => w.newMonitor realm checks)
  | .newCurrent checks printing => do
    made printing (← modifyGet fun w => w.init realm checks)
  | .current => return .index (currentIndex (← get))
  | .tearDownCurrent => do
    modify World.teardownCurrent
    return .done
  | .forget m => forget m
  | .monitor m c => onMonitor call a m c
  | .newMask => newMask
  | .mask i c => onMask call a i c
  | .inspectRealm => do
    let w ← get
    return .text
      ("Realm \x7b global: " ++ w.heap.inspectObject (w.realm realm).global ++ ", .. \x7d")
  | .checkKind kind => return .checkKind kind
  | .fillTemplate template arguments => return .text (Template.fill template arguments)
  | .makeReport kind severity arguments location history =>
    return .report (.make kind severity arguments location history)

def keepable : Answer → TermM (Option Value)
  | .value v => return some v
  | .found v => return v
  | .entered id => return some (← Term.make (scopeToken id))
  | _ => return none

def keep (name : Option String) (answer : Answer) : TermM Unit := do
  match name with
  | none => return
  | some name =>
    match ← keepable answer with
    | some v => modify (bind name v)
    | none => return

/-- The reply of a step, with what was reported and printed since the last one. -/
def reply (r : Except HostError Answer) (w : World Session) : Reply × World Session :=
  let outcome := match r with
    | .ok answer => .ok answer
    | .error e => .error (e, e.message w.heap.display)
  ({ outcome, reports := w.reports, stdout := w.stdout, stderr := w.stderr },
    { w with reports := [], stdout := "", stderr := "" })

def runStep (call : Call Session) (a : Activation) (step : Step) : SessionM Answer := do
  let answer ← perform call a step.command
  ExceptT.lift (keep step.name answer)
  return answer

def log (r : Reply) (w : World Session) : World Session :=
  { w with program := { w.program with inner := r :: w.program.inner } }

def runBody (call : Call Session) (a : Activation) : List Step → SessionM Unit
  | [] => return
  | step :: rest => do
    let r ← HostM.attempt (runStep call a step)
    modify fun w => let (reply, w) := reply r w; log reply w
    match r with
    | .ok _ => runBody call a rest
    | .error e => if step.caught then runBody call a rest else throw e

def finish (a : Activation) : Ending → SessionM Value
  | .result t => eval a t
  | .throw t => do throw (.thrown (← eval a t))

def runRoutine (call : Call Session) (a : Activation) (routine : Routine) : SessionM Value := do
  let r ← HostM.attempt do
    runBody call a routine.body
    finish a routine.ending
  runBody call a routine.cleanup
  HostM.answer r

def callWithin (routines : Array Routine) : Nat → Call Session
  | 0, _, _, _ => throw .callDepth
  | n + 1, f, receiver, arguments =>
    match f.behaviour with
    | .hook m method => Monitor.invoke (callWithin routines n) m method arguments
    | .routine id =>
      runRoutine (callWithin routines n) { receiver, arguments } ((routines[id]?).getD default)

def callLimit : Nat := 10000

/-- A reply of a script, with the replies of the steps that ran inside functions meanwhile. -/
structure Entry where
  reply : Reply
  inner : List Reply

def runTop (routines : Array Routine) (step : Step) (w : World Session) : Entry × World Session :=
  let (r, w) := (runStep (callWithin routines callLimit) {} step).run.run w
  let (reply, w) := reply r w
  ({ reply, inner := w.program.inner.reverse },
    { w with program := { w.program with inner := [] } })

def runSteps (routines : Array Routine) : List Step → World Session → List Entry
  | [], _ => []
  | step :: rest, w =>
    let (entry, w) := runTop routines step w
    entry :: runSteps routines rest w

def run (script : Script) : List Entry := runSteps script.routines script.steps start

end Session

end CoercionTrace
