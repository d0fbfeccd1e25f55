import CoercionTrace.Trace.Stack

/-!
# Tracers

A tracer records where values came from. What a running call records about its own slots is given up
when the call ends. What is reachable from elsewhere goes to a global table: when a value flows
there, the local history behind it is copied along, under the identities of the calls that kept it.
A step that fails keeps what it did before it failed.
-/

namespace CoercionTrace

structure Tracer where
  nextId : TraceId
  stack : CallStack
  global : Table TraceKey TraceItem := .empty
  deriving DecidableEq

abbrev TraceM := ExceptT TraceError (StateM Tracer)

namespace Tracer

/-- The tracer of a program that has not begun: one call is running, with the first identity after
the global object's. -/
def start : Tracer :=
  { nextId := globalTraceId + 2, stack := { top := { callId := globalTraceId + 1 } } }

instance : Inhabited Tracer := ⟨start⟩

def depth (t : Tracer) : Nat := t.stack.depth

def localItem? (t : Tracer) (slot : Slot) : Option TraceItem := t.stack.top.entries.find? slot

def globalItem? (t : Tracer) (key : TraceKey) : Option TraceItem := t.global.find? key

def onTop (t : Tracer) (f : Frame → Frame) : Tracer :=
  { t with stack := { t.stack with top := f t.stack.top } }

def clearReturn (t : Tracer) : Tracer := t.onTop fun f => { f with calleeReturn := none }

def announce (t : Tracer) (arguments : Nat) : Tracer :=
  t.onTop fun f => { f with pendingArguments := some arguments }

def clearPending (t : Tracer) : Tracer := t.onTop fun f => { f with pendingArguments := none }

def writeGlobal (t : Tracer) (key : TraceKey) (item : TraceItem) : Tracer :=
  { t with global := t.global.insert key item }

def writeLocal (t : Tracer) (slot : Slot) (item : TraceItem) : Tracer :=
  t.onTop fun f => { f with entries := f.entries.insert slot item }

def eraseLocal (t : Tracer) (slot : Slot) : Tracer :=
  t.onTop fun f => { f with entries := f.entries.erase slot }

/-- Copy entries to the global table, each with the next older one as its source, and answer the
key of the newest. -/
def copyHops (hops : List Hop) (terminal : TraceKey) (global : Table TraceKey TraceItem) :
    TraceKey × Table TraceKey TraceItem :=
  hops.foldr (fun hop (source, global) =>
    let key := .of hop.callId hop.slot
    (key, global.insert key ⟨hop.value, source⟩)) (terminal, global)

def keep : Except TraceError (List Hop × TraceKey) → TraceM TraceKey
  | .error e => throw e
  | .ok (hops, terminal) => do
    let t ← get
    let (key, global) := copyHops hops terminal t.global
    set { t with global }
    return key

def lasting (source : TraceKey) : TraceM TraceKey := do
  if source.isVolatile then keep ((← get).stack.history source.slot) else return source

/-- The source that is meant: that of the result of a call is where the call recorded it. -/
def resolve (t : Tracer) (source : TraceKey) : TraceKey :=
  if source = .here .result then (t.stack.top.calleeReturn.map TraceItem.source).getD .untraced
  else source

/-- An argument slot of the innermost call. It is kept whatever its value is, since it also tells
that the argument was passed. -/
def isArgument (target : TraceKey) : Bool :=
  match target with
  | ⟨.here, .argument _⟩ => true
  | _ => false

/-- Record that a value read from `source` was stored at `target`. A value with no need of a
history ends that of a local slot. -/
def record (target : TraceKey) (value : Value) (source : TraceKey) : TraceM Unit := do
  if target.isTraced then
    if value.isSuspect || isArgument target then
      let source := (← get).resolve source
      if target.isHere then modify fun t => t.writeLocal target.slot ⟨value, source⟩
      else
        let source ← lasting source
        modify fun t => t.writeGlobal target ⟨value, source⟩
    else if target.isHere then modify fun t => t.eraseLocal target.slot

/-- What the innermost call, having announced so many arguments, passes as argument `i`. -/
def passed? (t : Tracer) (arguments i : Nat) : Option TraceItem :=
  if arguments ≤ i then some ⟨.undefined, .untraced⟩
  else ((t.localItem? (.argument i)).filter fun item => item.value.isSuspect).map fun item =>
    ⟨item.value, .here (.argument i)⟩

/-- Make a parameter known under the identity of its call, for the functions that read it. -/
def publish (callId : TraceId) (name : String) (i : Nat) (item : TraceItem) : TraceM Unit := do
  let source ←
    if item.source.isTraced then keep ((← get).stack.chase (.argument i)) else pure item.source
  modify fun t => t.writeGlobal (.of callId (.name name)) ⟨item.value, source⟩

/-- The entries of a new call: its parameters, from position `i` on, with what was passed. -/
def bindParameters (callId : TraceId) (arguments : Nat) (captured : List String) :
    Nat → List (Option String) → Table Slot TraceItem → TraceM (Table Slot TraceItem)
  | _, [], entries => return entries
  | i, none :: rest, entries => bindParameters callId arguments captured (i + 1) rest entries
  | i, some name :: rest, entries => do
    match (← get).passed? arguments i with
    | none => bindParameters callId arguments captured (i + 1) rest entries
    | some item =>
      if captured.contains name then publish callId name i item
      bindParameters callId arguments captured (i + 1) rest (entries.insert (.name name) item)

/-- Enter a call with the given parameters; one without a name is not followed. Nothing is known of
the arguments unless the caller announced them. The parameters in `captured` are read by nested
functions. -/
def pushFrame (parameters : List (Option String)) (captured : List String) : TraceM TraceId := do
  let t ← get
  let callId := t.nextId
  set { t.clearPending with nextId := callId + 1 }
  let entries ← match t.stack.top.pendingArguments with
    | none => pure .empty
    | some arguments => bindParameters callId arguments captured 0 parameters .empty
  modify fun t => { t with stack := { top := { callId, entries }, below := t.stack.frames } }
  return callId

def popFrame : TraceM Unit := do
  let t ← get
  match t.stack.caller? with
  | none => throw .underflow
  | some caller =>
    match t.localItem? .result with
    | none => set { t with stack := caller }.clearReturn
    | some returned =>
      let source ← lasting returned.source
      let key : TraceKey := .of t.stack.top.callId .result
      modify fun t => ({ t with stack := caller }.writeGlobal key ⟨returned.value, source⟩).onTop
        fun f => { f with calleeReturn := some ⟨returned.value, key⟩ }

def inspect (t : Tracer) : String :=
  "Tracer \x7b global_entries: " ++ toString t.global.size ++ ", depth: " ++ toString t.depth ++
    " \x7d"

end Tracer

end CoercionTrace
