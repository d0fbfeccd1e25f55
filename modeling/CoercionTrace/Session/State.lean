import CoercionTrace.Monitor.Hook
import CoercionTrace.Session.Answer
import CoercionTrace.Session.Script

/-!
# The state of a session

What a script keeps besides the world: its named values, tracers and masks of its own, the monitors
that it has let go, and the replies of the steps inside functions.
-/

namespace CoercionTrace

structure FreeMask where
  mask : Mask
  nextId : TraceId := globalTraceId + 1
  deriving Inhabited

structure Session where
  names : Table String Value := .empty
  tracers : Array Tracer := #[]
  masks : Array FreeMask := #[]
  forgotten : List MonitorId := []
  inner : List Reply := []
  deriving Inhabited

structure Activation where
  receiver : Value := .undefined
  arguments : List Value := []

abbrev SessionM := HostM Session

namespace Session

def realm : RealmId := 0

def start : World Session :=
  { heap := { objects := #[{}] }, realms := #[{ global := 0 }], program := {} }

def bind (name : String) (v : Value) (w : World Session) : World Session :=
  { w with program := { w.program with names := w.program.names.insert name v } }

end Session

abbrev TermM := StateM (World Session)

namespace Term

def make (o : Object) : TermM Value := modifyGet fun w => let (id, w) := w.alloc o; (.object id, w)

def adopt (v parent : Value) : TermM Unit :=
  match v with
  | .object id => modify fun w =>
    { w with heap := w.heap.put id { w.heap.object id with parent := parent.object? } }
  | _ => return

mutual

def eval (a : Activation) : Term → TermM Value
  | .value v => return v
  | .named name => return ((← get).program.names.find? name).getD .undefined
  | .global => return .object ((← get).realm Session.realm).global
  | .token id => make (scopeToken id)
  | .argument i => return a.arguments.getD i .undefined
  | .self => return a.receiver
  | .array elements => do make { kind := .array (← evalAll a elements) }
  | .object members => do make { properties := Table.ofList (← evalMembers a members) }
  | .function name arity source body =>
    make { kind := .function { name, arity, source, behaviour := .routine body } }
  | .inheriting t parent => do
    let v ← eval a t
    adopt v (← eval a parent)
    return v

def evalAll (a : Activation) : List Term → TermM (List Value)
  | [] => return []
  | t :: rest => return (← eval a t) :: (← evalAll a rest)

def evalMembers (a : Activation) : List (String × Term) → TermM (List (String × Property))
  | [] => return []
  | (key, t) :: rest => return (key, { value := ← eval a t }) :: (← evalMembers a rest)

end

end Term

namespace Session

def eval (a : Activation) (t : Term) : SessionM Value := ExceptT.lift (t.eval a)

def evalAll (a : Activation) (ts : List Term) : SessionM (List Value) :=
  ExceptT.lift (Term.evalAll a ts)

def evalKey (a : Activation) (k : KeyTerm) : SessionM RawKey :=
  return { scope := ← eval a k.scope, slot := ← eval a k.slot }

def evalOperand (a : Activation) (o : OperandTerm) : SessionM Operand :=
  return { value := ← eval a o.value, key := ← evalKey a o.key }

end Session

end CoercionTrace
