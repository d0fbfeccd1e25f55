import CoercionTrace.Instrument.State

/-!
# Stubs

How an operand is evaluated once, and where its value comes from. `Origin` is the place a value was
read from, in the form in which generated code names it to the monitor: a scope and a slot.
-/

namespace CoercionTrace

inductive Origin
  | untraced
  | frame (slot : String)
  | returned
  | global (hook name : String)
  /-- A closed-over variable, under the identity of the call that owns it. -/
  | call (traceVariable name : String)
  | member (base key : String)
  deriving DecidableEq

namespace Origin

def scope : Origin → Code
  | .untraced | .frame _ | .returned => .null
  | .global hook _ => .name hook
  | .call traceVariable _ => .variable .traceId traceVariable
  | .member base _ => .variable .temporary base

def slot : Origin → Code
  | .untraced => .null
  | .frame slot => .quoted slot
  | .returned => .quoted returnSlotName
  | .global _ name => .quoted name
  | .call _ name => .quoted name
  | .member _ key => .variable .temporary key

end Origin

structure Stub where
  preamble : List Code := []
  value : Code
  store : Option Code := none
  origin : Origin

namespace Stub

def isCallResult (s : Stub) : Bool := s.origin == .returned

def sequence (s : Stub) (c : Code) : Code := c.after s.preamble

end Stub

namespace Instrumentation

def identifierOrigin (s : Instrumentation) (id : NodeId) : Except InstrumentError Origin :=
  let name := s.tree.rawSource id
  match (s.scopes.resolution? id).getD .global with
  | .global => .ok (.global s.hook name)
  | .declared scope declaredName _ =>
    if !s.isInstrumented scope then .ok .untraced
    else if !(s.scopes.scope scope).isClosedOver declaredName then .ok (.frame name)
    else match s.traceVariable? scope with
      | some v => .ok (.call v name)
      | none => .error (.contract (.noTraceVariable name))

/-- Read an operand into a temporary. The result of a call is traced into the temporary at once,
since the next checked call takes its place. -/
def held (s : Instrumentation) (id : NodeId) (stub : Stub) (temporary : String) : Stub :=
  let traced := ((s.host? id).map s.isInstrumented).getD true
  if stub.isCallResult && traced then
    let copy := s.hookCall .assign
      [stub.value, .null, .quoted temporary, stub.origin.scope, stub.origin.slot, s.location id]
    { preamble := stub.preamble ++ [.store (.variable .temporary temporary) copy]
      value := .variable .temporary temporary, origin := .frame temporary }
  else
    { preamble := stub.preamble ++ [.store (.variable .temporary temporary) stub.value]
      value := .variable .temporary temporary, origin := stub.origin }

end Instrumentation

namespace InstrumentM

def identifierStub (id : NodeId) : InstrumentM Stub := do
  let s ← get
  match s.identifierOrigin id with
  | .ok origin =>
    let name := s.tree.rawSource id
    return { value := .identifier id name, store := some (.identifier id name), origin }
  | .error e => throw (.error e)

def memberKey (id : NodeId) : InstrumentM Code := do
  let s ← get
  match s.tree.kind id with
  | .memberExpression =>
    match s.tree.child? id "property" with
    | some p => return .quoted (s.tree.rawSource p)
    | none => breach .memberWithoutProperty
  | _ =>
    match s.tree.child? id "index" with
    | some i => return s.operand i
    | none => breach .subscriptWithoutIndex

/-- Object and key of a member access are read into temporaries, in this order. -/
def memberStub (id : NodeId) : InstrumentM Stub := do
  match (← get).tree.child? id "object" with
  | none => breach .memberWithoutObject
  | some object =>
    let key ← memberKey id
    let base ← temporary id
    let property ← temporary id
    let text := (← get).tree.text object
    return {
      preamble :=
        [.store (.variable .temporary base) (.splice object text),
          .store (.variable .temporary property) key]
      value := .access id base property
      store := some (.access id base property)
      origin := .member base property }

def operandStub (id : NodeId) : InstrumentM Stub := do
  let s ← get
  let target := s.tree.unwrap id
  let plain : Stub := { value := s.operand id, origin := .untraced }
  match s.tree.kind target with
  | .identifier => identifierStub target
  | .memberExpression | .subscriptExpression =>
    if s.tree.isPlainMember target then memberStub target else return plain
  | .callExpression =>
    if (s.tree.node target).isReplaced then
      return { value := .splice target (s.tree.text target), origin := .returned }
    else return plain
  | _ => return plain

/-- The stub of an operand that is assigned to, or none if the assignment is left alone. -/
def targetStub (id : NodeId) : InstrumentM (Option Stub) := do
  let s ← get
  let target := s.tree.unwrap id
  match s.tree.kind target with
  | .identifier => return some (← identifierStub target)
  | .memberExpression | .subscriptExpression =>
    if s.tree.isPlainMember target then return some (← memberStub target) else return none
  | _ => return none

end InstrumentM

end CoercionTrace
