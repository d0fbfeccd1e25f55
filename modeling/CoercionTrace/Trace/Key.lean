import CoercionTrace.Host.Value

/-!
# Trace keys

A place where a value is kept: a slot of the running call, or of an object or a call with an
identity of its own.
-/

namespace CoercionTrace

abbrev TraceId := Nat

def globalTraceId : TraceId := 1

inductive TraceScope
  | here
  | identity (id : TraceId)
  deriving DecidableEq, Inhabited

inductive Slot
  | name (name : String)
  | argument (index : Nat)
  | result
  | anonymous
  deriving DecidableEq, Inhabited

structure TraceKey where
  scope : TraceScope
  slot : Slot
  deriving DecidableEq, Inhabited

namespace TraceKey

def here (slot : Slot) : TraceKey := ⟨.here, slot⟩

def of (id : TraceId) (slot : Slot) : TraceKey := ⟨.identity id, slot⟩

def untraced : TraceKey := here .anonymous

def isHere (k : TraceKey) : Bool := k.scope == .here

def isTraced (k : TraceKey) : Bool := k.slot != .anonymous

def isVolatile (k : TraceKey) : Bool := k.isHere && k.isTraced

def text (k : TraceKey) : String :=
  match k.scope, k.slot with
  | _, .anonymous => "literal"
  | .here, .name name => "local '" ++ name ++ "'"
  | .here, .argument index => "argument #" ++ toString index
  | .here, .result => "return value"
  | .identity id, .name name =>
    if id = globalTraceId then "global '" ++ name ++ "'"
    else "#" ++ toString id ++ ".'" ++ name ++ "'"
  | .identity id, .argument index => "argument #" ++ toString index ++ " of call #" ++ toString id
  | .identity id, .result => "return value of call #" ++ toString id

end TraceKey

/-- A value that was recorded, and the key from which it was read. -/
structure TraceItem where
  value : Value
  source : TraceKey
  deriving DecidableEq, Inhabited

end CoercionTrace
