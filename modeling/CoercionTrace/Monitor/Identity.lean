import CoercionTrace.Host.Heap
import CoercionTrace.Monitor.Realm
import CoercionTrace.Trace.Key

/-!
# Identities

An object that a history refers to is marked with a number, in a property of its own that
enumeration does not visit. The number is the identity of the object in histories.
-/

namespace CoercionTrace

def traceIdLimit : Nat := 0xFFFFFFFFFFFFFFFF

/-- The number with which an object is marked. A mark that it inherits is not its own. -/
def Object.traceId? (o : Object) : Option TraceId :=
  ((o.property? traceIdProperty).bind fun p => p.value.number?).map (Number.clamp traceIdLimit)

def traceMark (id : TraceId) : Property := .sealed (.number (Number.ofNat id))

def scopeToken (id : TraceId) : Object := (Object.define {} traceIdProperty (traceMark id)).2

/-- The identity of an object, the next number to be given, and the heap. An object without a mark
gets the next number; the global object is never marked. -/
def Heap.identify (h : Heap) (global : ObjectId) (next : TraceId) (id : ObjectId) :
    TraceId × TraceId × Heap :=
  if id = global then (globalTraceId, next, h)
  else
    match (h.object id).traceId? with
    | some trace => (trace, next, h)
    | none => (next, next + 1, (h.change id fun o => o.define traceIdProperty (traceMark next)).2)

end CoercionTrace
