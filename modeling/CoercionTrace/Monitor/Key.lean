import CoercionTrace.Monitor.World

/-!
# Keys of instrumented code

Instrumented code names a place by a scope and a slot, both of them values. A scope is null for the
running call, the hook object for globals, the token of a call for its closed-over variables, or any
other object for its properties; a slot is a name, the index of an argument, or null.
-/

namespace CoercionTrace

structure RawKey where
  scope : Value := .null
  slot : Value := .null
  deriving DecidableEq, Inhabited

def argumentLimit : Nat := 0xFFFFFFFF

variable {σ : Type}

namespace World

/-- The scope that a value stands for. An object gets a mark if it has none; a primitive has no
identity. -/
def traceScope (w : World σ) (m : MonitorId) : Value → Option TraceScope × World σ
  | .undefined | .null => (some .here, w)
  | .object id =>
    if (w.monitor m).handle = some id then (some (.identity globalTraceId), w)
    else
      let (trace, w) := w.identify m id
      (some (.identity trace), w)
  | _ => (none, w)

def localSlot (h : Heap) : Value → Slot
  | .undefined | .null => .anonymous
  | .number n =>
    if n.isFinite && (!n.negative || n.isZero) then .argument (n.clamp argumentLimit)
    else .name n.toText
  | .text t => if t = returnSlotName then .result else .name t
  | v => .name (h.display v)

def memberSlot (h : Heap) : Value → Slot
  | .undefined | .null => .anonymous
  | v => .name (h.display v)

def traceKey (w : World σ) (m : MonitorId) (key : RawKey) : TraceKey × World σ :=
  match w.traceScope m key.scope with
  | (none, w) => (.untraced, w)
  | (some .here, w) => (.here (localSlot w.heap key.slot), w)
  | (some (.identity id), w) => (.of id (memberSlot w.heap key.slot), w)

def historyLines (w : World σ) (m : MonitorId) (key : RawKey) : List String × World σ :=
  let (key, w) := w.traceKey m key
  ((w.monitor m).tracer.lines w.heap.describe key, w)

end World

end CoercionTrace
