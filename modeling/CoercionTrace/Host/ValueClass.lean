import CoercionTrace.Host.Heap

/-!
# Classes of values

The distinctions that checks on operands make.
-/

namespace CoercionTrace

inductive ValueClass
  | finiteNumber
  | nonFiniteNumber
  | text
  | array
  /-- An ordinary object without a conversion of its own to text. -/
  | plainObject
  | other
  deriving DecidableEq, Inhabited

namespace Heap

def lacksConversion (h : Heap) (id : ObjectId) : Bool :=
  match (h.object id).kind with
  | .ordinary => !((h.find? id "toString").any h.isCallable)
  | _ => false

def classOf (h : Heap) : Value → ValueClass
  | .number n => if n.isFinite then .finiteNumber else .nonFiniteNumber
  | .text _ => .text
  | .object id =>
    if (h.object id).isArray then .array
    else if h.lacksConversion id then .plainObject
    else .other
  | _ => .other

end Heap

end CoercionTrace
