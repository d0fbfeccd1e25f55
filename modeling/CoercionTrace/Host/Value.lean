import CoercionTrace.Number.Format

/-!
# Values

The values of an instrumented program: primitives, and objects by identity.
-/

namespace CoercionTrace

abbrev ObjectId := Nat

inductive Value
  | undefined
  | null
  | boolean (b : Bool)
  | number (n : Number)
  | text (t : String)
  | object (id : ObjectId)
  deriving DecidableEq, Inhabited

namespace Value

def object? : Value → Option ObjectId
  | object id => some id
  | _ => none

def number? : Value → Option Number
  | number n => some n
  | _ => none

def text? : Value → Option String
  | text t => some t
  | _ => none

def isUndefined : Value → Bool
  | undefined => true
  | _ => false

def isNullish : Value → Bool
  | undefined | null => true
  | _ => false

def isText : Value → Bool
  | text _ => true
  | _ => false

def isObject : Value → Bool
  | object _ => true
  | _ => false

def isFiniteNumber : Value → Bool
  | number n => n.isFinite
  | _ => false

def same : Value → Value → Bool
  | number a, number b => a.same b
  | v, w => v == w

/-- A value whose origin is worth recording: neither a finite number nor an object. -/
def isSuspect (v : Value) : Bool := !v.isFiniteNumber && !v.isObject

def primitiveText : Value → String
  | undefined => "undefined"
  | null => "null"
  | boolean b => if b then "true" else "false"
  | number n => n.toText
  | text t => t
  | object _ => ""

end Value

end CoercionTrace
