import CoercionTrace.Host.Heap

/-!
# Realms

A realm has a global object and answers what own properties an object has. The answer can be
masked, so that the property with which monitors mark objects does not show; a mask keeps what it
replaced.
-/

namespace CoercionTrace

def traceIdProperty : String := "___jsane_trace_id"

inductive Reflection
  | native
  | masked (inner : Reflection)
  deriving DecidableEq, Inhabited

namespace Reflection

def hasOwn (o : Object) (key : String) : Reflection → Bool
  | native => o.hasOwn key
  | masked inner => key != traceIdProperty && hasOwn o key inner

def ownNames (o : Object) : Reflection → List String
  | native => o.ownKeys
  | masked inner => (ownNames o inner).filter fun key => key != traceIdProperty

end Reflection

abbrev RealmId := Nat

structure Realm where
  global : ObjectId
  reflection : Reflection := .native
  deriving DecidableEq, Inhabited

structure Mask where
  realm : RealmId
  /-- The reflection that was replaced, until it is restored. -/
  saved : Option Reflection
  deriving DecidableEq, Inhabited

def Mask.isInstalled (m : Mask) : Bool := m.saved.isSome

end CoercionTrace
