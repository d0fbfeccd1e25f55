import CoercionTrace.HookMethod
import CoercionTrace.Host.Value
import CoercionTrace.Table

/-!
# Objects

An object is ordinary, an array or a function, with a parent from which it inherits and properties
in the order of their creation. An array shows its elements and its length as properties, a function
its name and its number of parameters.
-/

namespace CoercionTrace

structure Property where
  value : Value
  enumerable : Bool := true
  writable : Bool := true
  configurable : Bool := true
  deriving DecidableEq, Inhabited

def Property.sealed (v : Value) : Property :=
  { value := v, enumerable := false, writable := false, configurable := false }

abbrev RoutineId := Nat

abbrev MonitorId := Nat

inductive Behaviour
  | routine (id : RoutineId)
  | hook (monitor : MonitorId) (method : HookMethod)
  deriving DecidableEq, Inhabited

structure Callable where
  name : String := ""
  arity : Nat := 0
  source : Option String := none
  behaviour : Behaviour
  deriving DecidableEq, Inhabited

namespace Callable

def isNative (f : Callable) : Bool := f.source.isNone

def text (f : Callable) : String :=
  f.source.getD ("function " ++ f.name ++ "() \x7b [native code] \x7d")

end Callable

inductive ObjectKind
  | ordinary
  | array (elements : List Value)
  | function (f : Callable)
  deriving DecidableEq, Inhabited

structure Object where
  kind : ObjectKind := .ordinary
  parent : Option ObjectId := none
  properties : Table String Property := .empty
  deriving DecidableEq, Inhabited

def indexLimit : Nat := 0x10000000000000000

/-- The number that a key writes in its only spelling, below the limit of indices. What the characters
of any other key come to is spelled in another way. -/
def elementIndex? (key : String) : Option Nat :=
  let i := Nat.ofDigitChars 10 key.toList 0
  if i < indexLimit ∧ toString i = key then some i else none

namespace Object

def elements? (o : Object) : Option (List Value) :=
  match o.kind with
  | .array elements => some elements
  | _ => none

def callable? (o : Object) : Option Callable :=
  match o.kind with
  | .function f => some f
  | _ => none

def isArray (o : Object) : Bool := o.elements?.isSome

def isCallable (o : Object) : Bool := o.callable?.isSome

def property? (o : Object) (key : String) : Option Property := o.properties.find? key

def shown? (o : Object) (key : String) : Option Value :=
  match o.kind with
  | .ordinary => none
  | .array elements =>
    if key = "length" then some (.number (Number.ofNat elements.length))
    else (elementIndex? key).bind fun i => elements[i]?
  | .function f =>
    if key = "length" then some (.number (Number.ofNat f.arity))
    else if key = "name" then some (.text f.name)
    else none

/-- The value of an own property. A property that was created stands before what the kind shows. -/
def own? (o : Object) (key : String) : Option Value :=
  match o.property? key with
  | some p => some p.value
  | none => o.shown? key

def hasOwn (o : Object) (key : String) : Bool := (o.own? key).isSome

def elementKeys (o : Object) : List String :=
  match o.kind with
  | .array elements => (List.range elements.length).map toString
  | _ => []

def shownKeys (o : Object) : List String :=
  match o.kind with
  | .ordinary => []
  | .array _ => o.elementKeys ++ ["length"]
  | .function _ => ["length", "name"]

/-- All own keys: what the kind shows, then what was created, in order. -/
def ownKeys (o : Object) : List String := o.shownKeys ++ o.properties.keys

def enumerableKeys (o : Object) : List String :=
  o.elementKeys ++ (o.properties.entries.filter fun e => e.2.enumerable).map Prod.fst

/-- A list with `v` at place `i`, filled up with undefined values as far as needed. -/
def place (elements : List Value) (i : Nat) (v : Value) : List Value :=
  (elements ++ List.replicate (i + 1 - elements.length) Value.undefined).set i v

def index? (o : Object) (key : String) : Option (List Value × Nat) :=
  o.elements?.bind fun elements => (elementIndex? key).map fun i => (elements, i)

/-- Assign to a property. The answer says whether the object accepted it. -/
def set (o : Object) (key : String) (v : Value) : Bool × Object :=
  match o.index? key with
  | some (elements, i) => (true, { o with kind := .array (place elements i v) })
  | none =>
    match o.property? key with
    | some p =>
      if p.writable then (true, { o with properties := o.properties.insert key { p with value := v } })
      else (false, o)
    | none => (true, { o with properties := o.properties.insert key { value := v } })

def define (o : Object) (key : String) (p : Property) : Bool × Object :=
  if (o.property? key).all Property.configurable then
    (true, { o with properties := o.properties.insert key p })
  else (false, o)

/-- Delete a property that was created. A key without one counts as deleted. -/
def delete (o : Object) (key : String) : Bool × Object :=
  match o.property? key with
  | some p =>
    if p.configurable then (true, { o with properties := o.properties.erase key }) else (false, o)
  | none => (true, o)

end Object

end CoercionTrace
