import CoercionTrace.Host.Object
import CoercionTrace.Text.Quoted
import CoercionTrace.Text.Visible

/-!
# The heap

All objects of a program, by identity. Objects are never given up, so that an identity always means
the same object. Main statements: what an object holds after one of them is changed
(`object_put_self`, `object_put_ne`), and that a new object leaves the others alone
(`object_alloc_of_lt`).
-/

namespace CoercionTrace

structure Heap where
  objects : Array Object := #[]
  deriving Inhabited

namespace Heap

def size (h : Heap) : Nat := h.objects.size

def object (h : Heap) (id : ObjectId) : Object := (h.objects[id]?).getD {}

def alloc (h : Heap) (o : Object) : ObjectId × Heap := (h.size, ⟨h.objects.push o⟩)

def put (h : Heap) (id : ObjectId) (o : Object) : Heap := ⟨h.objects.setIfInBounds id o⟩

def change {α : Type} (h : Heap) (id : ObjectId) (f : Object → α × Object) : α × Heap :=
  let (a, o) := f (h.object id)
  (a, h.put id o)

theorem object_put_self (h : Heap) {id : ObjectId} (o : Object) (hid : id < h.size) :
    (h.put id o).object id = o := by
  simp only [size] at hid
  simp [object, put, hid]

theorem object_put_ne (h : Heap) {id id' : ObjectId} (o : Object) (hne : id ≠ id') :
    (h.put id o).object id' = h.object id' := by
  simp [object, put, hne]

theorem object_alloc_of_lt (h : Heap) {id : ObjectId} (o : Object) (hid : id < h.size) :
    (h.alloc o).2.object id = h.object id := by
  simp only [size] at hid
  simp [object, alloc, Array.getElem?_push, Nat.ne_of_lt hid]

@[simp] theorem object_alloc_self (h : Heap) (o : Object) :
    (h.alloc o).2.object (h.alloc o).1 = o := by
  simp [object, alloc, size]

def callable? (h : Heap) : Value → Option Callable
  | .object id => (h.object id).callable?
  | _ => none

def elements? (h : Heap) : Value → Option (List Value)
  | .object id => (h.object id).elements?
  | _ => none

def isCallable (h : Heap) (v : Value) : Bool := (h.callable? v).isSome

def isArray (h : Heap) (v : Value) : Bool := (h.elements? v).isSome

def findWithin (h : Heap) (key : String) : Nat → ObjectId → Option Value
  | 0, id => (h.object id).own? key
  | n + 1, id =>
    match (h.object id).own? key with
    | some v => some v
    | none => (h.object id).parent.bind (findWithin h key n)

/-- The value of a property, own or inherited. No object has more ancestors than there are
objects. -/
def find? (h : Heap) (id : ObjectId) (key : String) : Option Value := h.findWithin key h.size id

def has (h : Heap) (id : ObjectId) (key : String) : Bool := (h.find? id key).isSome

def displayDepth : Nat := 9

def elementText (ofObject : ObjectId → String) : Value → String
  | .undefined | .null => ""
  | .object id => ofObject id
  | v => v.primitiveText

def joinElements (ofObject : ObjectId → String) (elements : List Value) : String :=
  String.intercalate "," (elements.map (elementText ofObject))

/-- The text of an object, with at most `n` arrays one in another. An array within itself has no
text. -/
def displayObject (h : Heap) : Nat → ObjectId → String
  | n, id =>
    match (h.object id).kind with
    | .ordinary => "[object Object]"
    | .function f => f.text
    | .array elements =>
      match n with
      | 0 => ""
      | n + 1 => joinElements (fun id' => if id' = id then "" else displayObject h n id') elements

def display (h : Heap) : Value → String
  | .object id => h.displayObject displayDepth id
  | v => v.primitiveText

def displayElements (h : Heap) (elements : List Value) : String :=
  joinElements (h.displayObject (displayDepth - 1)) elements

def describe (h : Heap) : Value → String
  | .text t => Text.Quoted.json t
  | v => h.display v

def inspectObject (h : Heap) (id : ObjectId) : String :=
  let o := h.object id
  match o.kind with
  | .ordinary => "Object(" ++ toString o.properties.size ++ " keys)"
  | .array elements => "Array(" ++ toString elements.length ++ ")"
  | .function f => "Function(" ++ f.name ++ ")"

def inspect (h : Heap) : Value → String
  | .text t => Text.visible t
  | .object id => h.inspectObject id
  | v => v.primitiveText

def typeName (h : Heap) : Value → String
  | .undefined => "undefined"
  | .null => "object"
  | .boolean _ => "boolean"
  | .number _ => "number"
  | .text _ => "string"
  | .object id => if (h.object id).isCallable then "function" else "object"

end Heap

end CoercionTrace
