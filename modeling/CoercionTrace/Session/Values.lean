import CoercionTrace.Session.State

/-!
# Commands on values and objects
-/

namespace CoercionTrace.Session

def callValue (call : Call Session) (f receiver : Value) (arguments : List Value) :
    SessionM Value := do
  let h ← HostM.heap
  match h.callable? f with
  | some f => call f receiver arguments
  | none => throw (.notCallable (h.display f))

def onValue (call : Call Session) (a : Activation) (v : Value) : ValueCommand → SessionM Answer
  | .evaluate => return .value v
  | .typeName => return .text ((← HostM.heap).typeName v)
  | .display => return .text ((← HostM.heap).display v)
  | .describe => return .text ((← HostM.heap).describe v)
  | .inspect => return .text ((← HostM.heap).inspect v)
  | .facts => return .facts ((← HostM.heap).facts v)
  | .same other => return .flag (v.same (← eval a other))
  | .primitive => return .value (← HostM.toPrimitive call v)
  | .number => return .value (.number (← HostM.toNumber call v))
  | .text => return .text (← HostM.toText call v)
  | .throw => throw (.thrown v)
  | .numberText => return .text v.primitiveNumber.toText
  | .int32 => return .integer v.primitiveNumber.toInt32

def change (id : ObjectId) (f : Object → Bool × Object) : SessionM Answer := do
  let accepted ← modifyGet fun w =>
    let (accepted, heap) := w.heap.change id f
    (accepted, { w with heap })
  return .flag accepted

def reflection : SessionM Reflection := return ((← get).realm realm).reflection

def onObject (call : Call Session) (a : Activation) (id : ObjectId) :
    ObjectCommand → SessionM Answer
  | .own key => return .found (((← HostM.heap).object id).own? key)
  | .find key => return .found ((← HostM.heap).find? id key)
  | .hasOwn key => return .flag (((← HostM.heap).object id).hasOwn key)
  | .has key => return .flag ((← HostM.heap).has id key)
  | .set key v => do
    let v ← eval a v
    change id fun o => o.set key v
  | .define key v enumerable writable configurable => do
    let value ← eval a v
    change id fun o => o.define key { value, enumerable, writable, configurable }
  | .delete key => change id fun o => o.delete key
  | .property key => return .property (((← HostM.heap).object id).property? key)
  | .ownKeys => return .texts ((← HostM.heap).object id).ownKeys
  | .enumerableKeys | .shownKeys => return .texts ((← HostM.heap).object id).enumerableKeys
  | .inherit parent => do
    let parent ← eval a parent
    ExceptT.lift (Term.adopt (.object id) parent)
    return .done
  | .callable => return .callable ((← HostM.heap).object id).callable?
  | .lacksConversion => return .flag ((← HostM.heap).lacksConversion id)
  | .call receiver arguments => do
    let receiver ← eval a receiver
    let arguments ← evalAll a arguments
    return .value (← callValue call (.object id) receiver arguments)
  | .invoke method arguments => do
    let arguments ← evalAll a arguments
    let f := ((← HostM.heap).find? id method).getD .undefined
    return .value (← callValue call f (.object id) arguments)
  | .isGlobal => return .flag (((← get).realm realm).global == id)
  | .shownHasOwn key => do
    let o := (← HostM.heap).object id
    return .flag ((← reflection).hasOwn o key)
  | .shownNames => do
    let o := (← HostM.heap).object id
    return .texts ((← reflection).ownNames o)

end CoercionTrace.Session
