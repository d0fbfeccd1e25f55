import CoercionTrace.Monitor.World
import CoercionTrace.Number.Operator
import CoercionTrace.Number.Reading

/-!
# Implicit conversions

What operators make of operands of another type. The conversion of an object may run program code,
and may fail.
-/

namespace CoercionTrace

def Value.primitiveNumber : Value → Number
  | undefined => .nan
  | null => .zero
  | boolean b => .ofNat b.toNat
  | number n => n
  | text t => .ofText t
  | object _ => .nan

variable {σ : Type}

namespace HostM

def attempt {α : Type} (step : HostM σ α) : HostM σ (Except HostError α) := ExceptT.lift step.run

def answer {α : Type} : Except HostError α → HostM σ α
  | .ok a => return a
  | .error e => throw e

def andFinally {α : Type} (step : HostM σ α) (last : World σ → World σ) : HostM σ α := do
  let r ← attempt step
  modify last
  answer r

def heap : HostM σ Heap := return (← get).heap

def plainText : Value := .text "[object Object]"

/-- The primitive that stands for a value. Arrays and functions have their text; an ordinary object
is asked for its own conversion. -/
def toPrimitive (call : Call σ) (v : Value) : HostM σ Value :=
  match v with
  | .object id => do
    let h ← heap
    let o := h.object id
    if o.isArray || o.isCallable then return .text (h.display v)
    else
      match (h.find? id "toString").bind h.callable? with
      | none => return plainText
      | some f =>
        let result ← call f v []
        if result.isObject then throw (.type .noPrimitive) else return result
  | _ => return v

def toNumber (call : Call σ) (v : Value) : HostM σ Number :=
  return (← toPrimitive call v).primitiveNumber

def toText (call : Call σ) (v : Value) : HostM σ String :=
  return (← toPrimitive call v).primitiveText

/-- The sum of two primitives: with a text on either side, the texts one after the other. -/
def addPrimitives (l r : Value) : Value :=
  if l.isText || r.isText then .text (l.primitiveText ++ r.primitiveText)
  else .number (l.primitiveNumber.add r.primitiveNumber)

def binary (call : Call σ) (operator : String) (left right : Value) : HostM σ Value := do
  if operator = "+" then
    let l ← toPrimitive call left
    let r ← toPrimitive call right
    return addPrimitives l r
  else
    let l ← toNumber call left
    let r ← toNumber call right
    match NumericOperator.ofSymbol? operator with
    | some op => return .number (op.apply l r)
    | none => throw (.type (.unsupportedOperator operator))

def search (call : Call σ) (key target : Value) : HostM σ Bool := do
  match target with
  | .object id =>
    let name ← toText call key
    if name = traceIdProperty then return false else return (← heap).has id name
  | _ =>
    let h ← heap
    throw (.type (.searchInPrimitive (h.display key) (h.display target)))

end HostM

end CoercionTrace
