import CoercionTrace.Host.Error
import CoercionTrace.Host.ValueClass
import CoercionTrace.Check.Config

/-!
# Answers

What a step of a script answers, and what was reported and printed meanwhile.
-/

namespace CoercionTrace

structure Facts where
  value : Value
  valueClass : ValueClass
  isCallable : Bool
  isArray : Bool
  isSuspect : Bool

def Heap.facts (h : Heap) (v : Value) : Facts :=
  { value := v, valueClass := h.classOf v, isCallable := h.isCallable v, isArray := h.isArray v
    isSuspect := v.isSuspect }

inductive Answer
  | done
  | value (v : Value)
  | found (v : Option Value)
  | flag (b : Bool)
  | count (n : Nat)
  | integer (i : Int)
  | index (i : Option Nat)
  | text (t : String)
  | texts (ts : List String)
  | facts (f : Facts)
  | property (p : Option Property)
  | callable (f : Option Callable)
  | item (item : Option TraceItem)
  | entered (id : TraceId)
  | key (key : TraceKey)
  | keyText (key : TraceKey)
  | severities (c : CheckConfig)
  | error (message : Option String)
  | checkKind (kind : CheckKind)
  | report (r : CheckReport)

/-- The outcome of a step, with the wording of an error, and what was reported and printed since the
last one. -/
structure Reply where
  outcome : Except (HostError × String) Answer
  reports : List CheckReport
  stdout : String
  stderr : String

end CoercionTrace
