import CoercionTrace.Check.Report
import CoercionTrace.Host.Value
import CoercionTrace.Trace.Stack

/-!
# Errors at run time

Why an operation on behalf of an instrumented program fails. For the program each of these is an
exception.
-/

namespace CoercionTrace

inductive TypeFault
  /-- An object stands where a primitive is needed, and its conversion gave an object again. -/
  | noPrimitive
  | unsupportedOperator (operator : String)
  | searchInPrimitive (key target : String)
  | noArray (role typeName : String)
  | noSink (typeName : String)
  deriving DecidableEq

def TypeFault.message : TypeFault → String
  | .noPrimitive => "Cannot convert object to primitive value"
  | .unsupportedOperator operator => "unsupported operator '" ++ operator ++ "'"
  | .searchInPrimitive key target =>
    "Cannot use 'in' operator to search for '" ++ key ++ "' in " ++ target
  | .noArray role typeName => role ++ " must be an array, got " ++ typeName
  | .noSink typeName => "setDiagnosticSink expects a function, got " ++ typeName

inductive HostError
  | check (kind : CheckKind) (head : String)
  | thrown (v : Value)
  | trace (e : TraceError)
  | notCallable (callee : String)
  | type (fault : TypeFault)
  | tornDown
  | callDepth
  deriving DecidableEq

namespace HostError

def message (display : Value → String) : HostError → String
  | .check _ head => "jsane ERROR: " ++ head
  | .thrown v => "uncaught exception: " ++ display v
  | .trace e => e.message
  | .notCallable callee => "TypeError: " ++ callee ++ " is not a function"
  | .type fault => "TypeError: " ++ fault.message
  | .tornDown => "the JSane runtime has been torn down"
  | .callDepth => "call depth exceeded"

end HostError

end CoercionTrace
