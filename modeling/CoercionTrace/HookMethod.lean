/-!
# Hook methods

The methods through which an instrumented program talks to its monitor: what generated code calls
and what the hook object offers.
-/

namespace CoercionTrace

/-- The slot name under which the result of a function is handed over. No variable has a blank in
its name. -/
def returnSlotName : String := "$ ret"

inductive HookMethod
  | arithmeticCheck
  | callCheck
  | assign
  | enterCall
  | leaveCall
  | inOperatorProxy
  | setDiagnosticSink
  | info
  | teardown
  deriving DecidableEq, Inhabited

namespace HookMethod

def name : HookMethod → String
  | .arithmeticCheck => "arithmeticCheck"
  | .callCheck => "callCheck"
  | .assign => "assign"
  | .enterCall => "enterCall"
  | .leaveCall => "leaveCall"
  | .inOperatorProxy => "inOperatorProxy"
  | .setDiagnosticSink => "setDiagnosticSink"
  | .info => "info"
  | .teardown => "teardown"

def arity : HookMethod → Nat
  | .arithmeticCheck => 9
  | .callCheck => 5
  | .assign => 6
  | .enterCall => 1
  | .leaveCall => 0
  | .inOperatorProxy => 2
  | .setDiagnosticSink => 1
  | .info => 0
  | .teardown => 0

def all : List HookMethod :=
  [.arithmeticCheck, .callCheck, .assign, .enterCall, .leaveCall, .inOperatorProxy,
    .setDiagnosticSink, .info, .teardown]

theorem mem_all (m : HookMethod) : m ∈ all := by cases m <;> decide

end HookMethod

end CoercionTrace
