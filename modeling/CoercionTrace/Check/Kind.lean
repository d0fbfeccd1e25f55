/-!
# Checks

What a monitor looks out for, how severe each finding is, and the wording of its message. A
placeholder in a template is a number between braces.
-/

namespace CoercionTrace

inductive CheckKind
  | nonFiniteResult
  | hiddenBadOperand
  | notCallable
  | arrayConcatenation
  | badStringConversion
  | stringCoercion
  | tooManyArguments
  deriving DecidableEq, Inhabited

inductive Severity
  | ignore
  | warn
  | error
  deriving DecidableEq, Inhabited

inductive Category
  | earlier
  | source
  | hidden
  deriving DecidableEq

namespace CheckKind

def all : List CheckKind :=
  [.nonFiniteResult, .hiddenBadOperand, .notCallable, .arrayConcatenation, .badStringConversion,
    .stringCoercion, .tooManyArguments]

theorem mem_all (k : CheckKind) : k ∈ all := by cases k <;> decide

def index : CheckKind → Nat
  | .nonFiniteResult => 0
  | .hiddenBadOperand => 1
  | .notCallable => 2
  | .arrayConcatenation => 3
  | .badStringConversion => 4
  | .stringCoercion => 5
  | .tooManyArguments => 6

def defaultSeverity : CheckKind → Severity
  | .notCallable => .error
  | _ => .warn

def category : CheckKind → Category
  | .nonFiniteResult | .notCallable | .stringCoercion => .earlier
  | .hiddenBadOperand => .hidden
  | .arrayConcatenation | .badStringConversion | .tooManyArguments => .source

def head : CheckKind → String
  | .nonFiniteResult =>
    "An arithmetic expression of type '{3}' produced a non-numeric or non-finite result"
  | .hiddenBadOperand =>
    "An arithmetic expression of type '{3}' on non-numeric or non-finite operands produced a " ++
      "finite result."
  | .notCallable => "Attempted to call a non-callable expression"
  | .arrayConcatenation => "Adding arrays causes their string representations to be concatenated"
  | .badStringConversion =>
    "String concatenation involves an object operand without a proper string conversion"
  | .stringCoercion =>
    "Operand of arithmetic expression is a string that gets auto-parsed as number"
  | .tooManyArguments => "Function called with too many arguments"

def detail : CheckKind → String
  | .nonFiniteResult | .hiddenBadOperand | .badStringConversion | .stringCoercion =>
    "Expression: '{1} {3} {2} => {0}'"
  | .notCallable => "Function Expression: '{3}' is {0}"
  | .arrayConcatenation => "Left array: '{1}', right array: '{2}'"
  | .tooManyArguments => "Expected {0} arguments but received {1}. Function: {2}"

def key (k : CheckKind) : String := "W" ++ toString k.index

def ofKey? : String → Option CheckKind
  | "W0" => some .nonFiniteResult
  | "W1" => some .hiddenBadOperand
  | "W2" => some .notCallable
  | "E2" => some .notCallable
  | "W3" => some .arrayConcatenation
  | "W4" => some .badStringConversion
  | "W5" => some .stringCoercion
  | "W6" => some .tooManyArguments
  | _ => none

theorem ofKey?_key (k : CheckKind) : ofKey? k.key = some k := by cases k <;> rfl

end CheckKind

namespace Severity

def key : Severity → String
  | .ignore => "ignore"
  | .warn => "warn"
  | .error => "error"

def ofKey? : String → Option Severity
  | "ignore" => some .ignore
  | "warn" => some .warn
  | "error" => some .error
  | _ => none

theorem ofKey?_key (s : Severity) : ofKey? s.key = some s := by cases s <;> rfl

def letter : Severity → String
  | .error => "E"
  | _ => "W"

end Severity

def Category.text : Category → String
  | .earlier => "This hints at a bug caused earlier."
  | .source => "This may be a bug."
  | .hidden => "This may be inadvertently hiding a bug."

end CoercionTrace
