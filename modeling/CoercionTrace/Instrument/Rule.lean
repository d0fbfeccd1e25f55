import CoercionTrace.Instrument.Rule.Body
import CoercionTrace.Instrument.Rule.Call
import CoercionTrace.Instrument.Rule.Expression
import CoercionTrace.Instrument.Rule.Statement

/-!
# Rules

One rule for each construct that is instrumented. Their kinds are disjoint, so at most one rule
applies to a node.
-/

namespace CoercionTrace

inductive Rule
  | terminator
  | binary
  | assignment
  | compound
  | declarator
  | returning
  | call
  | body
  deriving DecidableEq

namespace Rule

def all : List Rule :=
  [.terminator, .binary, .assignment, .compound, .declarator, .returning, .call, .body]

def name : Rule → String
  | .terminator => "statement-terminator"
  | .binary => "binary-expression"
  | .assignment => "assignment"
  | .compound => "compound-assignment"
  | .declarator => "declarator"
  | .returning => "return"
  | .call => "call"
  | .body => "function-body"

def handles : Rule → Kind → Bool
  | .terminator, kind => kind.isTerminable && kind != .returnStatement
  | .binary, kind => kind == .binaryExpression
  | .assignment, kind => kind == .assignmentExpression
  | .compound, kind => kind == .augmentedAssignmentExpression
  | .declarator, kind => kind == .variableDeclarator
  | .returning, kind => kind == .returnStatement
  | .call, kind => kind == .callExpression
  | .body, kind => kind == .functionDeclaration || kind == .functionExpression

/-- A function on suppressed rows still declares the temporaries of the code inside it. -/
def appliesToSuppressed (r : Rule) : Bool := r == .body

def change? (id : NodeId) : Rule → InstrumentM (Option Change)
  | .terminator => return (← get).terminated id
  | .binary => InstrumentM.binaryChange id
  | .assignment => InstrumentM.assignmentChange id
  | .compound => InstrumentM.compoundChange id
  | .declarator => InstrumentM.declaratorChange id
  | .returning => InstrumentM.returnChange id
  | .call => InstrumentM.callChange id
  | .body => InstrumentM.bodyChange id

def apply (r : Rule) (id : NodeId) : InstrumentM Bool := do
  match ← r.change? id with
  | none => return false
  | some change =>
    InstrumentM.replace change.node change.replacement
    return true

end Rule

end CoercionTrace
