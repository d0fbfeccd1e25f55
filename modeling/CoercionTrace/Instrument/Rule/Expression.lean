import CoercionTrace.Instrument.Rule.Statement

/-!
# Operators and assignments

Operands are read into temporaries from left to right, so each is evaluated once; the operation and
the store come last.
-/

namespace CoercionTrace

def checkedOperators : List String := ["+", "-", "*", "/", "|", "&"]

/-- The operators of assignments that may leave their right-hand side unevaluated. -/
def logicalOperators : List String := ["&&", "||", "??"]

def compoundOperator? (token : String) : Option String :=
  match token.toList.reverse with
  | '=' :: rest => some (String.ofList rest.reverse)
  | _ => none

namespace Instrumentation

def arithmeticCheck (s : Instrumentation) (id : NodeId) (operator : String)
    (left right : String) (leftOrigin rightOrigin : Origin) : Code :=
  let left := Code.variable .temporary left
  let right := Code.variable .temporary right
  s.hookCall .arithmeticCheck
    [.operation operator left right, left, right, .quoted operator, s.location id,
      leftOrigin.scope, leftOrigin.slot, rightOrigin.scope, rightOrigin.slot]

def traced (s : Instrumentation) (id : NodeId) (value : Code) (target source : Origin) : Code :=
  s.hookCall .assign
    [value, target.scope, target.slot, source.scope, source.slot, s.location id]

end Instrumentation

namespace InstrumentM

def binaryChange (id : NodeId) : InstrumentM (Option Change) := do
  let s ← get
  let operator := (s.tree.node id).operator.getD ""
  match s.tree.child? id "left", s.tree.child? id "right" with
  | some left, some right =>
    if operator = "in" then
      if s.tree.kind left = .other "private_property_identifier" then return none
      return some ⟨id, .expression
        (s.hookCall .inOperatorProxy [s.operand left, s.operand right])⟩
    if !checkedOperators.contains operator then return none
    let lhs ← operandStub left
    let rhs ← operandStub right
    let leftName ← temporary id
    let rightName ← temporary id
    let s ← get
    let lhs := s.held left lhs leftName
    let rhs := s.held right rhs rightName
    let check := s.arithmeticCheck id operator leftName rightName lhs.origin rhs.origin
    return some ⟨id, .expression (.sequence (lhs.preamble ++ rhs.preamble ++ [check]))⟩
  | _, _ => return none

/-- A function without a name that is assigned to a variable keeps taking the variable's name. -/
def keepsInferredName (t : SyntaxTree) (left right : NodeId) : Bool :=
  t.kind (t.unwrap left) == .identifier && t.isAnonymousFunction right

def assignmentChange (id : NodeId) : InstrumentM (Option Change) := do
  let s ← get
  match s.tree.child? id "left", s.tree.child? id "right" with
  | some left, some right =>
    if keepsInferredName s.tree left right then return none
    let some target ← targetStub left | return none
    let some store := target.store | return none
    let value ← operandStub right
    let s ← get
    let assigned := Code.store store (s.traced id value.value target.origin value.origin)
    return some ⟨id, .expression (.sequence (target.preamble ++ value.preamble ++ [assigned]))⟩
  | _, _ => return none

/-- The target is read before the right-hand side is evaluated. -/
def compoundChange (id : NodeId) : InstrumentM (Option Change) := do
  let s ← get
  let some operator := compoundOperator? ((s.tree.node id).operator.getD "") | return none
  if logicalOperators.contains operator then return none
  match s.tree.child? id "left", s.tree.child? id "right" with
  | some left, some right =>
    let some target ← targetStub left | return none
    let some store := target.store | return none
    let value ← operandStub right
    let current ← temporary id
    let operandName ← temporary id
    let s ← get
    let value := s.held right value operandName
    let combined :=
      if checkedOperators.contains operator then
        s.arithmeticCheck id operator current operandName target.origin value.origin
      else
        .operation operator (.variable .temporary current) (.variable .temporary operandName)
    let assigned := Code.store store (s.traced id combined target.origin value.origin)
    let read := Code.store (.variable .temporary current) target.value
    return some ⟨id, .expression (.sequence
      (target.preamble ++ [read] ++ value.preamble ++ [assigned]))⟩
  | _, _ => return none

end InstrumentM

end CoercionTrace
