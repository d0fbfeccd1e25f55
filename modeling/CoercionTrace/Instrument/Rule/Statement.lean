import CoercionTrace.Instrument.Stub

/-!
# Statements

Every statement that a line break ends gets its semicolon, so that what follows it may begin with a
parenthesis. Behind a suppressed statement, which keeps its line break, the semicolon comes first.
-/

namespace CoercionTrace

structure Change where
  node : NodeId
  replacement : Replacement

def endsWithSemicolon (text : String) : Bool := Text.endsWith text ';'

def startsWithBracket (text : String) : Bool :=
  match text.toList.head? with
  | some c => c == '(' || c == '['
  | none => false

def SyntaxTree.previousSibling? (t : SyntaxTree) (id : NodeId) : Option NodeId :=
  (t.parent id).bind fun p => ((t.significantChildren p).takeWhile (· ≠ id)).getLast?

namespace Instrumentation

def followsUnterminated (s : Instrumentation) (id : NodeId) : Bool :=
  match s.tree.previousSibling? id with
  | none => false
  | some p => (s.tree.kind p).isTerminable && !endsWithSemicolon (s.tree.text p)

def missingSemicolons (s : Instrumentation) (id : NodeId) (text : String) : Bool × Bool :=
  let trailing := !endsWithSemicolon text
  let begins := if trailing then text ++ ";" else text
  (startsWithBracket begins && s.followsUnterminated id, trailing)

def terminated (s : Instrumentation) (id : NodeId) : Option Change :=
  let text := s.tree.text id
  let (leading, trailing) := s.missingSemicolons id text
  if leading || trailing then some ⟨id, .statement leading text trailing⟩ else none

end Instrumentation

namespace InstrumentM

/-- In an instrumented function the returned value goes to the return slot on its way out. -/
def returnChange (id : NodeId) : InstrumentM (Option Change) := do
  let s ← get
  let instrumented := ((s.host? id).map s.isInstrumented).getD false
  match (s.tree.significantChildren id).head?, instrumented with
  | some argument, true =>
    let value ← operandStub argument
    let s ← get
    let traced := s.hookCall .assign
      [value.value, .null, .quoted returnSlotName, value.origin.scope, value.origin.slot,
        s.location id]
    return some ⟨id, .returned (value.sequence traced)⟩
  | _, _ =>
    if endsWithSemicolon (s.tree.text id) then return none else return s.terminated id

/-- The initial value of a declared variable. A function without a name takes the variable's. -/
def declaratorChange (id : NodeId) : InstrumentM (Option Change) := do
  let s ← get
  match s.tree.child? id "name", s.tree.child? id "value" with
  | some name, some init =>
    if s.tree.kind name ≠ .identifier || s.tree.isAnonymousFunction init then return none
    match s.identifierOrigin name with
    | .error e => throw (.error e)
    | .ok target =>
      let value ← operandStub init
      let s ← get
      let traced := s.hookCall .assign
        [value.value, target.scope, target.slot, value.origin.scope, value.origin.slot,
          s.location id]
      return some ⟨id, .expression
        (.store (.identifier name (s.tree.rawSource name)) (value.sequence traced))⟩
  | _, _ => return none

end InstrumentM

end CoercionTrace
