import CoercionTrace.Instrument.Rule.Statement

/-!
# Function bodies

The body of an instrumented function announces its frame and leaves it whatever happens. Any other
plain function only declares the temporaries of the code inside it. Directives stay in front.
-/

namespace CoercionTrace

namespace SyntaxTree

/-- Where the directives at the head of a list of statements end, `start` if there are none. -/
def directivesEnd (t : SyntaxTree) (start : Nat) : List NodeId → Nat
  | [] => start
  | statement :: rest =>
    if t.kind statement = .expressionStatement && t.isDirective statement then
      directivesEnd t (t.node statement).stop rest
    else start

/-- Where the text inside the braces of a body begins and ends, and where its directives end. -/
def bodyStart (t : SyntaxTree) (body : NodeId) : Nat := (t.node body).start + 1

def bodyStop (t : SyntaxTree) (body : NodeId) : Nat := (t.node body).stop - 1

def bodyCut (t : SyntaxTree) (body : NodeId) : Nat :=
  t.directivesEnd (t.bodyStart body) (t.significantChildren body)

def lacksSemicolon (t : SyntaxTree) (body : NodeId) : Bool :=
  t.bodyStart body < t.bodyCut body &&
    !endsWithSemicolon (t.textBetween body (t.bodyStart body) (t.bodyCut body))

/-- The directives of a body, from behind its brace, with the semicolon that the last may lack; and
the rest of the body up to its closing brace. -/
def bodyParts (t : SyntaxTree) (body : NodeId) : String × String :=
  let directives := t.textBetween body (t.bodyStart body) (t.bodyCut body)
  (if t.lacksSemicolon body then directives ++ ";" else directives,
    t.textBetween body (t.bodyCut body) (t.bodyStop body))

/-- The names of a function's parameters by position; a parameter that is a pattern has none. -/
def parameterNames (t : SyntaxTree) (id : NodeId) : List (Option String) :=
  match t.child? id "parameters" with
  | none => []
  | some ps => (t.significantChildren ps).map fun p =>
    let name := match t.kind p with
      | .identifier => some p
      | .assignmentPattern => (t.child? p "left").filter fun l => t.kind l == Kind.identifier
      | _ => none
    name.map t.rawSource

end SyntaxTree

namespace Instrumentation

/-- The call that announces the frame of a function: its parameters, and those that nested functions
read if there are any. -/
def enterCall (s : Instrumentation) (function : NodeId) (scope : Scope) : Code :=
  let names := s.tree.parameterNames function
  let listed := names.map fun
    | some name => Code.quoted name
    | none => Code.null
  let captured := (names.filterMap id).filter scope.isClosedOver
  s.hookCall .enterCall <|
    if captured.isEmpty then [.list listed] else [.list listed, .list (captured.map .quoted)]

end Instrumentation

namespace InstrumentM

/-- The parts of a body, for a replacement of it. The last byte of a body is taken for its brace; where
it lies inside a character of a comment, there is no text before it. -/
def cutBody (body : NodeId) : InstrumentM (String × String) := do
  let t := (← get).tree
  if isBoundary t.source (t.bodyStop body) then return t.bodyParts body
  else throw (.insideCharacter (t.bodyStop body))

def bodyChange (id : NodeId) : InstrumentM (Option Change) := do
  let s ← get
  let some number := s.scopes.scopeOf? id | breach (.functionWithoutScope (s.tree.line id))
  let scope := s.scopes.scope number
  if scope.kind ≠ .function then return none
  let some body := s.tree.child? id "body" | breach .functionWithoutBody
  let temporaries ← takeTemporaries (some number)
  if s.isInstrumented number then
    let (directives, rest) ← cutBody body
    let header : FrameHeader :=
      { enter := s.enterCall id scope, traceVariable := s.traceVariable? number, temporaries }
    return some ⟨body, .framedBody directives header rest (s.hookCall .leaveCall [])⟩
  else if temporaries.isEmpty then return none
  else
    let (directives, rest) ← cutBody body
    return some ⟨body, .hostBody directives temporaries rest⟩

end InstrumentM

end CoercionTrace
