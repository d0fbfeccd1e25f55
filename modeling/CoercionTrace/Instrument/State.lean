import CoercionTrace.Names
import CoercionTrace.Scope.Resolve
import CoercionTrace.Suppression
import CoercionTrace.Syntax.Shape

/-!
# The state of an instrumentation

The tree under change, the names handed out so far, and the temporaries that each function still
has to declare. A failed step keeps what it did before it failed.
-/

namespace CoercionTrace

def SyntaxTree.operand (t : SyntaxTree) (id : NodeId) : Code :=
  let text : Code := .splice id (t.text id)
  if t.kind id = .sequenceExpression then .sequence [text] else text

structure Instrumentation where
  tree : SyntaxTree
  scopes : ScopeTable
  suppression : Suppression
  hook : String
  file : String
  names : NameSupply
  instrumented : List ScopeId := []
  /-- The variables that keep the identity of a call, for functions with closed-over variables. -/
  traceVariables : Table ScopeId String := .empty
  /-- The temporaries to be declared in each function, or in the program. -/
  temporaries : Table (Option ScopeId) (List String) := .empty
  diagnostics : List Diagnostic := []

namespace Instrumentation

def touchesSuppressed (s : Instrumentation) (id : NodeId) : Bool :=
  s.tree.touchesRows id s.suppression.isSuppressed

def isInstrumented (s : Instrumentation) (scope : ScopeId) : Bool := s.instrumented.contains scope

def traceVariable? (s : Instrumentation) (scope : ScopeId) : Option String :=
  s.traceVariables.find? scope

def host? (s : Instrumentation) (id : NodeId) : Option ScopeId := s.scopes.enclosing? s.tree id

/-- Enrol a scope: a plain function that no suppressed row touches is instrumented, and keeps its
call's identity if nested functions read its variables. -/
def enroll (s : Instrumentation) (id : ScopeId) : Instrumentation :=
  let scope := s.scopes.scope id
  if scope.kind ≠ .function || s.touchesSuppressed scope.node then s
  else
    let s := { s with instrumented := s.instrumented ++ [id] }
    if s.scopes.hasClosedOver id then
      let (name, names) := s.names.fresh .traceId
      { s with names, traceVariables := s.traceVariables.insert id name }
    else s

def start (tree : SyntaxTree) (scopes : ScopeTable) (suppression : Suppression)
    (hook file : String) : Instrumentation :=
  let s : Instrumentation :=
    { tree, scopes, suppression, hook, file, names := NameSupply.forProgram tree.source }
  (List.range scopes.scopes.size).foldl enroll s

def location (s : Instrumentation) (id : NodeId) : Code :=
  .quoted (s.file ++ ":" ++ toString (s.tree.line id))

def hookCall (s : Instrumentation) (method : HookMethod) (arguments : List Code) : Code :=
  .hook s.hook method arguments

def operand (s : Instrumentation) (id : NodeId) : Code := s.tree.operand id

def pending (s : Instrumentation) (host : Option ScopeId) : List String :=
  (s.temporaries.find? host).getD []

end Instrumentation

abbrev InstrumentM := ExceptT Halt (StateM Instrumentation)

namespace InstrumentM

def temporary (id : NodeId) : InstrumentM String := do
  let s ← get
  let host := s.host? id
  let (name, names) := s.names.fresh .temporary
  set { s with names, temporaries := s.temporaries.insert host (s.pending host ++ [name]) }
  return name

/-- Take over the temporaries of a function, or of the program, for declaration. -/
def takeTemporaries (host : Option ScopeId) : InstrumentM (List String) := do
  let s ← get
  set { s with temporaries := s.temporaries.erase host }
  return s.pending host

def replace (id : NodeId) (r : Replacement) : InstrumentM Unit := do
  let s ← get
  match s.tree.update id r with
  | .ok tree => set { s with tree }
  | .error e => throw (.error e)

def diagnose (id : NodeId) (complaint : Complaint) : InstrumentM Unit :=
  modify fun s =>
    { s with diagnostics := s.diagnostics ++ [{ file := s.file, line := s.tree.line id, complaint }] }

def breach {α : Type} (b : Breach) : InstrumentM α := throw (.error (.contract b))

end InstrumentM

end CoercionTrace
