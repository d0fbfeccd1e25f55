import CoercionTrace.Instrument.Rule

/-!
# Passes

A pass offers every node to the rules, children before parents. Passthrough functions, classes and
parameter lists are not entered, and suppressed rows are left alone.
-/

namespace CoercionTrace

/-- Nodes that a pass does not enter. Default values of parameters run before the temporaries of
the body exist. -/
def isPassthrough (t : SyntaxTree) (scopes : ScopeTable) (id : NodeId) : Bool :=
  let kind := t.kind id
  if kind == .classExpression || kind == .classDeclaration || kind == .formalParameters then true
  else if kind.isFunctionLike then
    match scopes.scopeOf? id with
    | some s => (scopes.scope s).kind == .passthrough
    | none => true
  else false

namespace InstrumentM

def visit (rules : List Rule) (id : NodeId) : InstrumentM Unit := do
  let s ← get
  match rules.find? fun r => r.handles (s.tree.kind id) with
  | none => return
  | some r =>
    if !r.appliesToSuppressed && s.touchesSuppressed id then return
    discard (r.apply id)

def visitAll (rules : List Rule) : List NodeId → InstrumentM Unit
  | [] => return
  | id :: rest => do
    visit rules id
    visitAll rules rest

def pass (rules : List Rule) : InstrumentM Unit := do
  let s ← get
  visitAll rules (s.tree.postOrder (isPassthrough s.tree s.scopes))

end InstrumentM

namespace Instrumentation

def afterPass (s : Instrumentation) (rules : List Rule) :
    Except Halt Unit × Instrumentation :=
  (InstrumentM.pass rules).run s

def restart (s : Instrumentation) : Instrumentation :=
  start s.tree s.scopes s.suppression s.hook s.file

/-- What each of `n` passes leaves, every one over the tree that the one before left. A pass that
fails is the last. -/
def passes (rules : List Rule) : Nat → Instrumentation → List (Except Halt Instrumentation)
  | 0, _ => []
  | n + 1, s =>
    match s.afterPass rules with
    | (.error e, _) => [.error e]
    | (.ok (), s) => .ok s :: passes rules n s.restart

end Instrumentation

end CoercionTrace
