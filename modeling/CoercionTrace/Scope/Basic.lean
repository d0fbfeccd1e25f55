import CoercionTrace.Syntax.Traversal
import CoercionTrace.Table

/-!
# Scopes

Every function-like node opens a scope, which holds the names declared in it and knows of each
whether a nested function reads it. The top level has no scope: what no scope declares is global.
-/

namespace CoercionTrace

abbrev ScopeId := Nat

inductive ScopeKind
  | function
  /-- An arrow function, method, generator or async function; its text stays as it is. -/
  | passthrough
  deriving DecidableEq, Inhabited

structure Scope where
  node : NodeId
  kind : ScopeKind
  parent : Option ScopeId
  /-- The declared names, each with whether it is closed over. -/
  declared : Table String Bool := .empty
  deriving Inhabited

namespace Scope

def declares (s : Scope) (name : String) : Bool := s.declared.contains name

def declare (s : Scope) (name : String) : Scope :=
  if s.declares name then s else { s with declared := s.declared.insert name false }

def names (s : Scope) : List String := s.declared.keys

def closedOver (s : Scope) : List String := (s.declared.entries.filter (·.2)).map (·.1)

def isClosedOver (s : Scope) (name : String) : Bool := (s.declared.find? name).getD false

end Scope

inductive Resolution
  | global
  /-- A variable of a scope; `here` tells that no other scope lies between. -/
  | declared (scope : ScopeId) (name : String) (here : Bool)
  deriving DecidableEq, Inhabited

structure ScopeTable where
  scopes : Array Scope := #[]
  byNode : Table NodeId ScopeId := .empty
  references : Table NodeId Resolution := .empty
  collected : Bool := false

namespace ScopeTable

def scope (t : ScopeTable) (id : ScopeId) : Scope := t.scopes.getD id default

def scopeOf? (t : ScopeTable) (node : NodeId) : Option ScopeId := t.byNode.find? node

def enclosing? (t : ScopeTable) (tree : SyntaxTree) (node : NodeId) : Option ScopeId :=
  (tree.ancestors node).findSome? t.scopeOf?

def resolution? (t : ScopeTable) (identifier : NodeId) : Option Resolution :=
  t.references.find? identifier

def hasClosedOver (t : ScopeTable) (id : ScopeId) : Bool := !(t.scope id).closedOver.isEmpty

end ScopeTable

end CoercionTrace
