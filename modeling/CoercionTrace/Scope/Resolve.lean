import CoercionTrace.Scope.Collect

/-!
# Resolution

An identifier stands for the variable of its name in the innermost scope that declares it. When
another scope lies between, the variable is closed over.
-/

namespace CoercionTrace

/-- Whether an identifier is the name of a declaration, which binds in the scope around it. -/
def SyntaxTree.isDeclarationName (t : SyntaxTree) (id : NodeId) : Bool :=
  (t.node id).field == some "name" && ((t.parent id).map fun p => (t.kind p).isDeclaration).getD false

def SyntaxTree.lookupPath (t : SyntaxTree) (id : NodeId) : List NodeId :=
  if t.isDeclarationName id then (t.ancestors id).drop 1 else t.ancestors id

namespace ScopeTable

def scopePath (t : ScopeTable) (tree : SyntaxTree) (id : NodeId) : List ScopeId :=
  (tree.lookupPath id).filterMap t.scopeOf?

def lookup (t : ScopeTable) (tree : SyntaxTree) (id : NodeId) : Resolution :=
  let path := t.scopePath tree id
  let name := tree.rawSource id
  match path.find? fun s => (t.scope s).declares name with
  | none => .global
  | some s => .declared s name (path.head? == some s)

def markClosedOver (t : ScopeTable) (scope : ScopeId) (name : String) : ScopeTable :=
  { t with scopes := t.scopes.modify scope fun s =>
      { s with declared := s.declared.insert name true } }

def note (t : ScopeTable) (id : NodeId) (r : Resolution) : ScopeTable :=
  let marked := match r with
    | .declared scope name false => t.markClosedOver scope name
    | _ => t
  { marked with references := marked.references.insert id r }

def resolve (t : ScopeTable) (tree : SyntaxTree) (id : NodeId) :
    Except InstrumentError (Resolution × ScopeTable) :=
  if !t.collected then
    .error (.contract (.resolvedBeforeCollection (tree.rawSource id)))
  else match t.resolution? id with
    | some r => .ok (r, t)
    | none => let r := t.lookup tree id; .ok (r, t.note id r)

def identifiers (tree : SyntaxTree) : List NodeId :=
  tree.preOrder.filter fun id =>
    tree.kind id = .identifier || tree.kind id = .shorthandPropertyIdentifier

def resolveAll (t : ScopeTable) (tree : SyntaxTree) : Except InstrumentError ScopeTable :=
  (identifiers tree).foldlM (fun t id => (t.resolve tree id).map (·.2)) t

def analyze (tree : SyntaxTree) : Except InstrumentError ScopeTable :=
  (({} : ScopeTable).collect tree).resolveAll tree

end ScopeTable

end CoercionTrace
