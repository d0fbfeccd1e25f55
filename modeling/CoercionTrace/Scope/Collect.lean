import CoercionTrace.Scope.Basic

/-!
# Collection

One scope for each function-like node, with every name it declares: its own name, `arguments`, its
parameters, and what is declared in its body outside nested functions and classes. Siblings are
visited last first.
-/

namespace CoercionTrace

namespace SyntaxTree

def patternNamesWithin (t : SyntaxTree) : Nat → NodeId → List String
  | 0, _ => []
  | depth + 1, id =>
    match t.kind id with
    | .identifier | .shorthandPropertyIdentifierPattern => [t.rawSource id]
    | .assignmentPattern | .other "object_assignment_pattern" =>
      ((t.child? id "left").map (patternNamesWithin t depth)).getD []
    | .pairPattern => ((t.child? id "value").map (patternNamesWithin t depth)).getD []
    | .restPattern | .objectPattern | .arrayPattern =>
      (t.significantChildren id).flatMap (patternNamesWithin t depth)
    | _ => []

def patternNames (t : SyntaxTree) (id : NodeId) : List String := t.patternNamesWithin t.size id

def fieldNames (t : SyntaxTree) (id : NodeId) (field : String) : List String :=
  ((t.child? id field).map t.patternNames).getD []

def ownName (t : SyntaxTree) (id : NodeId) : List String :=
  ((t.child? id "name").map t.rawSource).toList

def boundNames (t : SyntaxTree) (id : NodeId) : List String :=
  match t.kind id with
  | .variableDeclarator => t.fieldNames id "name"
  | .catchClause => t.fieldNames id "parameter"
  | .forInStatement => if (t.node id).keyword.isSome then t.fieldNames id "left" else []
  | _ => []

/-- The names declared at and below a node. A nested declaration gives its name alone; nested
functions and classes give nothing. -/
def declaredNamesWithin (t : SyntaxTree) : Nat → NodeId → List String
  | 0, _ => []
  | depth + 1, id =>
    if (t.kind id).isDeclaration then t.ownName id
    else if (t.kind id).isFunctionLike || t.kind id == .classExpression then []
    else t.boundNames id ++ (t.children id).reverse.flatMap (declaredNamesWithin t depth)

def declaredNames (t : SyntaxTree) (id : NodeId) : List String := t.declaredNamesWithin t.size id

/-- The names that a function declares for itself, in order and with repetitions. -/
def functionNames (t : SyntaxTree) (id : NodeId) : List String :=
  let own := match t.kind id with
    | .functionExpression | .generatorFunction => t.ownName id
    | _ => []
  let arguments := if t.kind id = .arrowFunction then [] else ["arguments"]
  let parameters := match t.child? id "parameters" with
    | some ps => (t.significantChildren ps).flatMap t.patternNames
    | none => []
  let body := ((t.child? id "body").map t.declaredNames).getD []
  own ++ arguments ++ parameters ++ t.fieldNames id "parameter" ++ body

def scopeKind (t : SyntaxTree) (id : NodeId) : ScopeKind :=
  match t.kind id with
  | .functionDeclaration | .functionExpression =>
    if (t.node id).isAsync then .passthrough else .function
  | _ => .passthrough

end SyntaxTree

namespace ScopeTable

def openScope (t : ScopeTable) (tree : SyntaxTree) (id : NodeId) : ScopeTable :=
  let scope : Scope := { node := id, kind := tree.scopeKind id, parent := t.enclosing? tree id }
  { t with
    scopes := t.scopes.push ((tree.functionNames id).foldl Scope.declare scope)
    byNode := t.byNode.insert id t.scopes.size }

def collect (t : ScopeTable) (tree : SyntaxTree) : ScopeTable :=
  let functions := tree.preOrder.filter fun id => (tree.kind id).isFunctionLike
  { functions.foldl (fun t id => t.openScope tree id) t with collected := true }

end ScopeTable

end CoercionTrace
