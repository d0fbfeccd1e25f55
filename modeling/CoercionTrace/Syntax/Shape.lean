import CoercionTrace.Syntax.Render

/-!
# Shapes of expressions and statements

What instrumentation has to know of the form of a node.
-/

namespace CoercionTrace

namespace SyntaxTree

def unwrapWithin (t : SyntaxTree) : Nat → NodeId → NodeId
  | 0, id => id
  | depth + 1, id =>
    if t.kind id = .parenthesizedExpression then
      match t.significantChildren id with
      | [only] => if t.kind only = .sequenceExpression then id else unwrapWithin t depth only
      | _ => id
    else id

def unwrap (t : SyntaxTree) (id : NodeId) : NodeId := t.unwrapWithin t.size id

/-- Whether an expression is an anonymous function or class, which takes its name from the variable
that it is bound to. -/
def isAnonymousFunction (t : SyntaxTree) (id : NodeId) : Bool :=
  let inner := t.unwrap id
  match t.kind inner with
  | .arrowFunction => true
  | .functionExpression | .generatorFunction | .classExpression => (t.child? inner "name").isNone
  | _ => false

def hasOptionalLinkWithin (t : SyntaxTree) : Nat → NodeId → Bool
  | 0, _ => false
  | depth + 1, id =>
    let below := match t.kind id with
      | .memberExpression | .subscriptExpression => some "object"
      | .callExpression => some "function"
      | _ => none
    match below with
    | none => false
    | some field =>
      (t.child? id "optional_chain").isSome ||
        ((t.child? id field).map (hasOptionalLinkWithin t depth)).getD false

/-- Whether a chain of member accesses and calls may stop short, here or further down. -/
def hasOptionalLink (t : SyntaxTree) (id : NodeId) : Bool := t.hasOptionalLinkWithin t.size id

def isPlainMember (t : SyntaxTree) (id : NodeId) : Bool :=
  match t.child? id "object" with
  | none => false
  | some object =>
    if t.kind object = .superKeyword || t.hasOptionalLink id then false
    else match t.kind id with
      | .memberExpression =>
        ((t.child? id "property").map fun p => t.kind p == .propertyIdentifier).getD false
      | .subscriptExpression => (t.child? id "index").isSome
      | _ => false

def isDirective (t : SyntaxTree) (id : NodeId) : Bool :=
  match t.significantChildren id with
  | [only] => t.kind only == .stringLiteral
  | _ => false

end SyntaxTree

namespace Kind

def isTerminable : Kind → Bool
  | expressionStatement | variableDeclaration | lexicalDeclaration | returnStatement => true
  | other "throw_statement" | other "break_statement" | other "continue_statement"
  | other "debugger_statement" => true
  | _ => false

def isConstant : Kind → Bool
  | stringLiteral => true
  | other "number" | other "true" | other "false" | other "null" | other "undefined"
  | other "this" => true
  | _ => false

end Kind

def SyntaxTree.isInert (t : SyntaxTree) (id : NodeId) : Bool :=
  let kind := t.kind (t.unwrap id)
  kind == .identifier || kind.isConstant

end CoercionTrace
