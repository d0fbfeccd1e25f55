import CoercionTrace.Syntax.Tree

/-!
# Walks

The orders in which a syntax tree is visited. No path in a tree is longer than the tree has nodes,
which bounds every walk.
-/

namespace CoercionTrace

namespace SyntaxTree

def ancestorsWithin (t : SyntaxTree) : Nat → NodeId → List NodeId
  | 0, _ => []
  | steps + 1, id =>
    match t.parent id with
    | none => []
    | some p => p :: ancestorsWithin t steps p

def ancestors (t : SyntaxTree) (id : NodeId) : List NodeId := t.ancestorsWithin t.size id

def preOrderWithin (t : SyntaxTree) : Nat → NodeId → List NodeId
  | 0, _ => []
  | depth + 1, id => id :: (t.children id).flatMap (preOrderWithin t depth)

def preOrder (t : SyntaxTree) : List NodeId := t.preOrderWithin t.size root

def postOrderWithin (t : SyntaxTree) (skip : NodeId → Bool) : Nat → NodeId → List NodeId
  | 0, _ => []
  | depth + 1, id =>
    if skip id then [] else (t.children id).flatMap (postOrderWithin t skip depth) ++ [id]

def postOrder (t : SyntaxTree) (skip : NodeId → Bool) : List NodeId :=
  t.postOrderWithin skip t.size root

end SyntaxTree

end CoercionTrace
