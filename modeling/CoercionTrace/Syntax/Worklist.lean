import CoercionTrace.Syntax.Traversal

/-!
# Walks by a stack

The walks as loops that pop a stack until it is empty, and the arena as it is filled by such a loop. A
search ends with what it finds. A stack is listed from its top.
-/

namespace CoercionTrace

/-- Pop the stack until it is empty, at most `pops` times. What a visit pushes, in this order, comes
on top of the rest. -/
def drain {α σ : Type} (visit : α → σ → List α × σ) : Nat → List α → σ → Option σ
  | _, [], result => some result
  | 0, _ :: _, _ => none
  | pops + 1, top :: rest, result =>
    let (pushed, result) := visit top result
    drain visit pops (pushed.reverse ++ rest) result

/-- Pop the stack until a visit finds something or the stack is empty, at most `pops` times. -/
def seek {α β : Type} (visit : α → List α ⊕ β) : Nat → List α → Option (Option β)
  | _, [] => some none
  | 0, _ :: _ => none
  | pops + 1, top :: rest =>
    match visit top with
    | .inl pushed => seek visit pops (pushed.reverse ++ rest)
    | .inr found => some (some found)

namespace SyntaxTree

def preOrderVisit (t : SyntaxTree) (id : NodeId) (order : List NodeId) :
    List NodeId × List NodeId :=
  ((t.children id).reverse, order ++ [id])

def preOrderLoop (t : SyntaxTree) (pops : Nat) : Option (List NodeId) :=
  drain t.preOrderVisit pops [root] []

def postOrderVisit (t : SyntaxTree) (skip : NodeId → Bool) :
    NodeId × Bool → List NodeId → List (NodeId × Bool) × List NodeId
  | (id, true), order => ([], order ++ [id])
  | (id, false), order =>
    let below := (t.children id).reverse.filter fun c => !skip c
    ((id, true) :: below.map (·, false), order)

def postOrderLoop (t : SyntaxTree) (skip : NodeId → Bool) (pops : Nat) : Option (List NodeId) :=
  if skip root then some [] else drain (t.postOrderVisit skip) pops [(root, false)] []

end SyntaxTree

namespace Concrete

def hang (id : NodeId) (parent : Option NodeId) (nodes : List Node) : List Node :=
  match parent with
  | none => nodes
  | some p => nodes.modify p fun n => { n with children := n.children ++ [id] }

/-- A node gets its number, without children; they are hung up by their own visits. -/
def arenaVisit (source : List Char) :
    Concrete × Option NodeId → List Node → List (Concrete × Option NodeId) × List Node
  | (.node token children, parent), nodes =>
    let id := nodes.length
    let named := children.filter fun c => c.token.named
    (named.reverse.map (·, some id),
      hang id parent (nodes ++ [toNode source parent token children []]))

def arenaLoop (source : List Char) (tree : Concrete) (pops : Nat) : Option (List Node) :=
  drain (arenaVisit source) pops [(tree, none)] []

end Concrete

end CoercionTrace
