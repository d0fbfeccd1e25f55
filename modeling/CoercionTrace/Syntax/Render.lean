import CoercionTrace.Syntax.Tree

/-!
# Rendering

The current text of a tree: a replaced node reads as its replacement, any other as its own slice of
the program with the texts of its children spliced in.
-/

namespace CoercionTrace

namespace SyntaxTree

/-- The program from `cursor` to `stop` with the texts of the given nodes spliced in. -/
def splice (t : SyntaxTree) (text : NodeId → String) (cursor stop : Nat) : List NodeId → String
  | [] => slice t.source cursor stop
  | c :: rest =>
    slice t.source cursor (t.node c).start ++ text c ++ splice t text (t.node c).stop stop rest

def textWithin (t : SyntaxTree) : Nat → NodeId → String
  | 0, _ => ""
  | depth + 1, id =>
    match (t.node id).replacement with
    | some r => r.print
    | none => t.splice (textWithin t depth) (t.node id).start (t.node id).stop (t.children id)

def text (t : SyntaxTree) (id : NodeId) : String := t.textWithin t.size id

/-- The current text of a node between two byte offsets that cut none of its children. -/
def textBetween (t : SyntaxTree) (id : NodeId) (start stop : Nat) : String :=
  let inside := (t.children id).filter fun c => start ≤ (t.node c).start && (t.node c).stop ≤ stop
  t.splice t.text start stop inside

def byteLength : List Char → Nat
  | [] => 0
  | c :: rest => c.utf8Size + byteLength rest

def render (t : SyntaxTree) : String :=
  slice t.source 0 (t.node root).start ++ t.text root ++
    slice t.source (t.node root).stop (byteLength t.source)

end SyntaxTree

end CoercionTrace
