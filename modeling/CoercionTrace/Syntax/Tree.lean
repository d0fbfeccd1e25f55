import CoercionTrace.Syntax.Concrete
import CoercionTrace.Syntax.Replacement

/-!
# Syntax trees

A tree keeps the named nodes of a program, numbered in pre-order, with links to parent and
children, and the replacement of each node that has one. `SyntaxTree.ofConcrete` numbers the nodes;
`update` gives a node its replacement, once.
-/

namespace CoercionTrace

structure Node where
  kind : Kind
  start : Nat
  stop : Nat
  startRow : Nat
  endRow : Nat
  parent : Option NodeId
  children : List NodeId
  /-- The grammar field under which the node hangs off its parent. -/
  field : Option String
  /-- The operator of a binary expression or compound assignment. -/
  operator : Option String
  keyword : Option String
  isAsync : Bool
  replacement : Option Replacement := none
  deriving Inhabited

def Node.line (n : Node) : Nat := n.startRow + 1

def Node.isReplaced (n : Node) : Bool := n.replacement.isSome

structure SyntaxTree where
  source : List Char
  nodes : Array Node

/-- The characters that begin at byte offsets from `start` up to `stop`; the walk has come to
offset `at_`. -/
def sliceFrom (start stop : Nat) : Nat → List Char → List Char
  | _, [] => []
  | at_, c :: rest =>
    if at_ < start then sliceFrom start stop (at_ + c.utf8Size) rest
    else if at_ < stop then c :: sliceFrom start stop (at_ + c.utf8Size) rest
    else []

/-- The text between two byte offsets. Both have to be boundaries: those of nodes are, and whoever
takes another offset checks it. -/
def slice (source : List Char) (start stop : Nat) : String :=
  String.ofList (sliceFrom start stop 0 source)

/-- Whether a byte offset lies between two characters, or at an end of the text. -/
def isBoundary : List Char → Nat → Bool
  | _, 0 => true
  | [], _ + 1 => false
  | c :: rest, offset + 1 => c.utf8Size ≤ offset + 1 && isBoundary rest (offset + 1 - c.utf8Size)

namespace Concrete

def childText (source : List Char) (field : String) (children : List Concrete) : Option String :=
  (children.find? fun c => c.token.field == some field).map fun c =>
    slice source c.token.start c.token.stop

def childKind (field : String) (children : List Concrete) : Option String :=
  (children.find? fun c => c.token.field == some field).map fun c => c.token.kind

def operatorOf (source : List Char) (kind : Kind) (children : List Concrete) : Option String :=
  match kind with
  | .binaryExpression | .augmentedAssignmentExpression => childText source "operator" children
  | _ => none

def keywordOf (kind : Kind) (children : List Concrete) : Option String :=
  match kind with
  | .variableDeclaration => some "var"
  | .lexicalDeclaration | .forInStatement => childKind "kind" children
  | _ => none

def toNode (source : List Char) (parent : Option NodeId) (token : Token)
    (children : List Concrete) (ids : List NodeId) : Node :=
  let kind := Kind.ofGrammar token.kind
  { kind, start := token.start, stop := token.stop,
    startRow := (position source token.start).1, endRow := (position source token.stop).1,
    parent, children := ids, field := token.field,
    operator := operatorOf source kind children, keyword := keywordOf kind children,
    isAsync := children.any fun c => !c.token.named && c.token.kind == "async" }

mutual

def toNodes (source : List Char) (parent : Option NodeId) (id : NodeId) : Concrete → List Node
  | .node token children =>
    let (ids, below) := childNodes source id (id + 1) children
    toNode source parent token children ids :: below

/-- The numbers of the named nodes among siblings, and all nodes below `parent`. -/
def childNodes (source : List Char) (parent next : NodeId) :
    List Concrete → List NodeId × List Node
  | [] => ([], [])
  | c :: rest =>
    if c.token.named then
      let first := toNodes source (some parent) next c
      let (ids, others) := childNodes source parent (next + first.length) rest
      (next :: ids, first ++ others)
    else childNodes source parent next rest

end

end Concrete

namespace SyntaxTree

def ofConcrete (source : List Char) (tree : Concrete) : SyntaxTree :=
  { source, nodes := (tree.toNodes source none 0).toArray }

def parse (file : String) (source : List Char) (tree : Concrete) :
    Except InstrumentError SyntaxTree :=
  if tree.token.hasError then .error (tree.error file source) else .ok (ofConcrete source tree)

def root : NodeId := 0

def size (t : SyntaxTree) : Nat := t.nodes.size

def node (t : SyntaxTree) (id : NodeId) : Node := t.nodes.getD id default

def kind (t : SyntaxTree) (id : NodeId) : Kind := (t.node id).kind

def parent (t : SyntaxTree) (id : NodeId) : Option NodeId := (t.node id).parent

def children (t : SyntaxTree) (id : NodeId) : List NodeId := (t.node id).children

def line (t : SyntaxTree) (id : NodeId) : Nat := (t.node id).line

def significantChildren (t : SyntaxTree) (id : NodeId) : List NodeId :=
  (t.children id).filter fun c => t.kind c ≠ .comment

def child? (t : SyntaxTree) (id : NodeId) (field : String) : Option NodeId :=
  (t.children id).find? fun c => (t.node c).field == some field

def rawSource (t : SyntaxTree) (id : NodeId) : String :=
  slice t.source (t.node id).start (t.node id).stop

def touchesRows (t : SyntaxTree) (id : NodeId) (p : Nat → Bool) : Bool :=
  (List.range' (t.node id).startRow ((t.node id).endRow + 1 - (t.node id).startRow)).any p

def update (t : SyntaxTree) (id : NodeId) (r : Replacement) : Except InstrumentError SyntaxTree :=
  if (t.node id).isReplaced then .error (.contract (.updatedTwice id (t.kind id)))
  else .ok { t with nodes := t.nodes.modify id fun n => { n with replacement := some r } }

end SyntaxTree

end CoercionTrace
