import CoercionTrace.Diagnostic

/-!
# Concrete trees

The tree that the grammar makes of a text, with every token in it. A tree comes as its nodes in
pre-order, each with its depth; `Concrete.ofRows?` puts them together. `firstFault?` looks for the
first node that marks a syntax error.
-/

namespace CoercionTrace

/-- What the grammar says about one node. Offsets count bytes. -/
structure Token where
  kind : String
  start : Nat
  stop : Nat
  named : Bool
  isError : Bool
  isMissing : Bool
  /-- Whether this node or one below it is an error or missing. -/
  hasError : Bool
  field : Option String
  deriving DecidableEq, Inhabited

inductive Concrete
  | node (token : Token) (children : List Concrete)

namespace Concrete

def token : Concrete → Token
  | .node t _ => t

def children : Concrete → List Concrete
  | .node _ cs => cs

/-- Put a node in front of the trees that follow it: those deeper than it are its children. -/
def graft (depth : Nat) (t : Token) (trees : List (Nat × Concrete)) : List (Nat × Concrete) :=
  let deeper := trees.takeWhile fun p => depth < p.1
  (depth, .node t (deeper.map Prod.snd)) :: trees.drop deeper.length

def ofRows? (rows : List (Nat × Token)) : Option Concrete :=
  (rows.foldr (fun r trees => graft r.1 r.2 trees) []).head?.map Prod.snd

mutual

def tokens : Concrete → List Token
  | .node t cs => t :: tokensAll cs

def tokensAll : List Concrete → List Token
  | [] => []
  | c :: rest => tokens c ++ tokensAll rest

end

mutual

/-- The first error or missing node in pre-order, passing over subtrees without errors. -/
def firstFault? : Concrete → Option Token
  | .node t cs =>
    if t.isError || t.isMissing then some t
    else if t.hasError then firstFaultAmong? cs
    else none

def firstFaultAmong? : List Concrete → Option Token
  | [] => none
  | c :: rest =>
    match firstFault? c with
    | some t => some t
    | none => firstFaultAmong? rest

end

end Concrete

/-- The zero-based row and byte column of a byte offset; the walk has come to offset `at_`. -/
def positionFrom (target : Nat) : List Char → (at_ row column : Nat) → Nat × Nat
  | [], _, row, column => (row, column)
  | c :: rest, at_, row, column =>
    if target ≤ at_ then (row, column)
    else if c = '\n' then positionFrom target rest (at_ + c.utf8Size) (row + 1) 0
    else positionFrom target rest (at_ + c.utf8Size) row (column + c.utf8Size)

def position (source : List Char) (offset : Nat) : Nat × Nat := positionFrom offset source 0 0 0

def Concrete.error (file : String) (source : List Char) (tree : Concrete) : InstrumentError :=
  match tree.firstFault? with
  | none => .parse file 1 1 .unlocated
  | some t =>
    let (row, column) := position source t.start
    .parse file (row + 1) (column + 1) (if t.isMissing then .missing t.kind else .unexpected)

end CoercionTrace
