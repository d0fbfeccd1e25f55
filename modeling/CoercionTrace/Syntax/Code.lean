import CoercionTrace.HookMethod
import CoercionTrace.Names
import CoercionTrace.Text.Quoted

/-!
# Generated expressions

The expressions that instrumentation puts in place of program text. A `splice` is the text of a
syntax node as it stood when the expression was made; everything else is generated. A `variable` is
one of the names that instrumentation made, an `identifier` one of the program's, by the node that
stands for it, and a `name` one that the options gave.
`print` is the text of an expression and `spliced` lists the nodes whose text it takes over, from
left to right.
-/

namespace CoercionTrace

abbrev NodeId := Nat

inductive Code
  | splice (node : NodeId) (text : String)
  | name (name : String)
  | identifier (node : NodeId) (name : String)
  | variable (use : NameUse) (name : String)
  | quoted (text : String)
  | null
  | void
  | index (i : Nat)
  /-- The member access of a node, object and key being in temporaries. -/
  | access (node : NodeId) (base key : String)
  | store (target value : Code)
  | operation (operator : String) (left right : Code)
  | hook (object : String) (method : HookMethod) (arguments : List Code)
  | list (elements : List Code)
  | sequence (parts : List Code)
  deriving Inhabited

namespace Code

mutual

def print : Code → String
  | .splice _ text => text
  | .name n => n
  | .identifier _ n => n
  | .variable _ n => n
  | .quoted text => Text.Quoted.script text
  | .null => "null"
  | .void => "void 0"
  | .index i => toString i
  | .access _ base key => base ++ "[" ++ key ++ "]"
  | .store target value => print target ++ " = " ++ print value
  | .operation operator left right => print left ++ " " ++ operator ++ " " ++ print right
  | .hook object method arguments =>
    object ++ "." ++ method.name ++ "(" ++ ", ".intercalate (printAll arguments) ++ ")"
  | .list elements => "[" ++ ", ".intercalate (printAll elements) ++ "]"
  | .sequence parts => "(" ++ ", ".intercalate (printAll parts) ++ ")"

def printAll : List Code → List String
  | [] => []
  | c :: rest => print c :: printAll rest

end

mutual

def spliced : Code → List NodeId
  | .splice node _ => [node]
  | .name _ => []
  | .identifier _ _ => []
  | .variable _ _ => []
  | .quoted _ => []
  | .null => []
  | .void => []
  | .index _ => []
  | .access _ _ _ => []
  | .store target value => spliced target ++ spliced value
  | .operation _ left right => spliced left ++ spliced right
  | .hook _ _ arguments => splicedAll arguments
  | .list elements => splicedAll elements
  | .sequence parts => splicedAll parts

def splicedAll : List Code → List NodeId
  | [] => []
  | c :: rest => spliced c ++ splicedAll rest

end

def after (preamble : List Code) (c : Code) : Code :=
  if preamble.isEmpty then c else .sequence (preamble ++ [c])

theorem splicedAll_eq_flatMap (cs : List Code) : splicedAll cs = cs.flatMap spliced := by
  induction cs with
  | nil => rfl
  | cons c rest ih => simp [splicedAll, ih]

end Code

end CoercionTrace
