import CoercionTrace.Instrument.Options
import CoercionTrace.Instrument.Pass

/-!
# Instrumented programs

`instrument` turns a program into one that reports to a monitor: the rules are applied to its tree,
and linkage and program-level temporaries are declared behind its hashbang and directives.
-/

namespace CoercionTrace

structure Instrumented where
  code : String
  diagnostics : List Diagnostic

def lineBreakSize : List Char → Nat
  | '\r' :: '\n' :: _ => 2
  | '\n' :: _ => 1
  | _ => 0

namespace SyntaxTree

/-- Behind the hashbang line and the directives among the given statements; and whether the last of
them was a directive. -/
def headEnd (t : SyntaxTree) (cut : Nat) (afterDirective : Bool) : List NodeId → Nat × Bool
  | [] => (cut, afterDirective)
  | statement :: rest =>
    let stop := (t.node statement).stop
    match t.kind statement with
    | .hashBangLine =>
      headEnd t (stop + lineBreakSize (sliceFrom stop (stop + 2) 0 t.source)) false rest
    | .expressionStatement =>
      if t.isDirective statement then headEnd t stop true rest else (cut, afterDirective)
    | _ => (cut, afterDirective)

def insertionPoint (t : SyntaxTree) : Nat × Bool :=
  let (cut, afterDirective) := t.headEnd (t.node root).start false (t.significantChildren root)
  (min cut (t.node root).stop, afterDirective)

end SyntaxTree

def needsGap (before after : String) : Bool :=
  before.toList.getLast? != some '\n' && !(after.toList.head?.map Text.isBlank).getD false

namespace InstrumentM

def finish (linkage : String) : InstrumentM Unit := do
  let root := SyntaxTree.root
  let t := (← get).tree
  let (cut, afterDirective) := t.insertionPoint
  let before := t.textBetween root (t.node root).start cut
  let temporaries ← takeTemporaries none
  let header : ProgramHeader :=
    { afterDirective, unterminated := !endsWithSemicolon before, linkage, temporaries }
  if header.parts.isEmpty then return
  let rest := t.textBetween root cut (t.node root).stop
  let head := (Replacement.program before header false "").print
  replace root (.program before header (needsGap head rest) rest)

end InstrumentM

def instrument (file : String) (source : List Char) (tree : Concrete)
    (options : InstrumentOptions) : Except Halt Instrumented := do
  options.validate.mapError .error
  let (suppression, diagnostics) ← (Suppression.scan file source).mapError .error
  let tree ← (SyntaxTree.parse file source tree).mapError .error
  let scopes ← (ScopeTable.analyze tree).mapError .error
  let start := Instrumentation.start tree scopes suppression options.hookName file
  let run : InstrumentM Unit := do
    InstrumentM.pass Rule.all
    InstrumentM.finish options.linkageText
  let (outcome, final) := run.run start
  outcome
  return { code := final.tree.render, diagnostics := diagnostics ++ final.diagnostics }

end CoercionTrace
