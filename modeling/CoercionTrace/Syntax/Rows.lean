import CoercionTrace.Document.Basic
import CoercionTrace.Syntax.Concrete

/-!
# Concrete trees as documents

A concrete tree is kept as a list of its nodes in pre-order, each a list of depth, kind, first byte,
end byte, flags and field. The flags are letters: `n` for a named node, `e` for an error, `m` for a
missing node, `h` for a node with either of them at or below it.
-/

namespace CoercionTrace

namespace Token

def ofDocument? : Document → Option (Nat × Token)
  | .array [.number depth, .string (some kind), .number start, .number stop, .string (some flags),
      field] => do
    let depth ← depth.toNat?
    let start ← start.toNat?
    let stop ← stop.toNat?
    let has (flag : Char) := flags.toList.contains flag
    let field := match field with
      | .string name => name
      | _ => none
    some (depth, { kind, start, stop, named := has 'n', isError := has 'e', isMissing := has 'm',
                   hasError := has 'h', field })
  | _ => none

end Token

namespace Concrete

def ofDocument? : Document → Option Concrete
  | .array rows => (rows.mapM Token.ofDocument?).bind ofRows?
  | _ => none

def unparsed : Concrete :=
  .node { kind := "program", start := 0, stop := 0, named := true, isError := false,
          isMissing := false, hasError := true, field := none } []

end Concrete

end CoercionTrace
