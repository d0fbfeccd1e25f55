import CoercionTrace.Instrument.Rule.Expression

/-!
# Calls

A call goes through the monitor, with each argument traced into its slot. The slots belong to the
calling frame, so nothing may run between the first slot and the call: arguments up to the last one
that runs code are read into temporaries first.
-/

namespace CoercionTrace

structure Callee where
  preamble : List Code := []
  function : Code
  receiver : Code

namespace Instrumentation

def refusal? (s : Instrumentation) (id arguments : NodeId) : Option CallRefusal :=
  if s.tree.hasOptionalLink id then some .optionalCall
  else if s.tree.kind arguments ≠ .arguments then some .taggedTemplate
  else if (s.tree.significantChildren arguments).any fun a => s.tree.kind a == .spreadElement then
    some .spreadArguments
  else none

def heldUntil? (s : Instrumentation) (arguments : List NodeId) : Option Nat :=
  (List.range arguments.length).reverse.find? fun i =>
    match arguments[i]? with
    | some a => !s.tree.isInert a
    | none => false

end Instrumentation

namespace InstrumentM

def refuse (id callee : NodeId) (why : CallRefusal) : InstrumentM (Option Change) := do
  diagnose id (.uninstrumentedCall why ((← get).tree.rawSource callee))
  return none

/-- What a call calls, or none if the callee cannot be taken apart. A direct call of `eval` has no
callee either, but is nothing to complain about. -/
def calleeOf (callee : NodeId) : InstrumentM (Option Callee) := do
  let s ← get
  let target := s.tree.unwrap callee
  let whole : Callee := { function := .splice callee (s.tree.text callee), receiver := .void }
  match s.tree.kind target with
  | .identifier | .functionExpression => return some whole
  | .memberExpression | .subscriptExpression =>
    if s.tree.isPlainMember target then
      let member ← operandStub target
      return some
        { preamble := member.preamble, function := member.value, receiver := member.origin.scope }
    else return none
  | _ => return none

def isDirectEval (t : SyntaxTree) (callee : NodeId) : Bool :=
  let target := t.unwrap callee
  t.kind target == .identifier && t.rawSource target == "eval"

/-- The arguments from position `i` on: what fills the temporaries, and the traced values. -/
def traceArguments (heldUntil : Option Nat) (i : Nat) :
    List NodeId → InstrumentM (List Code × List Code)
  | [] => return ([], [])
  | argument :: rest => do
    let stub ← operandStub argument
    let s ← get
    let isHeld := (heldUntil.map fun last => decide (i ≤ last)).getD false &&
      !(s.tree.kind (s.tree.unwrap argument)).isConstant
    let (reads, stub) ← if isHeld then do
        let name ← temporary argument
        let stub := (← get).held argument stub name
        pure (stub.preamble, { stub with preamble := [] })
      else pure ([], stub)
    let s ← get
    let traced := s.hookCall .assign
      [stub.value, .null, .index i, stub.origin.scope, stub.origin.slot, s.location argument]
    let (moreReads, moreTraced) ← traceArguments heldUntil (i + 1) rest
    return (reads ++ moreReads, stub.sequence traced :: moreTraced)

def callChange (id : NodeId) : InstrumentM (Option Change) := do
  let s ← get
  match s.tree.child? id "function", s.tree.child? id "arguments" with
  | some callee, some arguments =>
    match s.refusal? id arguments with
    | some why => refuse id callee why
    | none =>
      if isDirectEval s.tree callee then return none
      let some called ← calleeOf callee | refuse id callee .callee
      let passed := s.tree.significantChildren arguments
      let (reads, traced) ← traceArguments (s.heldUntil? passed) 0 passed
      let s ← get
      let call := s.hookCall .callCheck
        [called.function, called.receiver, Code.after reads (.list traced),
          .quoted (s.tree.rawSource callee), s.location id]
      return some ⟨id, .expression (call.after called.preamble)⟩
  | _, _ => return none

end InstrumentM

end CoercionTrace
