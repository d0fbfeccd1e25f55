import CoercionTrace.Proofs.Instrument.Distinct
import Mathlib.Algebra.GroupWithZero.Nat

/-!
# Where values come from

`Code.flow` evaluates generated code as far as the results of checked calls are concerned. The calls
that a run makes are counted, and the result of a call is known by the number of calls that were made
when it returned. A hook that is given a value with the return key reads what the last call left there.
-/

namespace CoercionTrace

open Instrumentation

/-- The checked calls that the parts of a program make in a run: the text of a node, the reading of the
variable or property that it stands for, and a store to that, which accessors may answer; the operator
of a construct, which converts its operands; and what a hook in the code for a construct runs. The
value of a text may be what the last of its calls returned. -/
structure Effects where
  text : NodeId → Nat
  result : NodeId → Bool
  read : NodeId → Nat
  write : NodeId → Nat
  operator : NodeId → Nat
  host : NodeId → Nat

structure Running (t : SyntaxTree) extends Effects where
  checked : ∀ {n}, t.isCheckedCall n = true → 0 < text n ∧ result n = true
  unwrap : ∀ n, text (t.unwrap n) = text n
  constant : ∀ {n}, (t.kind n).isConstant = true → text n = 0

def Effects.calls (E : Effects) (t : SyntaxTree) (o : NodeId) : Nat :=
  let target := t.unwrap o
  if t.kind target = .identifier then E.read target
  else ((t.pieces o).map E.text).sum + if t.isPlainMember target then E.read target else 0

def Effects.stores (E : Effects) : Code → Nat
  | .identifier n _ | .access n _ _ => E.write n
  | _ => 0

/-- A value that a hook is given with the return key, by the call that returned it if it is the result
of one, and the number of calls that were made so far. -/
structure ReturnReading where
  value : Option Nat
  made : Nat

def ReturnReading.IsOwn (r : ReturnReading) : Prop := r.value = some r.made

structure Flow where
  made : Nat
  held : String → Option Nat
  readings : List ReturnReading

def isReturnKey : Code → Code → Bool
  | .null, .quoted name => name == returnSlotName
  | _, _ => false

def Origin.isReturn (o : Origin) : Bool := isReturnKey o.scope o.slot

/-- What a method is given with the key of its source, by the positions of the value and of the key. -/
def HookMethod.sources : HookMethod → List (Nat × Nat)
  | .assign => [(0, 3)]
  | .arithmeticCheck => [(1, 5), (2, 7)]
  | _ => []

namespace Flow

def ran (f : Flow) (count : Nat) : Flow := { f with made := f.made + count }

def keep (f : Flow) (target : Code) (value : Option Nat) : Flow :=
  match target with
  | .variable _ x => { f with held := fun y => if y = x then value else f.held y }
  | _ => f

def note (f : Flow) (isReturn : Bool) (value : Option Nat) : Flow :=
  if isReturn then { f with readings := f.readings ++ [⟨value, f.made⟩] } else f

def read (arguments : List Code) (values : List (Option Nat)) (f : Flow) (source : Nat × Nat) : Flow :=
  f.note (isReturnKey (arguments.getD source.2 .void) (arguments.getD (source.2 + 1) .void))
    (values.getD source.1 none)

/-- A hook reads its sources, and then runs what it runs: for a checked call that is the function called,
and the call is the last one made. Assignments and checks of operators hand on their first argument. -/
def hook (E : Effects) (own : NodeId) (method : HookMethod) (arguments : List Code)
    (values : List (Option Nat)) (f : Flow) : Option Nat × Flow :=
  let f := method.sources.foldl (read arguments values) f
  match method with
  | .callCheck =>
    let f := f.ran (E.host own + 1)
    (some f.made, f)
  | .assign => (values.getD 0 none, f)
  | .arithmeticCheck => (values.getD 0 none, f.ran (E.host own))
  | _ => (none, f.ran (E.host own))

variable {E : Effects} {own : NodeId} {method : HookMethod} {arguments : List Code}
  {values : List (Option Nat)}

@[simp] theorem ran_made (f : Flow) (count : Nat) : (f.ran count).made = f.made + count := rfl

@[simp] theorem ran_held (f : Flow) (count : Nat) : (f.ran count).held = f.held := rfl

@[simp] theorem ran_readings (f : Flow) (count : Nat) : (f.ran count).readings = f.readings := rfl

@[simp] theorem ran_zero (f : Flow) : f.ran 0 = f := rfl

@[simp] theorem note_held (f : Flow) (b : Bool) (value : Option Nat) :
    (f.note b value).held = f.held := by
  cases b <;> rfl

@[simp] theorem note_made (f : Flow) (b : Bool) (value : Option Nat) :
    (f.note b value).made = f.made := by
  cases b <;> rfl

@[simp] theorem keep_made (f : Flow) (target : Code) (value : Option Nat) :
    (f.keep target value).made = f.made := by
  cases target <;> rfl

@[simp] theorem keep_readings (f : Flow) (target : Code) (value : Option Nat) :
    (f.keep target value).readings = f.readings := by
  cases target <;> rfl

theorem keep_held_self (f : Flow) (use : NameUse) (x : String) (value : Option Nat) :
    (f.keep (.variable use x) value).held x = value := by
  simp [keep]

theorem hook_held (f : Flow) : (f.hook E own method arguments values).2.held = f.held := by
  cases method <;> simp [hook, HookMethod.sources, read]

theorem keep_held {x : String} {target : Code} (f : Flow) (value : Option Nat)
    (h : x ∉ target.destination) : (f.keep target value).held x = f.held x := by
  cases target <;> simp_all [keep]

end Flow

namespace Code

section

variable (E : Effects) (own : NodeId)

mutual

/-- The call whose result an expression has for its value, if there is one, and the flow behind the
expression, which is the code for node `own`. -/
def flow : Code → Flow → Option Nat × Flow
  | .splice n _, f =>
    let f := f.ran (E.text n)
    (if E.result n then some f.made else none, f)
  | .name _, f => (none, f)
  | .identifier n _, f => (none, f.ran (E.read n))
  | .variable _ x, f => (f.held x, f)
  | .quoted _, f => (none, f)
  | .null, f => (none, f)
  | .void, f => (none, f)
  | .index _, f => (none, f)
  | .access n _ _, f => (none, f.ran (E.read n))
  | .store target value, f =>
    ((flow value f).1, ((flow value f).2.ran (E.stores target)).keep target (flow value f).1)
  | .operation _ left right, f => (none, (flow right (flow left f).2).2.ran (E.operator own))
  | .hook _ method arguments, f =>
    (flowAll arguments f).2.hook E own method arguments (flowAll arguments f).1
  | .list elements, f => (none, (flowAll elements f).2)
  | .sequence parts, f => ((flowAll parts f).1.getLastD none, (flowAll parts f).2)

def flowAll : List Code → Flow → List (Option Nat) × Flow
  | [], f => ([], f)
  | c :: rest, f =>
    ((flow c f).1 :: (flowAll rest (flow c f).2).1, (flowAll rest (flow c f).2).2)

end

variable {E own}

theorem flowAll_append (a b : List Code) (f : Flow) :
    flowAll E own (a ++ b) f = ((flowAll E own a f).1 ++ (flowAll E own b (flowAll E own a f).2).1,
      (flowAll E own b (flowAll E own a f).2).2) := by
  induction a generalizing f with
  | nil => rfl
  | cons c rest ih => simp [flowAll, ih]

theorem flowAll_concat (preamble : List Code) (c : Code) (f : Flow) :
    (flowAll E own (preamble ++ [c]) f).2 = (c.flow E own (flowAll E own preamble f).2).2 := by
  rw [flowAll_append]
  rfl

theorem flow_after (preamble : List Code) (c : Code) (f : Flow) :
    flow E own (c.after preamble) f = flow E own c (flowAll E own preamble f).2 := by
  cases preamble with
  | nil => rfl
  | cons a rest =>
    show flow E own (.sequence (a :: rest ++ [c])) f = _
    rw [flow, flowAll_append]
    obtain ⟨values, g⟩ := flowAll E own (a :: rest) f
    simp [flowAll]

variable (E own)

mutual

theorem flow_held {x : String} : ∀ (c : Code) (f : Flow), x ∉ c.stored →
    (flow E own c f).2.held x = f.held x
  | .splice _ _, _, _ | .name _, _, _ | .identifier _ _, _, _ | .variable _ _, _, _
  | .quoted _, _, _ | .null, _, _ | .void, _, _ | .index _, _, _ | .access _ _ _, _, _ => rfl
  | .store target value, f, h => by
    simp only [stored, List.mem_append, not_or] at h
    rw [flow, Flow.keep_held _ _ h.2, Flow.ran_held, flow_held value f h.1]
  | .operation _ left right, f, h => by
    simp only [stored, List.mem_append, not_or] at h
    rw [flow, Flow.ran_held, flow_held right _ h.2, flow_held left f h.1]
  | .hook _ _ arguments, f, h => by
    rw [flow, Flow.hook_held, flowAll_held arguments f h]
  | .list elements, f, h => flowAll_held elements f h
  | .sequence parts, f, h => flowAll_held parts f h

theorem flowAll_held {x : String} : ∀ (cs : List Code) (f : Flow), x ∉ storedAll cs →
    (flowAll E own cs f).2.held x = f.held x
  | [], _, _ => rfl
  | c :: rest, f, h => by
    simp only [storedAll, List.mem_append, not_or] at h
    rw [flowAll, flowAll_held rest _ h.2, flow_held c f h.1]

end

end

end Code

variable {E : Effects} {own : NodeId} {f : Flow}

@[simp] theorem Origin.flow_scope (o : Origin) : (o.scope.flow E own f).2 = f := by
  cases o <;> rfl

@[simp] theorem Origin.flow_slot (o : Origin) : (o.slot.flow E own f).2 = f := by
  cases o <;> rfl

@[simp] theorem flow_location (s : Instrumentation) (id : NodeId) :
    ((s.location id).flow E own f).2 = f := rfl

theorem flow_traced (s : Instrumentation) (id : NodeId) (value : Code) (target source : Origin) :
    (s.traced id value target source).flow E own f = ((value.flow E own f).1,
      (value.flow E own f).2.note source.isReturn (value.flow E own f).1) := by
  simp [traced, hookCall, Code.flow, Code.flowAll, Flow.hook, HookMethod.sources, Flow.read,
    Origin.isReturn]

theorem flow_passed (s : Instrumentation) (i : Nat) (argument : NodeId) (stub : Stub) :
    (s.passed i argument stub).flow E own f = ((stub.value.flow E own f).1,
      (stub.value.flow E own f).2.note stub.origin.isReturn (stub.value.flow E own f).1) := by
  simp [passed, hookCall, Code.flow, Code.flowAll, Flow.hook, HookMethod.sources, Flow.read,
    Origin.isReturn]

theorem flow_arithmeticCheck (s : Instrumentation) (id : NodeId) (operator left right : String)
    (leftOrigin rightOrigin : Origin) :
    (s.arithmeticCheck id operator left right leftOrigin rightOrigin).flow E own f =
      (none, (((f.ran (E.operator own)).note leftOrigin.isReturn (f.held left)).note
        rightOrigin.isReturn (f.held right)).ran (E.host own)) := by
  simp [arithmeticCheck, hookCall, Code.flow, Code.flowAll, Flow.hook, HookMethod.sources, Flow.read,
    Origin.isReturn]

end CoercionTrace
