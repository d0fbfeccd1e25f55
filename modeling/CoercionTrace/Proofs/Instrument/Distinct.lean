import CoercionTrace.Proofs.Instrument.Ledger
import CoercionTrace.Proofs.Instrument.Taken

/-!
# Temporaries are stored once

Main statement: the code that a rule proposes stores every temporary that was drawn for it, and each
of them once (`change_stores`).
-/

namespace CoercionTrace

open Instrumentation

namespace Code

def destination : Code → List String
  | .variable _ x => [x]
  | _ => []

@[simp] theorem destination_variable (use : NameUse) (x : String) :
    (Code.variable use x).destination = [x] := rfl

mutual

def stored : Code → List String
  | .splice _ _ => []
  | .name _ => []
  | .identifier _ _ => []
  | .variable _ _ => []
  | .quoted _ => []
  | .null => []
  | .void => []
  | .index _ => []
  | .access _ _ _ => []
  | .store target value => stored value ++ target.destination
  | .operation _ left right => stored left ++ stored right
  | .hook _ _ arguments => storedAll arguments
  | .list elements => storedAll elements
  | .sequence parts => storedAll parts

def storedAll : List Code → List String
  | [] => []
  | c :: rest => stored c ++ storedAll rest

end

theorem storedAll_append (a b : List Code) : storedAll (a ++ b) = storedAll a ++ storedAll b := by
  induction a with
  | nil => rfl
  | cons c rest ih => simp [storedAll, ih]

theorem stored_after (preamble : List Code) (c : Code) :
    (c.after preamble).stored = storedAll preamble ++ c.stored := by
  cases preamble with
  | nil => rfl
  | cons a rest => simp [after, stored, storedAll, storedAll_append]

end Code

def Replacement.codes : Replacement → List Code
  | .expression code => [code]
  | .returned value => [value]
  | .framedBody _ header _ leave => [header.enter, leave]
  | _ => []

@[simp] theorem Origin.stored_scope (o : Origin) : o.scope.stored = [] := by
  cases o <;> rfl

@[simp] theorem Origin.stored_slot (o : Origin) : o.slot.stored = [] := by
  cases o <;> rfl

section

variable (s : Instrumentation)

@[simp] theorem stored_location (id : NodeId) : (s.location id).stored = [] := rfl

@[simp] theorem stored_hookCall (method : HookMethod) (arguments : List Code) :
    (s.hookCall method arguments).stored = Code.storedAll arguments := rfl

@[simp] theorem stored_operand (id : NodeId) : (s.operand id).stored = [] := by
  unfold Instrumentation.operand SyntaxTree.operand
  dsimp only
  split <;> rfl

@[simp] theorem stored_traced (id : NodeId) (value : Code) (target source : Origin) :
    (s.traced id value target source).stored = value.stored := by
  simp [traced, Code.storedAll]

@[simp] theorem stored_passed (i : Nat) (argument : NodeId) (stub : Stub) :
    (s.passed i argument stub).stored = stub.value.stored := by
  simp [passed, Code.storedAll, Code.stored]

@[simp] theorem stored_arithmeticCheck (id : NodeId) (operator left right : String)
    (leftOrigin rightOrigin : Origin) :
    (s.arithmeticCheck id operator left right leftOrigin rightOrigin).stored = [] := by
  simp [arithmeticCheck, Code.storedAll, Code.stored]

@[simp] theorem stored_held (id : NodeId) (stub : Stub) (name : String) :
    Code.storedAll (s.held id stub name).preamble =
      Code.storedAll stub.preamble ++ (stub.value.stored ++ [name]) := by
  obtain ⟨value, hpreamble, -, hcases⟩ := held_cases s id stub name
  have hvalue : value.stored = stub.value.stored := by
    rcases hcases with ⟨rfl, -⟩ | ⟨rfl, -⟩
    · rfl
    · simp [Code.storedAll, Code.stored]
  simp [hpreamble, Code.storedAll_append, Code.storedAll, Code.stored, hvalue]

@[simp] theorem stored_heldValue (id : NodeId) (stub : Stub) (name : String) :
    (s.held id stub name).value.stored = [] := by
  obtain ⟨_, -, hvalue, -⟩ := held_cases s id stub name
  rw [hvalue, Code.stored]

end

def Stores (s s' : Instrumentation) (names : List String) : Prop :=
  ∃ count, s'.names = { s.names with next := s.names.next + count } ∧
    names.Perm (s.names.temporaries count)

namespace Stores

variable {s s' u : Instrumentation} {names more : List String}

theorem nil : Stores s s [] := ⟨0, rfl, by simp [NameSupply.temporaries]⟩

theorem trans (h : Stores s u names) (h' : Stores u s' more) : Stores s s' (names ++ more) := by
  obtain ⟨count, hu, hnames⟩ := h
  obtain ⟨count', hs', hmore⟩ := h'
  refine ⟨count + count', ?_, ?_⟩
  · rw [hs', hu]
    simp [Nat.add_assoc]
  · rw [NameSupply.temporaries_add, ← hu]
    exact hnames.append hmore

theorem perm (h : Stores s s' names) (hp : more.Perm names) : Stores s s' more := by
  obtain ⟨count, hs', hnames⟩ := h
  exact ⟨count, hs', hp.trans hnames⟩

theorem nodup (h : Stores s s' names) : names.Nodup := by
  obtain ⟨count, -, hnames⟩ := h
  exact hnames.nodup_iff.2 (s.names.temporaries_nodup count)

theorem made (h : Stores s s' names) {x : String} (hx : x ∈ names) :
    ∃ i, x = s.names.nameOf .temporary i := by
  obtain ⟨count, -, hnames⟩ := h
  obtain ⟨i, -, rfl⟩ := List.mem_map.1 (hnames.mem_iff.1 hx)
  exact ⟨i, rfl⟩

end Stores

namespace InstrumentM

variable {s s' : Instrumentation} {id : NodeId} {stub : Stub} {change : Change}

theorem temporary_stores {name : String} (h : Yields (temporary id) s name s') :
    Stores s s' [name] := by
  obtain ⟨_, u, hu, h⟩ := Yields.bind_iff.1 (Yields.get_bind_iff.1 h)
  obtain ⟨rfl, rfl⟩ := Yields.pure_iff.1 h
  obtain rfl := Yields.set_iff.1 hu
  exact ⟨1, rfl, .refl _⟩

/-- Nothing happened but that the temporaries of a stub were drawn, which its preamble fills. -/
structure StubStores (s s' : Instrumentation) (stub : Stub) : Prop where
  preamble : Stores s s' (Code.storedAll stub.preamble)
  value : stub.value.stored = []
  store : ∀ c, stub.store = some c → c.destination = []

theorem identifierStub_stores (h : Yields (identifierStub id) s stub s') : StubStores s s' stub := by
  replace h := Yields.get_bind_iff.1 h
  split at h
  · obtain ⟨rfl, rfl⟩ := Yields.pure_iff.1 h
    refine ⟨.nil, rfl, fun c hc => ?_⟩
    cases hc
    rfl
  · exact (Yields.not_throw h).elim

theorem memberStub_stores (h : Yields (memberStub id) s stub s') : StubStores s s' stub := by
  replace h := Yields.get_bind_iff.1 h
  split at h
  · exact (Yields.not_throw h).elim
  · obtain ⟨key, s₁, hkey, h₁⟩ := Yields.bind_iff.1 h
    obtain ⟨base, s₂, hbase, h₂⟩ := Yields.bind_iff.1 h₁
    obtain ⟨property, s₃, hproperty, h₃⟩ := Yields.bind_iff.1 h₂
    obtain ⟨rfl, hkey⟩ := memberKey_ok hkey
    have hstored : key.stored = [] := by
      cases hkey with
      | property => rfl
      | index => exact stored_operand s₁ _
    replace h₃ := Yields.get_bind_iff.1 h₃
    obtain ⟨rfl, rfl⟩ := Yields.pure_iff.1 h₃
    refine ⟨?_, rfl, fun c hc => ?_⟩
    · have hdrawn := (temporary_stores hbase).trans (temporary_stores hproperty)
      simpa [Code.storedAll, Code.stored, hstored] using hdrawn
    · cases hc
      rfl

theorem operandStub_stores (h : Yields (operandStub id) s stub s') : StubStores s s' stub := by
  have hwhole : Yields (pure { value := s.operand id, origin := .untraced } : InstrumentM Stub)
      s stub s' → StubStores s s' stub := by
    intro h
    obtain ⟨rfl, rfl⟩ := Yields.pure_iff.1 h
    exact ⟨.nil, stored_operand s' id, fun c hc => by cases hc⟩
  replace h := Yields.get_bind_iff.1 h
  dsimp only at h
  split at h
  · exact identifierStub_stores h
  · split at h
    · exact memberStub_stores h
    · exact hwhole h
  · split at h
    · exact memberStub_stores h
    · exact hwhole h
  · split at h
    · obtain ⟨rfl, rfl⟩ := Yields.pure_iff.1 h
      exact ⟨.nil, rfl, fun c hc => by cases hc⟩
    · exact hwhole h
  · exact hwhole h

theorem targetStub_stores (h : Yields (targetStub id) s (some stub) s') : StubStores s s' stub := by
  have hsome : ∀ {x : InstrumentM Stub}, Yields (do return some (← x)) s (some stub) s' →
      Yields x s stub s' := by
    intro x h
    obtain ⟨stub', s₁, hstub, h₁⟩ := Yields.bind_iff.1 h
    obtain ⟨hstubs, rfl⟩ := Yields.pure_iff.1 h₁
    rwa [Option.some.inj hstubs]
  have hnone : ¬ Yields (pure none : InstrumentM (Option Stub)) s (some stub) s' := by
    intro h
    cases (Yields.pure_iff.1 h).1
  replace h := Yields.get_bind_iff.1 h
  dsimp only at h
  split at h
  · exact identifierStub_stores (hsome h)
  · split at h
    · exact memberStub_stores (hsome h)
    · exact (hnone h).elim
  · split at h
    · exact memberStub_stores (hsome h)
    · exact (hnone h).elim
  · exact (hnone h).elim

theorem binaryChange_stores (h : Yields (binaryChange id) s (some change) s') :
    Stores s s' (Code.storedAll change.replacement.codes) := by
  replace h := Yields.get_bind_iff.1 h
  dsimp only at h
  split at h
  · split at h
    · split at h
      · exact (not_none h).elim
      · obtain ⟨rfl, rfl⟩ := some_of_pure h
        simpa [Replacement.codes, Code.storedAll] using Stores.nil
    · split at h
      · exact (not_none h).elim
      · obtain ⟨lhs, s₁, hlhs, h₁⟩ := Yields.bind_iff.1 h
        obtain ⟨rhs, s₂, hrhs, h₂⟩ := Yields.bind_iff.1 h₁
        obtain ⟨leftName, s₃, hleftName, h₃⟩ := Yields.bind_iff.1 h₂
        obtain ⟨rightName, s₄, hrightName, h₄⟩ := Yields.bind_iff.1 h₃
        replace h₄ := Yields.get_bind_iff.1 h₄
        obtain ⟨rfl, rfl⟩ := some_of_pure h₄
        have hlhs := operandStub_stores hlhs
        have hrhs := operandStub_stores hrhs
        have hdrawn := ((hlhs.preamble.trans hrhs.preamble).trans
          (temporary_stores hleftName)).trans (temporary_stores hrightName)
        refine hdrawn.perm ?_
        simp only [Replacement.codes, Code.storedAll, Code.stored, Code.storedAll_append, stored_held,
          stored_arithmeticCheck, hlhs.value, hrhs.value]
        grind
  · exact (not_none h).elim

theorem assignmentChange_stores (h : Yields (assignmentChange id) s (some change) s') :
    Stores s s' (Code.storedAll change.replacement.codes) := by
  replace h := Yields.get_bind_iff.1 h
  dsimp only at h
  split at h
  · split at h
    · exact (not_none h).elim
    · obtain ⟨found, s₁, htarget, h₁⟩ := Yields.bind_iff.1 h
      cases found with
      | none => exact (not_none h₁).elim
      | some target =>
        dsimp only at h₁
        split at h₁
        · next store hstore =>
          obtain ⟨value, s₂, hvalue, h₂⟩ := Yields.bind_iff.1 h₁
          replace h₂ := Yields.get_bind_iff.1 h₂
          obtain ⟨rfl, rfl⟩ := some_of_pure h₂
          have htarget := targetStub_stores htarget
          have hvalue := operandStub_stores hvalue
          refine (htarget.preamble.trans hvalue.preamble).perm ?_
          simp [Replacement.codes, Code.storedAll, Code.stored, Code.storedAll_append, hvalue.value,
            htarget.store store hstore]
        · exact (not_none h₁).elim
  · exact (not_none h).elim

theorem compoundChange_stores (h : Yields (compoundChange id) s (some change) s') :
    Stores s s' (Code.storedAll change.replacement.codes) := by
  replace h := Yields.get_bind_iff.1 h
  dsimp only at h
  split at h
  · split at h
    · exact (not_none h).elim
    · split at h
      · obtain ⟨found, s₁, htarget, h₁⟩ := Yields.bind_iff.1 h
        cases found with
        | none => exact (not_none h₁).elim
        | some target =>
          dsimp only at h₁
          split at h₁
          · next store hstore =>
            obtain ⟨value, s₂, hvalue, h₂⟩ := Yields.bind_iff.1 h₁
            obtain ⟨current, s₃, hcurrent, h₃⟩ := Yields.bind_iff.1 h₂
            obtain ⟨operand, s₄, hoperand, h₄⟩ := Yields.bind_iff.1 h₃
            replace h₄ := Yields.get_bind_iff.1 h₄
            obtain ⟨rfl, rfl⟩ := some_of_pure h₄
            have htarget := targetStub_stores htarget
            have hvalue := operandStub_stores hvalue
            have hdrawn := ((htarget.preamble.trans hvalue.preamble).trans
              (temporary_stores hcurrent)).trans (temporary_stores hoperand)
            refine hdrawn.perm ?_
            simp only [Replacement.codes, Code.storedAll, Code.stored, Code.storedAll_append,
              stored_held, stored_traced, apply_ite Code.stored, stored_arithmeticCheck,
              Code.destination_variable, hvalue.value, htarget.value, htarget.store store hstore]
            grind
          · exact (not_none h₁).elim
      · exact (not_none h).elim
  · exact (not_none h).elim

theorem declaratorChange_stores (h : Yields (declaratorChange id) s (some change) s') :
    Stores s s' (Code.storedAll change.replacement.codes) := by
  replace h := Yields.get_bind_iff.1 h
  dsimp only at h
  split at h
  · split at h
    · exact (not_none h).elim
    · split at h
      · exact (Yields.not_throw h).elim
      · obtain ⟨value, s₁, hvalue, h₁⟩ := Yields.bind_iff.1 h
        replace h₁ := Yields.get_bind_iff.1 h₁
        obtain ⟨rfl, rfl⟩ := some_of_pure h₁
        have hvalue := operandStub_stores hvalue
        refine hvalue.preamble.perm ?_
        simp [Replacement.codes, Stub.sequence, Code.storedAll, Code.stored, Code.stored_after,
          Code.destination, hvalue.value]
  · exact (not_none h).elim

theorem terminated_stores (h : s.terminated id = some change) : change.replacement.codes = [] := by
  obtain ⟨leading, trailing, rfl⟩ := terminated_ok h
  rfl

theorem returnChange_stores (h : Yields (returnChange id) s (some change) s') :
    Stores s s' (Code.storedAll change.replacement.codes) := by
  replace h := Yields.get_bind_iff.1 h
  dsimp only at h
  split at h
  · obtain ⟨value, s₁, hvalue, h₁⟩ := Yields.bind_iff.1 h
    replace h₁ := Yields.get_bind_iff.1 h₁
    obtain ⟨rfl, rfl⟩ := some_of_pure h₁
    have hvalue := operandStub_stores hvalue
    refine hvalue.preamble.perm ?_
    simp [Replacement.codes, Stub.sequence, Code.storedAll, Code.stored, Code.stored_after,
      hvalue.value]
  · split at h
    · exact (not_none h).elim
    · obtain ⟨hterm, rfl⟩ := Yields.pure_iff.1 h
      rw [terminated_stores hterm.symm]
      exact .nil

theorem calleeOf_stores {callee : NodeId} {called : Callee}
    (h : Yields (calleeOf callee) s (some called) s') :
    Stores s s' (Code.storedAll called.preamble) ∧ called.function.stored = [] ∧
      called.receiver.stored = [] := by
  have hwhole : Yields
      (pure (some { function := .splice callee (s.tree.text callee), receiver := .void }) :
        InstrumentM (Option Callee)) s (some called) s' →
      Stores s s' (Code.storedAll called.preamble) ∧ called.function.stored = [] ∧
        called.receiver.stored = [] := by
    intro h
    obtain ⟨hsome, rfl⟩ := Yields.pure_iff.1 h
    obtain rfl := Option.some.inj hsome
    exact ⟨.nil, rfl, rfl⟩
  have hmember : Yields (do
        let member ← operandStub (s.tree.unwrap callee)
        return some ({ preamble := member.preamble, function := member.value,
                       receiver := member.origin.scope } : Callee)) s (some called) s' →
      Stores s s' (Code.storedAll called.preamble) ∧ called.function.stored = [] ∧
        called.receiver.stored = [] := by
    intro h
    obtain ⟨member, s₁, hmember, h₁⟩ := Yields.bind_iff.1 h
    obtain ⟨hsome, rfl⟩ := Yields.pure_iff.1 h₁
    obtain rfl := Option.some.inj hsome
    have hmember := operandStub_stores hmember
    exact ⟨hmember.preamble, hmember.value, member.origin.stored_scope⟩
  have hnone : ¬ Yields (pure none : InstrumentM (Option Callee)) s (some called) s' := by
    intro h
    cases (Yields.pure_iff.1 h).1
  replace h := Yields.get_bind_iff.1 h
  dsimp only at h
  split at h
  · exact hwhole h
  · exact hwhole h
  · split at h
    · exact hmember h
    · exact (hnone h).elim
  · split at h
    · exact hmember h
    · exact (hnone h).elim
  · exact (hnone h).elim

theorem traceArguments_stores {heldUntil : Option Nat} {arguments : List NodeId} :
    ∀ {s s' : Instrumentation} {i : Nat} {reads passed : List Code},
      Yields (traceArguments heldUntil i arguments) s (reads, passed) s' →
      Stores s s' (Code.storedAll reads ++ Code.storedAll passed) := by
  induction arguments with
  | nil =>
    intro s s' i reads passed h
    obtain ⟨hpair, rfl⟩ := Yields.pure_iff.1 h
    cases hpair
    exact .nil
  | cons argument rest ih =>
    intro s s' i reads passed h
    have htail : ∀ {v : Instrumentation} (x : List Code × Stub), x.2.value.stored = [] → Yields (do
          let s ← get
          let y ← traceArguments heldUntil (i + 1) rest
          return (x.1 ++ y.1, x.2.sequence (s.passed i argument x.2) :: y.2)) v (reads, passed) s' →
        ∃ more, Stores v s' more ∧ (Code.storedAll reads ++ Code.storedAll passed).Perm
          (Code.storedAll x.1 ++ Code.storedAll x.2.preamble ++ more) := by
      intro v x hx h
      obtain ⟨⟨r, p⟩, v₁, hrest, h₁⟩ := Yields.bind_iff.1 (Yields.get_bind_iff.1 h)
      obtain ⟨hpair, rfl⟩ := Yields.pure_iff.1 h₁
      cases hpair
      refine ⟨_, ih hrest, ?_⟩
      simp only [Code.storedAll_append, Code.storedAll, Stub.sequence, Code.stored_after,
        stored_passed, hx]
      grind
    -- an argument is read into a temporary of its own, or passed as it is
    obtain ⟨stub, s₁, hstub, h₁⟩ := Yields.bind_iff.1 h
    have hstub := operandStub_stores hstub
    replace h₁ := Yields.get_bind_iff.1 h₁
    dsimp only at h₁
    split at h₁
    · obtain ⟨name, s₂, hname, h₂⟩ := Yields.bind_iff.1 h₁
      replace h₂ := Yields.get_bind_iff.1 h₂
      obtain ⟨x, s₃, hx, h₃⟩ := Yields.bind_iff.1 h₂
      obtain ⟨rfl, rfl⟩ := Yields.pure_iff.1 hx
      obtain ⟨more, hmore, hperm⟩ := htail _ (stored_heldValue _ argument stub name) h₃
      refine ((hstub.preamble.trans (temporary_stores hname)).trans hmore).perm (hperm.trans ?_)
      simp [Code.storedAll, hstub.value]
    · obtain ⟨x, s₂, hx, h₂⟩ := Yields.bind_iff.1 h₁
      obtain ⟨rfl, rfl⟩ := Yields.pure_iff.1 hx
      obtain ⟨more, hmore, hperm⟩ := htail _ hstub.value h₂
      refine (hstub.preamble.trans hmore).perm (hperm.trans ?_)
      simp [Code.storedAll]

theorem callChange_stores (h : Yields (callChange id) s (some change) s') :
    Stores s s' (Code.storedAll change.replacement.codes) := by
  replace h := Yields.get_bind_iff.1 h
  dsimp only at h
  split at h
  · split at h
    · exact (not_refuse h).elim
    · split at h
      · exact (not_none h).elim
      · obtain ⟨found, s₁, hfound, h₁⟩ := Yields.bind_iff.1 h
        cases found with
        | none => exact (not_refuse h₁).elim
        | some called =>
          obtain ⟨⟨reads, passed⟩, s₂, htrace, h₂⟩ := Yields.bind_iff.1 h₁
          replace h₂ := Yields.get_bind_iff.1 h₂
          obtain ⟨rfl, rfl⟩ := some_of_pure h₂
          obtain ⟨hpreamble, hfunction, hreceiver⟩ := calleeOf_stores hfound
          refine (hpreamble.trans (traceArguments_stores htrace)).perm ?_
          simp [Replacement.codes, Code.storedAll, Code.stored, Code.stored_after, hfunction,
            hreceiver]
  · exact (not_none h).elim

theorem change_stores {r : Rule} (hr : r ≠ .body) (h : Yields (r.change? id) s (some change) s') :
    Stores s s' (Code.storedAll change.replacement.codes) := by
  cases r with
  | terminator =>
    replace h := Yields.get_bind_iff.1 h
    obtain ⟨hterm, rfl⟩ := Yields.pure_iff.1 h
    rw [terminated_stores hterm.symm]
    exact .nil
  | binary => exact binaryChange_stores h
  | assignment => exact assignmentChange_stores h
  | compound => exact compoundChange_stores h
  | declarator => exact declaratorChange_stores h
  | returning => exact returnChange_stores h
  | call => exact callChange_stores h
  | body => exact absurd rfl hr

end InstrumentM

end CoercionTrace
