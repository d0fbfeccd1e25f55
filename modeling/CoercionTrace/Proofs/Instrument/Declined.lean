import CoercionTrace.Instrument.Pass
import CoercionTrace.Proofs.Instrument.Change

/-!
# Nodes that rules leave alone

A rule leaves a node alone for a reason that can be read off the program (`Rule.Declines`), and does
nothing then but complain of a call (`complaint?`). Main statement: `change_none`.
-/

namespace CoercionTrace

open Instrumentation

namespace SyntaxTree

def isTarget (t : SyntaxTree) (left : NodeId) : Bool :=
  t.kind (t.unwrap left) == .identifier || t.isPlainMember (t.unwrap left)

def isCallee (t : SyntaxTree) (callee : NodeId) : Bool :=
  t.kind (t.unwrap callee) == .identifier || t.kind (t.unwrap callee) == .functionExpression ||
    t.isPlainMember (t.unwrap callee)

end SyntaxTree

namespace Instrumentation

def complaint? (s : Instrumentation) (id : NodeId) : Option Complaint :=
  match s.tree.child? id "function", s.tree.child? id "arguments" with
  | some callee, some arguments =>
    match s.refusal? id arguments with
    | some why => some (.uninstrumentedCall why (s.tree.rawSource callee))
    | none =>
      if InstrumentM.isDirectEval s.tree callee || s.tree.isCallee callee then none
      else some (.uninstrumentedCall .callee (s.tree.rawSource callee))
  | _, _ => none

def diagnostic (s : Instrumentation) (id : NodeId) (complaint : Complaint) : Diagnostic :=
  { file := s.file, line := s.tree.line id, complaint }

section

variable {s : Instrumentation} {id callee arguments : NodeId}

theorem complaint?_of_refusal {why : CallRefusal} (hcallee : s.tree.child? id "function" = some callee)
    (harguments : s.tree.child? id "arguments" = some arguments)
    (hwhy : s.refusal? id arguments = some why) :
    s.complaint? id = some (.uninstrumentedCall why (s.tree.rawSource callee)) := by
  simp only [complaint?, hcallee, harguments, hwhy]

theorem complaint?_of_callee (hcallee : s.tree.child? id "function" = some callee)
    (harguments : s.tree.child? id "arguments" = some arguments)
    (hwhy : s.refusal? id arguments = none) : s.complaint? id =
      if InstrumentM.isDirectEval s.tree callee || s.tree.isCallee callee then none
      else some (.uninstrumentedCall .callee (s.tree.rawSource callee)) := by
  simp only [complaint?, hcallee, harguments, hwhy]

theorem complaint?_of_missing (hno : ∀ callee arguments, s.tree.child? id "function" = some callee →
    s.tree.child? id "arguments" = some arguments → False) : s.complaint? id = none := by
  unfold complaint?
  split
  · next callee arguments hcallee harguments => exact (hno callee arguments hcallee harguments).elim
  · rfl

end

end Instrumentation

def Rule.complaints (s : Instrumentation) (id : NodeId) : Rule → List Diagnostic
  | .call => ((s.complaint? id).map (s.diagnostic id)).toList
  | _ => []

def Rule.Declines (s : Instrumentation) (id : NodeId) : Rule → Prop
  | .binary => ∀ left right, s.tree.child? id "left" = some left →
      s.tree.child? id "right" = some right →
      checkedOperators.contains ((s.tree.node id).operator.getD "") = false
  | .assignment => ∀ left right, s.tree.child? id "left" = some left →
      s.tree.child? id "right" = some right →
      InstrumentM.keepsInferredName s.tree left right = true ∨ s.tree.isTarget left = false
  | .compound => ∀ operator left right,
      compoundOperator? ((s.tree.node id).operator.getD "") = some operator →
      s.tree.child? id "left" = some left → s.tree.child? id "right" = some right →
      logicalOperators.contains operator = true ∨ s.tree.isTarget left = false
  | .call => ∀ callee arguments, s.tree.child? id "function" = some callee →
      s.tree.child? id "arguments" = some arguments →
      (s.complaint? id).isSome = true ∨ InstrumentM.isDirectEval s.tree callee = true
  | _ => True

namespace InstrumentM

variable {s s' : Instrumentation} {id : NodeId}

theorem not_some {c : Change} (h : Yields (pure (some c) : InstrumentM (Option Change)) s none s') :
    False := by
  obtain ⟨hnone, -⟩ := Yields.pure_iff.1 h
  cases hnone

theorem eq_of_pure (h : Yields (pure none : InstrumentM (Option Change)) s none s') : s' = s :=
  (Yields.pure_iff.1 h).2

theorem targetStub_none (h : Yields (targetStub id) s none s') :
    s' = s ∧ s.tree.isTarget id = false := by
  have hsome : ∀ {x : InstrumentM Stub}, ¬ Yields (do return some (← x)) s none s' := by
    intro x h
    obtain ⟨stub, s₁, -, h₁⟩ := Yields.bind_iff.1 h
    obtain ⟨hnone, -⟩ := Yields.pure_iff.1 h₁
    cases hnone
  have hmember : ∀ {target}, s.tree.isPlainMember target = true →
      s.tree.kind target = .memberExpression ∨ s.tree.kind target = .subscriptExpression :=
    SyntaxTree.kind_of_isPlainMember
  replace h := Yields.get_bind_iff.1 h
  dsimp only at h
  split at h
  · exact (hsome h).elim
  · next hk =>
    split at h
    · exact (hsome h).elim
    · next hm => exact ⟨(Yields.pure_iff.1 h).2, by simp [SyntaxTree.isTarget, hk, hm]⟩
  · next hk =>
    split at h
    · exact (hsome h).elim
    · next hm => exact ⟨(Yields.pure_iff.1 h).2, by simp [SyntaxTree.isTarget, hk, hm]⟩
  · next hi hm hs =>
    refine ⟨(Yields.pure_iff.1 h).2, ?_⟩
    simp only [SyntaxTree.isTarget, Bool.or_eq_false_iff, beq_eq_false_iff_ne]
    exact ⟨hi, Bool.eq_false_iff.2 fun hplain => (hmember hplain).elim hm hs⟩

theorem store_of_targetStub {stub : Stub} (h : Yields (targetStub id) s (some stub) s') :
    ∃ store, stub.store = some store := by
  have hform := (targetStub_ok (P := fun _ => True) h trivial).2
  cases hform with
  | identifier h =>
    cases h
    exact ⟨_, rfl⟩
  | member _ h =>
    cases h
    exact ⟨_, rfl⟩

theorem calleeOf_none (h : Yields (calleeOf id) s none s') : s' = s ∧ s.tree.isCallee id = false := by
  replace h := Yields.get_bind_iff.1 h
  dsimp only at h
  have hmember : ¬ Yields (do
      let member ← operandStub (s.tree.unwrap id)
      return some ({ preamble := member.preamble, function := member.value,
                     receiver := member.origin.scope } : Callee)) s none s' := by
    intro h
    obtain ⟨stub, s₁, -, h₁⟩ := Yields.bind_iff.1 h
    obtain ⟨hnone, -⟩ := Yields.pure_iff.1 h₁
    cases hnone
  split at h
  · cases (Yields.pure_iff.1 h).1
  · cases (Yields.pure_iff.1 h).1
  · next hk =>
    split at h
    · exact (hmember h).elim
    · next hm => exact ⟨(Yields.pure_iff.1 h).2, by simp [SyntaxTree.isCallee, hk, hm]⟩
  · next hk =>
    split at h
    · exact (hmember h).elim
    · next hm => exact ⟨(Yields.pure_iff.1 h).2, by simp [SyntaxTree.isCallee, hk, hm]⟩
  · next hi hf hm hs =>
    refine ⟨(Yields.pure_iff.1 h).2, ?_⟩
    simp only [SyntaxTree.isCallee, Bool.or_eq_false_iff, beq_eq_false_iff_ne]
    exact ⟨⟨hi, hf⟩,
      Bool.eq_false_iff.2 fun hplain => (SyntaxTree.kind_of_isPlainMember hplain).elim hm hs⟩

theorem isCallee_of_calleeOf {called : Callee} (h : Yields (calleeOf id) s (some called) s') :
    s.tree.isCallee id = true := by
  replace h := Yields.get_bind_iff.1 h
  dsimp only at h
  split at h
  · next hk => simp [SyntaxTree.isCallee, hk]
  · next hk => simp [SyntaxTree.isCallee, hk]
  · split at h
    · next hm => simp [SyntaxTree.isCallee, hm]
    · cases (Yields.pure_iff.1 h).1
  · split at h
    · next hm => simp [SyntaxTree.isCallee, hm]
    · cases (Yields.pure_iff.1 h).1
  · cases (Yields.pure_iff.1 h).1

theorem state_of_refuse {callee : NodeId} {why : CallRefusal}
    (h : Yields (refuse id callee why) s none s') :
    s' = { s with diagnostics := s.diagnostics ++
      [s.diagnostic id (.uninstrumentedCall why (s.tree.rawSource callee))] } := by
  obtain ⟨_, s₁, h₁, h₂⟩ := Yields.bind_iff.1 (Yields.get_bind_iff.1 h)
  obtain ⟨-, rfl⟩ := Yields.pure_iff.1 h₂
  exact Yields.modify_iff.1 h₁

theorem binaryChange_none (h : Yields (binaryChange id) s none s') :
    s' = s ∧ Rule.binary.Declines s id := by
  replace h := Yields.get_bind_iff.1 h
  dsimp only at h
  split at h
  · next hleft hright =>
    split at h
    · next hin =>
      split at h
      · exact ⟨eq_of_pure h, fun _ _ _ _ => by rw [hin]; decide⟩
      · exact (not_some h).elim
    · split at h
      · next hchecked =>
        exact ⟨eq_of_pure h, fun _ _ _ _ => by simpa using hchecked⟩
      · obtain ⟨_, s₁, -, h₁⟩ := Yields.bind_iff.1 h
        obtain ⟨_, s₂, -, h₂⟩ := Yields.bind_iff.1 h₁
        obtain ⟨_, s₃, -, h₃⟩ := Yields.bind_iff.1 h₂
        obtain ⟨_, s₄, -, h₄⟩ := Yields.bind_iff.1 h₃
        exact (not_some (Yields.get_bind_iff.1 h₄)).elim
  · next hno => exact ⟨eq_of_pure h, fun left right hl hr => (hno left right hl hr).elim⟩

theorem assignmentChange_none (h : Yields (assignmentChange id) s none s') :
    s' = s ∧ Rule.assignment.Declines s id := by
  replace h := Yields.get_bind_iff.1 h
  dsimp only at h
  split at h
  · next left right hleft hright =>
    have hsame : ∀ {left' right'}, s.tree.child? id "left" = some left' →
        s.tree.child? id "right" = some right' → left' = left ∧ right' = right := fun hl hr =>
      ⟨Option.some.inj (hl.symm.trans hleft), Option.some.inj (hr.symm.trans hright)⟩
    split at h
    · next hkeeps =>
      refine ⟨eq_of_pure h, fun _ _ hl hr => .inl ?_⟩
      obtain ⟨rfl, rfl⟩ := hsame hl hr
      exact hkeeps
    · obtain ⟨found, s₁, htarget, h₁⟩ := Yields.bind_iff.1 h
      cases found with
      | none =>
        obtain ⟨rfl, hnone⟩ := targetStub_none htarget
        refine ⟨eq_of_pure h₁, fun _ _ hl hr => .inr ?_⟩
        obtain ⟨rfl, -⟩ := hsame hl hr
        exact hnone
      | some target =>
        dsimp only at h₁
        split at h₁
        · obtain ⟨_, s₂, -, h₂⟩ := Yields.bind_iff.1 h₁
          exact (not_some (Yields.get_bind_iff.1 h₂)).elim
        · next hstore =>
          obtain ⟨store, hsome⟩ := store_of_targetStub htarget
          exact (hstore store hsome).elim
  · next hno => exact ⟨eq_of_pure h, fun left right hl hr => (hno left right hl hr).elim⟩

theorem compoundChange_none (h : Yields (compoundChange id) s none s') :
    s' = s ∧ Rule.compound.Declines s id := by
  replace h := Yields.get_bind_iff.1 h
  dsimp only at h
  split at h
  · next operator hoperator =>
    split at h
    · next hlogical =>
      refine ⟨eq_of_pure h, fun _ _ _ ho _ _ => .inl ?_⟩
      obtain rfl := Option.some.inj (ho.symm.trans hoperator)
      exact hlogical
    · split at h
      · next left right hleft hright =>
        obtain ⟨found, s₁, htarget, h₁⟩ := Yields.bind_iff.1 h
        cases found with
        | none =>
          obtain ⟨rfl, hnone⟩ := targetStub_none htarget
          refine ⟨eq_of_pure h₁, fun _ _ _ _ hl _ => .inr ?_⟩
          obtain rfl := Option.some.inj (hl.symm.trans hleft)
          exact hnone
        | some target =>
          dsimp only at h₁
          split at h₁
          · obtain ⟨_, s₂, -, h₂⟩ := Yields.bind_iff.1 h₁
            obtain ⟨_, s₃, -, h₃⟩ := Yields.bind_iff.1 h₂
            obtain ⟨_, s₄, -, h₄⟩ := Yields.bind_iff.1 h₃
            exact (not_some (Yields.get_bind_iff.1 h₄)).elim
          · next hstore =>
            obtain ⟨store, hsome⟩ := store_of_targetStub htarget
            exact (hstore store hsome).elim
      · next hno => exact ⟨eq_of_pure h, fun _ left right _ hl hr => (hno left right hl hr).elim⟩
  · next hno => exact ⟨eq_of_pure h, fun operator _ _ ho _ _ => (hno operator ho).elim⟩

theorem declaratorChange_none (h : Yields (declaratorChange id) s none s') : s' = s := by
  replace h := Yields.get_bind_iff.1 h
  dsimp only at h
  split at h
  · split at h
    · exact eq_of_pure h
    · split at h
      · exact (Yields.not_throw h).elim
      · obtain ⟨_, s₁, -, h₁⟩ := Yields.bind_iff.1 h
        exact (not_some (Yields.get_bind_iff.1 h₁)).elim
  · exact eq_of_pure h

theorem returnChange_none (h : Yields (returnChange id) s none s') : s' = s := by
  replace h := Yields.get_bind_iff.1 h
  dsimp only at h
  split at h
  · obtain ⟨_, s₁, -, h₁⟩ := Yields.bind_iff.1 h
    exact (not_some (Yields.get_bind_iff.1 h₁)).elim
  · split at h
    · exact eq_of_pure h
    · exact (Yields.pure_iff.1 h).2

theorem callChange_none (h : Yields (callChange id) s none s') :
    Rule.call.Declines s id ∧
      s' = { s with diagnostics := s.diagnostics ++ Rule.call.complaints s id } := by
  have hsilent : s.complaint? id = none → s' = s →
      s' = { s with diagnostics := s.diagnostics ++ Rule.call.complaints s id } := by
    rintro hcomplaint rfl
    simp [Rule.complaints, hcomplaint]
  -- Whether it is the arguments or the callee, a refused call is complained of.
  have hrefused : ∀ {callee why}, s.complaint? id =
      some (.uninstrumentedCall why (s.tree.rawSource callee)) → Yields (refuse id callee why) s none s' →
      Rule.call.Declines s id ∧
        s' = { s with diagnostics := s.diagnostics ++ Rule.call.complaints s id } := by
    intro callee why hcomplaint h
    refine ⟨fun _ _ _ _ => .inl (by rw [hcomplaint]; rfl), ?_⟩
    rw [Rule.complaints, hcomplaint]
    exact state_of_refuse h
  replace h := Yields.get_bind_iff.1 h
  dsimp only at h
  split at h
  · next callee arguments hcallee harguments =>
    split at h
    · next why hwhy => exact hrefused (complaint?_of_refusal hcallee harguments hwhy) h
    · next hwhy =>
      have hcomplaint := complaint?_of_callee hcallee harguments hwhy
      split at h
      · next heval =>
        rw [heval, Bool.true_or, if_pos rfl] at hcomplaint
        refine ⟨fun _ _ hc _ => .inr ?_, hsilent hcomplaint (eq_of_pure h)⟩
        obtain rfl := Option.some.inj (hcallee.symm.trans hc)
        exact heval
      · next heval =>
        obtain ⟨found, s₁, hfound, h₁⟩ := Yields.bind_iff.1 h
        cases found with
        | none =>
          obtain ⟨rfl, hnone⟩ := calleeOf_none hfound
          rw [Bool.eq_false_iff.2 heval, hnone] at hcomplaint
          exact hrefused hcomplaint h₁
        | some called =>
          obtain ⟨_, s₂, -, h₂⟩ := Yields.bind_iff.1 h₁
          exact (not_some (Yields.get_bind_iff.1 h₂)).elim
  · next hno =>
    exact ⟨fun callee arguments hc ha => (hno callee arguments hc ha).elim,
      hsilent (complaint?_of_missing hno) (eq_of_pure h)⟩

theorem callChange_some {change : Change} (h : Yields (callChange id) s (some change) s') :
    ¬ Rule.call.Declines s id ∧ Rule.call.complaints s id = [] := by
  replace h := Yields.get_bind_iff.1 h
  dsimp only at h
  split at h
  · next callee arguments hcallee harguments =>
    split at h
    · exact (not_refuse h).elim
    · next hwhy =>
      split at h
      · exact (not_none h).elim
      · next heval =>
        obtain ⟨found, s₁, hfound, h₁⟩ := Yields.bind_iff.1 h
        cases found with
        | none => exact (not_refuse h₁).elim
        | some called =>
          have hcomplaint := complaint?_of_callee hcallee harguments hwhy
          rw [isCallee_of_calleeOf hfound, Bool.or_true, if_pos rfl] at hcomplaint
          refine ⟨fun hdeclines => ?_, by simp [Rule.complaints, hcomplaint]⟩
          rcases hdeclines callee arguments hcallee harguments with hsome | he
          · simp [hcomplaint] at hsome
          · exact heval he
  · exact (not_none h).elim

theorem change_none {r : Rule} (hr : r ≠ .body) (h : Yields (r.change? id) s none s') :
    r.Declines s id ∧ s' = { s with diagnostics := s.diagnostics ++ r.complaints s id } := by
  have hsilent : ∀ {r : Rule}, s' = s → r.complaints s id = [] →
      s' = { s with diagnostics := s.diagnostics ++ r.complaints s id } := by
    intro r hs hc
    rw [hs, hc, List.append_nil]
  cases r with
  | body => exact absurd rfl hr
  | terminator =>
    replace h := Yields.get_bind_iff.1 h
    obtain ⟨-, hs⟩ := Yields.pure_iff.1 h
    exact ⟨trivial, hsilent hs rfl⟩
  | binary =>
    obtain ⟨hs, hdeclines⟩ := binaryChange_none h
    exact ⟨hdeclines, hsilent hs rfl⟩
  | assignment =>
    obtain ⟨hs, hdeclines⟩ := assignmentChange_none h
    exact ⟨hdeclines, hsilent hs rfl⟩
  | compound =>
    obtain ⟨hs, hdeclines⟩ := compoundChange_none h
    exact ⟨hdeclines, hsilent hs rfl⟩
  | declarator => exact ⟨trivial, hsilent (declaratorChange_none h) rfl⟩
  | returning => exact ⟨trivial, hsilent (returnChange_none h) rfl⟩
  | call => exact callChange_none h

end InstrumentM

end CoercionTrace
