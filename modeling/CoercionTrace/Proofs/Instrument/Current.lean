import CoercionTrace.Proofs.Instrument.Change
import CoercionTrace.Proofs.Syntax.Text

/-!
# Current texts

Generated code is made of the texts that nodes have when it is made. Main statement:
`Rewrites.current`.
-/

namespace CoercionTrace

namespace Code

variable {t : SyntaxTree}

theorem currentAll_iff {cs : List Code} : CurrentAll t cs ↔ ∀ c ∈ cs, c.Current t := by
  induction cs with
  | nil => simp [CurrentAll]
  | cons c rest ih => simp [CurrentAll, ih]

theorem current_after {preamble : List Code} {c : Code} (hp : ∀ p ∈ preamble, p.Current t)
    (hc : c.Current t) : (c.after preamble).Current t := by
  unfold after
  split
  · exact hc
  · refine currentAll_iff.2 fun p h => ?_
    rcases List.mem_append.1 h with h | h
    · exact hp p h
    · obtain rfl := List.mem_singleton.1 h
      exact hc

end Code

variable {s : Instrumentation} {drawn : String → Prop} {id : NodeId} {stub : Stub} {t : SyntaxTree}

@[simp] theorem Origin.current_scope (o : Origin) : o.scope.Current t := by cases o <;> trivial

@[simp] theorem Origin.current_slot (o : Origin) : o.slot.Current t := by cases o <;> trivial

structure Stub.Current (t : SyntaxTree) (stub : Stub) : Prop where
  preamble : ∀ c ∈ stub.preamble, c.Current t
  value : stub.value.Current t
  store : ∀ c, stub.store = some c → c.Current t

theorem current_operand (s : Instrumentation) (id : NodeId) : (s.operand id).Current s.tree := by
  unfold Instrumentation.operand SyntaxTree.operand
  dsimp only
  split
  · exact ⟨rfl, trivial⟩
  · rfl

theorem current_traced (s : Instrumentation) (id : NodeId) {value : Code} (target source : Origin)
    (h : value.Current t) : (s.traced id value target source).Current t := by
  simp [Instrumentation.traced, Instrumentation.hookCall, Instrumentation.location, Code.Current,
    Code.CurrentAll, h]

theorem current_arithmeticCheck (s : Instrumentation) (id : NodeId) (operator left right : String)
    (leftOrigin rightOrigin : Origin) :
    (s.arithmeticCheck id operator left right leftOrigin rightOrigin).Current t := by
  simp [Instrumentation.arithmeticCheck, Instrumentation.hookCall, Instrumentation.location,
    Code.Current, Code.CurrentAll]

theorem VariableStub.current (h : VariableStub s id stub) : stub.Current t := by
  cases h with
  | mk => exact ⟨by simp, trivial, fun c hc => by cases hc; trivial⟩

theorem MemberStub.current (h : MemberStub s.tree drawn id stub) : stub.Current s.tree := by
  cases h with
  | mk _ hkey _ _ =>
    refine ⟨?_, trivial, fun c hc => by cases hc; trivial⟩
    refine List.forall_mem_cons.2 ⟨⟨trivial, rfl⟩, List.forall_mem_singleton.2 ⟨trivial, ?_⟩⟩
    cases hkey with
    | property => trivial
    | index => exact current_operand s _

theorem OperandStub.current (h : OperandStub s drawn id stub) : stub.Current s.tree := by
  cases h with
  | identifier h => exact h.current
  | member _ h => exact h.current
  | call => exact ⟨by simp, rfl, fun c hc => by cases hc⟩
  | whole => exact ⟨by simp, current_operand s id, fun c hc => by cases hc⟩

theorem TargetStub.current (h : TargetStub s drawn id stub) : stub.Current s.tree := by
  cases h with
  | identifier h => exact h.current
  | member _ h => exact h.current

theorem Stub.Current.held (h : stub.Current t) (s : Instrumentation) (id : NodeId) (name : String) :
    (∀ c ∈ (s.held id stub name).preamble, c.Current t) ∧
      (s.held id stub name).value.Current t := by
  obtain ⟨value, hpreamble, hvalue, hcases⟩ := held_cases s id stub name
  have hread : value.Current t := by
    rcases hcases with ⟨rfl, -⟩ | ⟨rfl, -⟩
    · exact h.value
    · simp [Instrumentation.hookCall, Instrumentation.location, Code.Current, Code.CurrentAll,
        h.value]
  rw [hpreamble, hvalue]
  refine ⟨fun c hc => ?_, trivial⟩
  rcases List.mem_append.1 hc with hc | hc
  · exact h.preamble c hc
  · obtain rfl := List.mem_singleton.1 hc
    exact ⟨trivial, hread⟩

theorem current_passed (s : Instrumentation) (i : Nat) (argument : NodeId)
    (h : stub.value.Current t) : (s.passed i argument stub).Current t := by
  simp [Instrumentation.passed, Instrumentation.hookCall, Instrumentation.location, Code.Current,
    Code.CurrentAll, h]

theorem ArgumentsForm.current {heldUntil : Option Nat} {i : Nat} {arguments : List NodeId}
    {reads passed : List Code} (h : ArgumentsForm s drawn heldUntil i arguments reads passed) :
    (∀ c ∈ reads, c.Current s.tree) ∧ ∀ c ∈ passed, c.Current s.tree := by
  induction h with
  | nil => simp
  | @held i argument rest stub name reads passed _ hstub _ _ ih =>
    obtain ⟨hpreamble, hvalue⟩ := hstub.current.held s argument name
    refine ⟨fun c hc => ?_, List.forall_mem_cons.2 ⟨current_passed s i argument hvalue, ih.2⟩⟩
    exact (List.mem_append.1 hc).elim (hpreamble c) (ih.1 c)
  | @direct i argument rest stub reads passed _ hstub _ ih =>
    refine ⟨ih.1, List.forall_mem_cons.2 ⟨?_, ih.2⟩⟩
    exact Code.current_after hstub.current.preamble
      (current_passed s i argument hstub.current.value)

theorem Rewrites.current {r : Rule} {rep : Replacement} (h : Rewrites s drawn id r rep)
    (hown : s.tree.text id = s.tree.ownText id) : rep.Current s.tree id := by
  have hsequence : ∀ {before after : List Code}, (∀ c ∈ before, c.Current s.tree) →
      (∀ c ∈ after, c.Current s.tree) → Code.CurrentAll s.tree (before ++ after) :=
    fun hb ha => Code.currentAll_iff.2 fun c hc => (List.mem_append.1 hc).elim (hb c) (ha c)
  cases h with
  | terminator => exact hown
  | unreturned => exact hown
  | membership => exact ⟨current_operand s _, current_operand s _, trivial⟩
  | binary _ _ _ _ hlhs hrhs _ _ =>
    refine hsequence (Code.currentAll_iff.1 (hsequence (hlhs.current.held s _ _).1
      (hrhs.current.held s _ _).1)) (List.forall_mem_singleton.2 ?_)
    exact current_arithmeticCheck s _ _ _ _ _ _
  | assignment _ _ htarget hstore hvalue =>
    refine hsequence (Code.currentAll_iff.1 (hsequence htarget.current.preamble
      hvalue.current.preamble)) (List.forall_mem_singleton.2 ?_)
    exact ⟨htarget.current.store _ hstore, current_traced s _ _ _ hvalue.current.value⟩
  | compound _ _ htarget hstore hvalue _ _ hcombined =>
    refine hsequence (Code.currentAll_iff.1 (hsequence (Code.currentAll_iff.1 (hsequence
      htarget.current.preamble (List.forall_mem_singleton.2 ⟨trivial, htarget.current.value⟩)))
      (hvalue.current.held s _ _).1)) (List.forall_mem_singleton.2 ?_)
    refine ⟨htarget.current.store _ hstore, current_traced s _ _ _ ?_⟩
    rcases hcombined with rfl | rfl
    · exact current_arithmeticCheck s _ _ _ _ _ _
    · exact ⟨trivial, trivial⟩
  | declarator _ _ _ _ hvalue =>
    exact ⟨trivial, Code.current_after hvalue.current.preamble
      (current_traced s _ _ _ hvalue.current.value)⟩
  | returned _ hvalue =>
    exact Code.current_after hvalue.current.preamble (current_traced s _ _ _ hvalue.current.value)
  | @call callee _ _ _ _ _ _ _ hcalled hform =>
    have hargs : ∀ c, c.Current s.tree → ∀ c', c'.Current s.tree → ∀ c'', c''.Current s.tree →
        (s.hookCall .callCheck [c, c', c'', .quoted (s.tree.rawSource callee),
          s.location id]).Current s.tree :=
      fun c hc c' hc' c'' hc'' => ⟨hc, hc', hc'', trivial, trivial, trivial⟩
    have hpassed := Code.current_after hform.current.1 (c := .list _)
      (Code.currentAll_iff.2 hform.current.2)
    cases hcalled with
    | whole => exact hargs (.splice callee (s.tree.text callee)) rfl .void trivial _ hpassed
    | member _ hstub =>
      exact Code.current_after hstub.current.preamble
        (hargs _ hstub.current.value _ (Origin.current_scope _) _ hpassed)

end CoercionTrace
