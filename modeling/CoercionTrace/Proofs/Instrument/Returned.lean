import CoercionTrace.Proofs.Instrument.Held
import CoercionTrace.Proofs.Instrument.Terminated

/-!
# Returned values

The result of a checked call is known by the return key until the next checked call takes the key
over. Main statement: the code that a pass leaves of a construct gives a hook a value with the return
key only if the value is the result of the last call, but for operands of a function that announces no
frame (`Rewrites.keepsReturns` for one construct, `pass_keepsReturns` for the program).
-/

namespace CoercionTrace

open Instrumentation InstrumentM

variable {s s' : Instrumentation} {R : Running s.tree} {drawn : String → Prop} {id a own : NodeId}
  {stub : Stub} {x : String} {f g : Flow} {r : Rule}

/-! ## Rules -/

/-- The operands whose values a construct records only after something else that may make calls: the
other operands, an operator, or a sum. -/
def SyntaxTree.joined (t : SyntaxTree) (id : NodeId) : List NodeId :=
  match t.kind id with
  | .binaryExpression =>
    if checkedOperators.contains ((t.node id).operator.getD "") then
      (t.child? id "left").toList ++ (t.child? id "right").toList
    else []
  | .augmentedAssignmentExpression => (t.child? id "right").toList
  | .callExpression =>
    t.upToLive (((t.child? id "arguments").map t.significantChildren).getD [])
  | _ => []

/-- The result of a call is known by the return key although it is not what the last call returned. That
happens to an operand in a function that announces no frame, where the result is not traced at once. -/
inductive TakenOver (s : Instrumentation) (E : Effects) (d : NodeId) : Prop
  | operand {front rest : List NodeId} {a b : NodeId} : s.tree.joined d = front ++ a :: rest →
      s.IsLoose a → b ∈ rest → E.calls s.tree b ≠ 0 → TakenOver s E d
  /-- The operator makes a call when it converts its operands. -/
  | operator {a : NodeId} : s.tree.kind d = .binaryExpression → a ∈ s.tree.joined d → s.IsLoose a →
      E.operator d ≠ 0 → TakenOver s E d
  /-- The sum of a compound assignment is recorded with the key of its right-hand side. -/
  | sum {a : NodeId} : s.tree.kind d = .augmentedAssignmentExpression → a ∈ s.tree.joined d →
      s.IsLoose a → TakenOver s E d

namespace SyntaxTree

variable {t : SyntaxTree}

theorem joined_binary (h : t.kind id = .binaryExpression) :
    t.joined id = if checkedOperators.contains ((t.node id).operator.getD "") then
      (t.child? id "left").toList ++ (t.child? id "right").toList else [] := by
  unfold joined
  rw [h]

theorem joined_compound (h : t.kind id = .augmentedAssignmentExpression) :
    t.joined id = (t.child? id "right").toList := by
  unfold joined
  rw [h]

theorem joined_call (h : t.kind id = .callExpression) : t.joined id =
    t.upToLive (((t.child? id "arguments").map t.significantChildren).getD []) := by
  unfold joined
  rw [h]

theorem kind_of_joined (h : t.joined id ≠ []) : t.kind id = .binaryExpression ∨
    t.kind id = .augmentedAssignmentExpression ∨ t.kind id = .callExpression := by
  unfold joined at h
  split at h
  · next hk => exact .inl hk
  · next hk => exact .inr (.inl hk)
  · next hk => exact .inr (.inr hk)
  · exact absurd rfl h

theorem operand_of_joined (h : a ∈ t.joined id) : ∃ r : Rule, a ∈ r.operands t id := by
  rcases kind_of_joined (List.ne_nil_of_mem h) with hk | hk | hk
  · rw [joined_binary hk] at h
    split at h
    · exact ⟨.binary, h⟩
    · cases h
  · rw [joined_compound hk] at h
    exact ⟨.compound, List.mem_append_right _ h⟩
  · rw [joined_call hk] at h
    exact ⟨.call, List.mem_append_right _ ((t.upToLive_sublist _).subset h)⟩

end SyntaxTree

theorem not_takenOver {E : Effects} (h : s.tree.joined id = []) : ¬ TakenOver s E id := by
  rintro (⟨ho, -⟩ | ⟨-, ho, -⟩ | ⟨-, ho, -⟩) <;> simp [h] at ho

theorem joined_of_handles (h : r.handles (s.tree.kind id) = true)
    (hr : r ∉ [Rule.binary, .compound, .call]) : s.tree.joined id = [] := by
  by_contra hne
  rcases SyntaxTree.kind_of_joined hne with hk | hk | hk <;> rw [hk] at h <;>
    cases r <;> simp_all [Rule.handles, Kind.isTerminable]

theorem keeps_iff_not_takenOver {E : Effects} (before more : Nat)
    (hkind : s.tree.kind id ≠ .augmentedAssignmentExpression)
    (hmore : more = if s.tree.kind id = .binaryExpression then E.operator id else 0) :
    Keeps s E (before + E.callsOf s.tree (s.tree.joined id) + more) (s.tree.joined id) before ↔
      ¬ TakenOver s E id := by
  rw [keeps_iff]
  constructor
  · rintro h (⟨ho, hloose, hb, hcalls⟩ | ⟨hbinary, ha, hloose, hcalls⟩ | ⟨hcompound, -, -⟩)
    · exact hcalls ((h _ _ _ ho hloose).1 _ hb)
    · obtain ⟨front, rest, ho⟩ := List.append_of_mem ha
      have hnone := (h _ _ _ ho hloose).2
      rw [hmore, if_pos hbinary] at hnone
      exact hcalls hnone
    · exact hkind hcompound
  · intro h front a rest ho hloose
    refine ⟨fun b hb => by_contra fun hcalls => h (.operand ho hloose hb hcalls), ?_⟩
    rw [hmore]
    split
    · next hbinary =>
      exact by_contra fun hcalls => h (.operator hbinary (by simp [ho]) hloose hcalls)
    · rfl

theorem TargetStub.operandStub (h : TargetStub s drawn a stub) : OperandStub s drawn a stub := by
  cases h with
  | identifier h => exact .identifier h
  | member hm h => exact .member hm h

theorem TargetStub.stored (h : TargetStub s drawn a stub) :
    stub.value.stored = [] ∧ ∀ c, stub.store = some c → c.destination = [] := by
  cases h with
  | identifier h =>
    cases h
    simp [Code.stored, Code.destination]
  | member _ h =>
    cases h
    simp [Code.stored, Code.destination]

theorem TargetStub.isReturn (hs : s.tree.SparesReturnSlot) (h : TargetStub s drawn a stub) :
    stub.origin.isReturn = false := by
  cases h with
  | identifier h =>
    cases h with
    | mk hk ho => exact isReturn_identifier hs hk ho
  | member _ h =>
    cases h
    rfl

theorem OperandStub.allOwn (hs : s.tree.SparesReturnSlot) (h : OperandStub s drawn a stub)
    (R : Running s.tree) (f : Flow) :
    (stub.value.flow R.toEffects own
      (Code.flowAll R.toEffects own stub.preamble f).2).2.AllOwn ↔ f.AllOwn :=
  Flow.allOwn_congr (h.flow hs R own f).readings

theorem TargetStub.allOwn (h : TargetStub s drawn a stub) (E : Effects) (f : Flow) :
    (Code.flowAll E own stub.preamble f).2.AllOwn ↔ f.AllOwn := by
  refine Flow.allOwn_congr ?_
  cases h with
  | identifier h =>
    cases h
    rfl
  | member _ h =>
    cases h with
    | mk _ hkey => cases hkey <;> simp [Code.flowAll, Code.flow, flow_operand]

theorem OperandStub.allOwn_traced (hs : s.tree.SparesReturnSlot) (h : OperandStub s drawn a stub)
    (target : Origin) (f : Flow) :
    ((s.traced id stub.value target stub.origin).flow R.toEffects own
      (Code.flowAll R.toEffects own stub.preamble f).2).2.AllOwn ↔ f.AllOwn := by
  rw [flow_traced]
  exact (h.flow hs R own f).allOwn_traced

theorem CalleeForm.allOwn {callee : NodeId} {called : Callee} (hs : s.tree.SparesReturnSlot)
    (h : CalleeForm s drawn callee called) (R : Running s.tree) (f : Flow) :
    (called.receiver.flow R.toEffects own (called.function.flow R.toEffects own
      (Code.flowAll R.toEffects own called.preamble f).2).2).2.AllOwn ↔ f.AllOwn := by
  cases h with
  | whole => exact Flow.allOwn_congr rfl
  | @member stub hm hstub =>
    rw [Origin.flow_scope]
    exact (OperandStub.member hm hstub).allOwn hs R f

theorem flow_callCheck (s : Instrumentation) (id : NodeId) (function receiver arguments : Code)
    (text : String) (E : Effects) (f : Flow) :
    ((s.hookCall .callCheck [function, receiver, arguments, .quoted text, s.location id]).flow E
      own f).2.readings =
      (arguments.flow E own (receiver.flow E own (function.flow E own f).2).2).2.readings :=
  rfl

theorem allOwn_binary {left right : NodeId} {lhs rhs : Stub} {leftName rightName operator : String}
    (hs : s.tree.SparesReturnSlot) (hkind : s.tree.kind id = .binaryExpression)
    (hjoined : s.tree.joined id = [left, right]) (hlhs : OperandStub s drawn left lhs)
    (hrhs : OperandStub s drawn right rhs) (hleft : leftName ≠ returnSlotName)
    (hright : rightName ≠ returnSlotName)
    (hlater : leftName ∉ Code.storedAll (s.held right rhs rightName).preamble) :
    ((Code.sequence ((s.held left lhs leftName).preamble ++ (s.held right rhs rightName).preamble ++
      [s.arithmeticCheck id operator leftName rightName (s.held left lhs leftName).origin
        (s.held right rhs rightName).origin])).flow R.toEffects id f).2.AllOwn ↔
      f.AllOwn ∧ ¬ TakenOver s R.toEffects id := by
  rw [Code.flow]
  dsimp only
  rw [Code.flowAll_concat, Code.flowAll_append, flow_arithmeticCheck]
  dsimp only
  have hl := hlhs.flow_held hs hleft R id f
  have hr := hrhs.flow_held hs hright R id
    (Code.flowAll R.toEffects id (s.held left lhs leftName).preamble f).2
  have hkept := Code.flowAll_held R.toEffects id _
    (Code.flowAll R.toEffects id (s.held left lhs leftName).preamble f).2 hlater
  generalize hf₁ : (Code.flowAll R.toEffects id (s.held left lhs leftName).preamble f).2 = f₁ at *
  generalize hf₂ : (Code.flowAll R.toEffects id (s.held right rhs rightName).preamble f₁).2 = f₂ at *
  have hmade : (f₂.ran (R.operator id)).made =
      f.made + R.callsOf s.tree (s.tree.joined id) + R.operator id := by
    simp [hr.made, hl.made, hjoined, Effects.callsOf, Nat.add_assoc]
  have hother : s.tree.kind id ≠ .augmentedAssignmentExpression := by rw [hkind]; decide
  have hoperator : R.operator id =
      if s.tree.kind id = .binaryExpression then R.toEffects.operator id else 0 := (if_pos hkind).symm
  have hkeeps := keeps_iff_not_takenOver f.made _ hother hoperator
  rw [← hmade, hjoined, Keeps, Keeps, Keeps, ← hl.made] at hkeeps
  have hownLeft := hl.own_iff (u := f₂.ran (R.operator id)) hkept
  have hownRight := hr.own_iff (u := f₂.ran (R.operator id)) rfl
  rw [Flow.ran_held, ← hl.made] at hownLeft
  rw [Flow.ran_held] at hownRight
  rw [Flow.allOwn_ran, Flow.allOwn_note, Flow.note_made, Flow.allOwn_note, Flow.allOwn_ran, hownLeft,
    hownRight, hr.own, hl.own, ← hkeeps, and_true, and_assoc]

/-- The sum of a compound assignment is no result of a call, but is given with the key of its right-hand
side. -/
theorem allOwn_compound {left right : NodeId} {target value : Stub} {store combined : Code}
    {current operand operator : String} (hs : s.tree.SparesReturnSlot)
    (hkind : s.tree.kind id = .augmentedAssignmentExpression) (hjoined : s.tree.joined id = [right])
    (htarget : TargetStub s drawn left target) (hvalue : OperandStub s drawn right value)
    (hoperand : operand ≠ returnSlotName)
    (hcombined : combined = s.arithmeticCheck id operator current operand target.origin
        (s.held right value operand).origin ∨
      combined = .operation operator (.variable .temporary current) (.variable .temporary operand)) :
    ((Code.sequence (target.preamble ++ [.store (.variable .temporary current) target.value] ++
      (s.held right value operand).preamble ++
      [.store store (s.traced id combined target.origin (s.held right value operand).origin)])).flow
        R.toEffects id f).2.AllOwn ↔ f.AllOwn ∧ ¬ TakenOver s R.toEffects id := by
  -- what is given with the key is the sum, which no call returned, so any use of the key is wrong
  have htaken : TakenOver s R.toEffects id ↔ s.IsLoose right := by
    constructor
    · intro htaken
      obtain ⟨a, ha, hloose⟩ : ∃ a ∈ s.tree.joined id, s.IsLoose a := by
        rcases htaken with ⟨ho, hloose, -, -⟩ | ⟨-, ha, hloose, -⟩ | ⟨-, ha, hloose⟩
        · exact ⟨_, by simp [ho], hloose⟩
        · exact ⟨_, ha, hloose⟩
        · exact ⟨_, ha, hloose⟩
      rw [hjoined, List.mem_singleton] at ha
      exact ha ▸ hloose
    · exact fun hloose => .sum hkind (by simp [hjoined]) hloose
  rw [Code.flow]
  dsimp only
  rw [Code.flowAll_concat, Code.flowAll_append, Code.flowAll_concat, Code.flow,
    Flow.allOwn_congr (Flow.keep_readings _ _ _), Flow.allOwn_ran, flow_traced, Code.flow]
  dsimp only
  generalize hf₁ : ((target.value.flow R.toEffects id
    (Code.flowAll R.toEffects id target.preamble f).2).2.ran
    (R.stores (.variable .temporary current))).keep (.variable .temporary current) _ = f₁
  have hown₁ : f₁.AllOwn ↔ f.AllOwn := by
    rw [← hf₁, Flow.allOwn_congr (Flow.keep_readings _ _ _), Flow.allOwn_ran,
      htarget.operandStub.allOwn hs R f]
  have hheld := hvalue.flow_held hs hoperand R id f₁
  generalize (Code.flowAll R.toEffects id (s.held right value operand).preamble f₁).2 = f₂ at hheld ⊢
  have hsum : (combined.flow R.toEffects id f₂).1 = none ∧ (¬ s.IsLoose right →
      ((combined.flow R.toEffects id f₂).2.AllOwn ↔ f₂.AllOwn)) := by
    rcases hcombined with rfl | rfl
    · rw [flow_arithmeticCheck, htarget.isReturn hs]
      refine ⟨rfl, fun hloose => ?_⟩
      rw [Flow.allOwn_ran, Flow.allOwn_note]
      exact and_iff_left fun hreturn => absurd (hheld.isReturn.1 hreturn) hloose
    · exact ⟨rfl, fun _ => .rfl⟩
  obtain ⟨hnone, hchecked⟩ := hsum
  rw [Flow.allOwn_note, hnone, htaken]
  constructor
  · rintro ⟨hown, hread⟩
    have hloose : ¬ s.IsLoose right := fun hloose => by cases hread (hheld.isReturn.2 hloose)
    exact ⟨hown₁.1 (hheld.own.1 ((hchecked hloose).1 hown)), hloose⟩
  · rintro ⟨hown, hloose⟩
    exact ⟨(hchecked hloose).2 (hheld.own.2 (hown₁.2 hown)),
      fun hreturn => absurd (hheld.isReturn.1 hreturn) hloose⟩

theorem readings_membership {E : Effects} (s : Instrumentation) (left right : NodeId) :
    ((s.hookCall .inOperatorProxy [s.operand left, s.operand right]).flow E own f).2.readings =
      f.readings := by
  simp [hookCall, Code.flow, Code.flowAll, Flow.hook, HookMethod.sources, Instrumentation.operand,
    flow_operand]

theorem allOwn_call {callee : NodeId} {arguments : List NodeId} {called : Callee}
    {reads passed : List Code} (hs : s.tree.SparesReturnSlot)
    (hkind : s.tree.kind id = .callExpression) (hjoined : s.tree.joined id = s.tree.upToLive arguments)
    (hcalled : CalleeForm s drawn callee called)
    (hform : ArgumentsForm s drawn (s.heldUntil? arguments) 0 arguments reads passed)
    (hnodup : (Code.storedAll reads).Nodup)
    (hmade : ∀ x ∈ Code.storedAll reads, x ≠ returnSlotName) :
    ((Code.after called.preamble (s.hookCall .callCheck [called.function, called.receiver,
      .after reads (.list passed), .quoted (s.tree.rawSource callee), s.location id])).flow
        R.toEffects id f).2.AllOwn ↔ f.AllOwn ∧ ¬ TakenOver s R.toEffects id := by
  have hcallee : (called.receiver.flow R.toEffects id (called.function.flow R.toEffects id
      (Code.flowAll R.toEffects id called.preamble f).2).2).2.AllOwn ↔ f.AllOwn :=
    hcalled.allOwn hs R f
  rw [Code.flow_after, Flow.allOwn_congr (flow_callCheck _ _ _ _ _ _ _ _)]
  generalize (called.receiver.flow R.toEffects id (called.function.flow R.toEffects id
    (Code.flowAll R.toEffects id called.preamble f).2).2).2 = f₁ at hcallee ⊢
  obtain ⟨hcalls, hown, hpassed⟩ := hform.flow hs List.drop_zero rfl hnodup hmade R id f₁
  have hother : s.tree.kind id ≠ .augmentedAssignmentExpression := by rw [hkind]; decide
  have hmore : 0 = if s.tree.kind id = .binaryExpression then R.toEffects.operator id else 0 := by
    rw [hkind]
    rfl
  have hkeeps := keeps_iff_not_takenOver f₁.made 0 hother hmore
  rw [Nat.add_zero, hjoined] at hkeeps
  rw [Code.flow_after, Code.flow]
  dsimp only
  rw [hpassed _ fun _ _ => rfl, hown, hcallee, hcalls, hkeeps]

theorem Rewrites.keepsReturns (hs : s.tree.SparesReturnSlot) {rep : Replacement}
    (hhandles : r.handles (s.tree.kind id) = true) (h : Rewrites s drawn id r rep)
    (hnodup : (Code.storedAll rep.codes).Nodup)
    (hmade : ∀ x ∈ Code.storedAll rep.codes, x ≠ returnSlotName) (R : Running s.tree) (f : Flow) :
    (Code.flowAll R.toEffects id rep.codes f).2.AllOwn ↔
      f.AllOwn ∧ ¬ TakenOver s R.toEffects id := by
  have hone : ∀ c : Code, (Code.flowAll R.toEffects id [c] f).2 = (c.flow R.toEffects id f).2 :=
    fun _ => rfl
  have hnone : r ∉ [Rule.binary, .compound, .call] → ¬ TakenOver s R.toEffects id :=
    fun hr => not_takenOver (joined_of_handles hhandles hr)
  -- only what joins operands before it records them can lose a key; the rest records at once
  cases h with
  | terminator => simp [Replacement.codes, Code.flowAll, hnone]
  | unreturned => simp [Replacement.codes, Code.flowAll, hnone]
  | @membership left right hin =>
    have hjoined : s.tree.joined id = [] := by
      rw [SyntaxTree.joined_binary (by simpa [Rule.handles] using hhandles), hin]
      rfl
    rw [Replacement.codes, hone, Flow.allOwn_congr (readings_membership s left right)]
    exact (and_iff_left (not_takenOver hjoined)).symm
  | @binary left right lhs rhs leftName rightName operator hop hchecked hleft hright hlhs hrhs =>
    have hkind : s.tree.kind id = .binaryExpression := by simpa [Rule.handles] using hhandles
    have hjoined : s.tree.joined id = [left, right] := by
      rw [SyntaxTree.joined_binary hkind, hop, if_pos hchecked, hleft, hright]
      rfl
    simp only [Replacement.codes, Code.storedAll, Code.stored, Code.storedAll_append, stored_held,
      stored_arithmeticCheck, List.append_nil] at hnodup hmade
    have hlater : leftName ∉ Code.storedAll (s.held right rhs rightName).preamble := by
      rw [stored_held]
      exact fun hm => (List.nodup_append.1 hnodup).2.2 leftName (by simp) leftName hm rfl
    rw [Replacement.codes, hone, allOwn_binary hs hkind hjoined hlhs hrhs (hmade leftName (by simp))
      (hmade rightName (by simp)) hlater]
  | @assignment left right target value store hleft hright htarget hstore hvalue =>
    rw [Replacement.codes, hone, Code.flow]
    dsimp only
    rw [Code.flowAll_concat, Code.flowAll_append, Code.flow,
      Flow.allOwn_congr (Flow.keep_readings _ _ _), Flow.allOwn_ran, hvalue.allOwn_traced hs,
      htarget.allOwn]
    simp [hnone]
  | @compound left right target value store combined current operand operator hleft hright htarget
      hstore hvalue _ _ hcombined =>
    have hkind : s.tree.kind id = .augmentedAssignmentExpression := by
      simpa [Rule.handles] using hhandles
    have hjoined : s.tree.joined id = [right] := by
      rw [SyntaxTree.joined_compound hkind, hright]
      rfl
    obtain ⟨hread, hdestination⟩ := htarget.stored
    simp only [Replacement.codes, Code.storedAll, Code.stored, Code.storedAll_append, stored_held,
      stored_traced, Code.destination_variable, hread, hdestination store hstore, List.append_nil,
      List.nil_append] at hmade
    rw [Replacement.codes, hone,
      allOwn_compound hs hkind hjoined htarget hvalue (hmade operand (by simp)) hcombined]
  | @declarator name init target value hname hinit _ _ hvalue =>
    rw [Replacement.codes, hone, Code.flow]
    dsimp only
    rw [Stub.sequence, Code.flow_after, Flow.allOwn_congr (Flow.keep_readings _ _ _), Flow.allOwn_ran,
      hvalue.allOwn_traced hs]
    simp [hnone]
  | @returned argument value hargument hvalue =>
    rw [Replacement.codes, hone, Stub.sequence, Code.flow_after, hvalue.allOwn_traced hs]
    simp [hnone]
  | @call callee arguments called reads passed hcallee harguments _ hcalled hform =>
    have hkind : s.tree.kind id = .callExpression := by simpa [Rule.handles] using hhandles
    have hjoined : s.tree.joined id = s.tree.upToLive (s.tree.significantChildren arguments) := by
      rw [SyntaxTree.joined_call hkind, harguments]
      rfl
    simp only [Replacement.codes, Code.storedAll, Code.stored_after, stored_hookCall,
      List.append_assoc, List.append_nil] at hnodup hmade
    have hreads : ∀ more, (Code.storedAll reads).Sublist (Code.storedAll called.preamble ++
        (called.function.stored ++ (called.receiver.stored ++ (Code.storedAll reads ++ more)))) := by
      intro more
      iterate 3 apply List.sublist_append_of_sublist_right
      exact List.sublist_append_left _ _
    rw [Replacement.codes, hone]
    exact allOwn_call hs hkind hjoined hcalled hform (hnodup.sublist (hreads _)) fun x hx =>
      hmade x ((hreads _).subset hx)

/-! ## A whole pass -/

theorem NameSupply.nameOf_ne_returnSlotName (n : NameSupply) (use : NameUse) (i : Nat) :
    n.nameOf use i ≠ returnSlotName := by
  intro h
  have hlist := congrArg String.toList h
  simp only [nameOf, NameSupply.stem, String.toList_append, String.toList_ofList] at hlist
  rcases hd : n.dollars with _ | _ | d <;> rw [hd] at hlist <;> cases use <;>
    simp [NameUse.stem, returnSlotName, List.replicate_succ] at hlist

/-- Whatever runs in the texts that a replacement takes over, its code gives a hook a value with the
return key only if the value is what the last call returned, unless the key is taken over. -/
def KeepsReturns (s : Instrumentation) (d : NodeId) (rep : Replacement) : Prop :=
  ∀ (R : Running s.tree) (f : Flow), f.readings = [] →
    ((Code.flowAll R.toEffects d rep.codes f).2.AllOwn ↔ ¬ TakenOver s R.toEffects d)

theorem Flow.allOwn_of_nil (h : f.readings = []) : f.AllOwn := by
  rw [AllOwn, h]
  exact fun r hr => absurd hr List.not_mem_nil

theorem keepsReturns_of_nil {d : NodeId} {rep : Replacement} (hjoined : s.tree.joined d = [])
    (hcodes : ∀ E f, (Code.flowAll E d rep.codes f).2.readings = f.readings) :
    KeepsReturns s d rep := by
  intro R f hf
  rw [Flow.allOwn_congr (hcodes _ _)]
  exact iff_of_true (Flow.allOwn_of_nil hf) (not_takenOver hjoined)

namespace SyntaxTree

variable {t t' : SyntaxTree} {c d n : NodeId} {rep : Replacement}

theorem SameShape.upToLive (h : t.SameShape t') (arguments : List NodeId) :
    t'.upToLive arguments = t.upToLive arguments := by
  induction arguments with
  | nil => rfl
  | cons a rest ih => rw [SyntaxTree.upToLive, SyntaxTree.upToLive, h.isInert, ih]

theorem SameShape.joined (h : t.SameShape t') : t'.joined d = t.joined d := by
  simp only [SyntaxTree.joined, h.kind, h.operator, h.child?, h.significantChildren, h.upToLive]

theorem SameShape.calls (h : t.SameShape t') (E : Effects) (o : NodeId) :
    E.calls t' o = E.calls t o := by
  simp only [Effects.calls, h.unwrap, h.kind, h.pieces, h.isPlainMember]

theorem lt_of_joined (hw : t.WellFormed) (h : a ∈ t.joined d) :
    d < t.unwrap a ∧ t.Below d (t.unwrap a) := by
  obtain ⟨r, hr⟩ := operand_of_joined h
  obtain ⟨hlt, hbelow⟩ := below_of_operand hw hr
  exact ⟨Nat.lt_of_lt_of_le hlt (hw.le_of_below (t.below_unwrap a)), hbelow.trans (t.below_unwrap a)⟩

theorem Replaces.isCheckedCall (h : t.Replaces c rep t') (hn : n ≠ c) :
    t'.isCheckedCall n = t.isCheckedCall n := by
  simp only [SyntaxTree.isCheckedCall, h.shape.kind, Node.isReplaced, h.elsewhere n hn]

theorem Replaces.isCheckedCall_mono (h : t.Replaces c rep t') (hc : t.isCheckedCall n = true) :
    t'.isCheckedCall n = true := by
  by_cases hn : n = c
  · subst hn
    simp [SyntaxTree.isCheckedCall, Node.isReplaced, h.before] at hc
  · rwa [h.isCheckedCall hn]

end SyntaxTree

def Running.earlier {t t' : SyntaxTree} (R : Running t') (hshape : t.SameShape t')
    (hmono : ∀ n, t.isCheckedCall n = true → t'.isCheckedCall n = true) : Running t :=
  { R.toEffects with
    checked := fun h => R.checked (hmono _ h)
    unwrap := fun n => hshape.unwrap ▸ R.unwrap n
    constant := fun h => R.constant (by rwa [hshape.kind]) }

theorem TakenOver.of_same {E : Effects} {d : NodeId} (hshape : s.tree.SameShape s'.tree)
    (hloose : ∀ a ∈ s.tree.joined d, s.IsLoose a → s'.IsLoose a) (h : TakenOver s E d) :
    TakenOver s' E d := by
  rcases h with ⟨ho, hl, hb, hcalls⟩ | ⟨hk, ha, hl, hcalls⟩ | ⟨hk, ha, hl⟩
  · exact .operand (hshape.joined ▸ ho) (hloose _ (by simp [ho]) hl) hb
      (by rw [hshape.calls]; exact hcalls)
  · exact .operator (by rw [hshape.kind, hk]) (hshape.joined ▸ ha) (hloose _ ha hl) hcalls
  · exact .sum (by rw [hshape.kind, hk]) (hshape.joined ▸ ha) (hloose _ ha hl)

theorem KeepsReturns.later {d : NodeId} {rep : Replacement} (h : KeepsReturns s d rep)
    (hfixed : Fixed s s')
    (hmono : ∀ n, s.tree.isCheckedCall n = true → s'.tree.isCheckedCall n = true)
    (hsame : ∀ a ∈ s.tree.joined d, s'.tree.isCheckedCall (s.tree.unwrap a) =
      s.tree.isCheckedCall (s.tree.unwrap a)) : KeepsReturns s' d rep := by
  intro R f hf
  have hshape := hfixed.shape
  have hloose : ∀ a ∈ s.tree.joined d, s'.IsLoose a ↔ s.IsLoose a := by
    intro a ha
    rw [IsLoose, IsLoose, hshape.unwrap, hsame a ha, isFramed, isFramed, hfixed.host?,
      hfixed.isInstrumented]
  have hiff : TakenOver s R.toEffects d ↔ TakenOver s' R.toEffects d :=
    ⟨.of_same hshape fun a ha => (hloose a ha).2,
      .of_same hshape.symm fun a ha => (hloose a (hshape.joined ▸ ha)).1⟩
  exact (h (R.earlier hshape hmono) f hf).trans (not_congr hiff)

variable {s₀ : Instrumentation} {P : Option ScopeId → Prop} {rules : List Rule} {done : List NodeId}
  {d : NodeId} {rep : Replacement}

theorem VisitForm.isCheckedCall_mono (h : VisitForm P rules s id s') (n : NodeId)
    (hn : s.tree.isCheckedCall n = true) : s'.tree.isCheckedCall n = true := by
  cases h with
  | idle _ hs => rwa [hs]
  | bare _ hb => rwa [hb.state]
  | rewrite _ _ _ _ _ hreplaces _ => exact hreplaces.isCheckedCall_mono hn
  | body _ _ hreplaces _ => exact hreplaces.isCheckedCall_mono hn

theorem KeepsReturns.visit (hw : s.tree.WellFormed) (h : KeepsReturns s d rep)
    (hv : VisitForm P rules s id s') (hnot : ¬ s.tree.Below d id) : KeepsReturns s' d rep := by
  refine h.later hv.fixed hv.isCheckedCall_mono fun a ha => ?_
  have hblock : s.tree.kind d ≠ .statementBlock := by
    rcases SyntaxTree.kind_of_joined (List.ne_nil_of_mem ha) with hk | hk | hk <;> rw [hk] <;> decide
  rcases hv.apart hw hnot hblock with htree | ⟨c, rep', hreplaces, hc⟩
  · rw [htree]
  · apply hreplaces.isCheckedCall
    rintro rfl
    exact hc (SyntaxTree.lt_of_joined hw ha).2

theorem visit_stores (h : Yields (visit rules id) s () s')
    (hbody : Rule.body.handles (s.tree.kind id) ≠ true) (hid : id < s.tree.size)
    (hreplaces : s.tree.Replaces id rep s'.tree) :
    ∃ u, Stores s u (Code.storedAll rep.codes) := by
  have hat := hreplaces.at_ hid
  have hchanged : s'.tree ≠ s.tree := by
    intro htree
    rw [htree, hreplaces.before] at hat
    cases hat
  replace h := Yields.get_bind_iff.1 h
  split at h
  · obtain ⟨-, rfl⟩ := Yields.pure_iff.1 h
    exact absurd rfl hchanged
  · next r hr =>
    have hhandles : r.handles (s.tree.kind id) = true := by
      simpa using List.find?_some hr
    have hne : r ≠ .body := by
      rintro rfl
      exact hbody hhandles
    split at h
    · obtain ⟨-, rfl⟩ := Yields.pure_iff.1 h
      exact absurd rfl hchanged
    · obtain ⟨changed, happly⟩ := Yields.discard_iff.1 h
      rcases apply_ok happly with ⟨-, hchange⟩ | ⟨-, change, u, hchange, hupdate, -⟩
      · have hsame := (change_none hne hchange).2
        exact absurd (by rw [hsame]) hchanged
      · obtain ⟨hdraw, hnode, -⟩ := change_ok hne hchange (hostsIn_true s id)
        rw [hnode, hdraw.tree] at hupdate
        obtain rfl := Option.some.inj ((hupdate.at_ hid).symm.trans hat)
        exact ⟨u, change_stores hne hchange⟩

theorem Code.flowAll_still {E : Effects} {cs : List Code} (h : ∀ c ∈ cs, ∀ f, (c.flow E own f).2 = f)
    (f : Flow) : (flowAll E own cs f).2 = f := by
  induction cs generalizing f with
  | nil => rfl
  | cons c rest ih =>
    rw [flowAll, h c List.mem_cons_self]
    exact ih (fun d hd => h d (List.mem_cons_of_mem _ hd)) f

theorem readings_enterCall (s : Instrumentation) (function : NodeId) (scope : Scope) (E : Effects)
    (f : Flow) : ((s.enterCall function scope).flow E own f).2.readings = f.readings := by
  have hlist : ∀ {names : List Code}, (∀ c ∈ names, c = .null ∨ ∃ name, c = .quoted name) →
      ∀ f, ((Code.list names).flow E own f).2 = f := by
    intro names hnames f
    refine Code.flowAll_still (fun c hc => ?_) f
    rcases hnames c hc with rfl | ⟨name, rfl⟩ <;> exact fun _ => rfl
  have hparameters : ∀ {listed : Option String → Code}, listed none = .null →
      (∀ name, listed (some name) = .quoted name) →
      ∀ c ∈ (s.tree.parameterNames function).map listed, c = .null ∨ ∃ name, c = .quoted name := by
    intro listed hnull hquoted c hc
    obtain ⟨name, -, rfl⟩ := List.mem_map.1 hc
    cases name with
    | none => exact .inl hnull
    | some name => exact .inr ⟨name, hquoted name⟩
  unfold enterCall
  dsimp only
  change (Code.flowAll E own _ f).2.readings = _
  rw [Code.flowAll_still]
  split
  · exact List.forall_mem_singleton.2 (hlist (hparameters rfl fun _ => rfl))
  · refine List.forall_mem_cons.2 ⟨hlist (hparameters rfl fun _ => rfl), ?_⟩
    refine List.forall_mem_singleton.2 (hlist fun c hc => ?_)
    obtain ⟨name, -, rfl⟩ := List.mem_map.1 hc
    exact .inr ⟨name, rfl⟩

structure Returning (s₀ : Instrumentation) (done : List NodeId) (s : Instrumentation) : Prop where
  passed : Passed s₀ done s
  kept : ∀ d rep, (s.tree.node d).replacement = some rep → KeepsReturns s d rep

theorem visit_keepsReturns (hw : s.tree.WellFormed) (hs : s.tree.SparesReturnSlot)
    (hv : Yields (visit Rule.all id) s () s') (hold : (s.tree.node d).replacement ≠ some rep)
    (hrep : (s'.tree.node d).replacement = some rep) : KeepsReturns s' d rep := by
  have hform := visit_ok hv (hostsIn_true s id)
  have hmono := hform.isCheckedCall_mono
  have hfixed := hform.fixed
  cases hform with
  | idle _ h =>
    rw [h] at hrep
    exact absurd hrep hold
  | bare _ hb =>
    rw [hb.state] at hrep
    exact absurd hrep hold
  | @rewrite r rep' u hr hhandles _ _ hrewrites hreplaces _ =>
    by_cases hd : d = id
    · subst hd
      have hid := lt_size_of_handles hhandles
      obtain rfl := Option.some.inj ((hreplaces.at_ hid).symm.trans hrep)
      obtain ⟨u, hstores⟩ := visit_stores hv (fun hbody => hr (handles_unique hhandles hbody)) hid
        hreplaces
      have hkeeps : KeepsReturns s d rep' := by
        intro R f hf
        rw [hrewrites.keepsReturns hs hhandles hstores.nodup (fun x hx => ?_) R f]
        · exact and_iff_right (Flow.allOwn_of_nil hf)
        · obtain ⟨i, rfl⟩ := hstores.made hx
          exact s.names.nameOf_ne_returnSlotName _ _
      refine hkeeps.later hfixed hmono fun a ha => hreplaces.isCheckedCall ?_
      exact Nat.ne_of_gt (SyntaxTree.lt_of_joined hw ha).1
    · rw [hreplaces.elsewhere d hd] at hrep
      exact absurd hrep hold
  | @body number body rep' u hhandles hb hreplaces _ =>
    by_cases hd : d = body
    · subst hd
      have hmem := SyntaxTree.child?_mem hb.child
      have hblock : s.tree.kind d = .statementBlock :=
        hw.block (by simpa [Kind.IsPlainFunction, Rule.handles] using hhandles) hb.child
      obtain rfl := Option.some.inj ((hreplaces.at_ (hw.child hmem).2.1).symm.trans hrep)
      have hkeeps : KeepsReturns s d rep' := by
        have hjoined : s.tree.joined d = [] := by
          by_contra hne
          rcases SyntaxTree.kind_of_joined hne with hk | hk | hk <;> exact absurd (hblock.symm.trans hk)
            (by decide)
        refine keepsReturns_of_nil hjoined fun E f => ?_
        have hform := hb.form
        cases hform with
        | framed => exact readings_enterCall s id _ E f
        | host => rfl
      refine hkeeps.later hfixed hmono fun a ha => hreplaces.isCheckedCall ?_
      exact Nat.ne_of_gt (SyntaxTree.lt_of_joined hw ha).1
    · rw [hreplaces.elsewhere d hd] at hrep
      exact absurd hrep hold

theorem Returning.visit (hw : s₀.tree.WellFormed) (hfresh : s₀.tree.IsFresh)
    (hs : s₀.tree.SparesReturnSlot) (h : Returning s₀ done s)
    (hnot : ∀ f ∈ done, ¬ s₀.tree.Below f id) (hv : Yields (visit Rule.all id) s () s') :
    Returning s₀ (done ++ [id]) s' := by
  have hfixed := h.passed.visited.fixed
  have hws := h.passed.visited.wellFormed hw
  refine ⟨h.passed.visit hw hfresh hnot hv, fun d rep hrep => ?_⟩
  -- a replacement that was there is not below the visited node; another one is made by this visit
  by_cases hold : (s.tree.node d).replacement = some rep
  · refine (h.kept d rep hold).visit hws (visit_ok hv (hostsIn_true s id)) fun hbelow => ?_
    replace hbelow := hfixed.shape.symm.below hbelow
    obtain ⟨f, hf, rfl | ⟨number, hb⟩⟩ := (h.passed.replaced d rep hold).visited
    · exact hnot f hf hbelow
    · exact hnot f hf ((SyntaxTree.Below.of_mem (SyntaxTree.child?_mem hb.child)).trans hbelow)
  · refine visit_keepsReturns hws (fun i hi => ?_) hv hold hrep
    rw [hfixed.shape.kind] at hi
    rw [hfixed.shape.rawSource]
    exact hs i hi

theorem pass_returning (hw : s₀.tree.WellFormed) (hfresh : s₀.tree.IsFresh)
    (hs : s₀.tree.SparesReturnSlot) (h : Yields (pass Rule.all) s₀ () s) :
    Returning s₀ s₀.agenda s := by
  have hstart : Returning s₀ [] s₀ :=
    ⟨.start hfresh, fun d _ hd => absurd hd (hfresh.not_replaced d)⟩
  refine visitAll_induction (Q := Returning s₀) hstart (fun hagenda hQ hv => ?_)
    (Yields.get_bind_iff.1 h)
  exact hQ.visit hw hfresh hs (not_below_of_agenda hw hagenda) hv

/-- Whatever the parts of a program call, the code that a pass leaves gives a hook a value with the
return key only if the value is what the checked call evaluated last returned. The exceptions are
operands that are calls, in a function that announces no frame: there a call of a later operand or of
the operator takes the key over, and a compound assignment records its sum with the key. -/
theorem pass_keepsReturns {tree : SyntaxTree} {scopes : ScopeTable} {suppression : Suppression}
    {hook file : String} (hw : tree.WellFormed) (hfresh : tree.IsFresh) (hs : tree.SparesReturnSlot)
    (h : Yields (pass Rule.all) (.start tree scopes suppression hook file) () s)
    (hrep : (s.tree.node d).replacement = some rep) (R : Running s.tree) (f : Flow)
    (hf : f.readings = []) :
    (∀ r ∈ (Code.flowAll R.toEffects d rep.codes f).2.readings, r.IsOwn) ↔
      ¬ TakenOver s R.toEffects d := by
  have htree := (start_same tree scopes suppression hook file).1
  generalize Instrumentation.start tree scopes suppression hook file = s₀ at *
  subst htree
  exact (pass_returning hw hfresh hs h).kept d rep hrep R f hf

/-- In a program without parentheses, a run in which only the checked calls call anything. -/
def Running.direct (t : SyntaxTree) (h : ∀ n, t.kind n ≠ .parenthesizedExpression) : Running t where
  text n := if t.isCheckedCall n then 1 else 0
  result := t.isCheckedCall
  read _ := 0
  write _ := 0
  operator _ := 0
  host _ := 0
  checked hn := by simp [hn]
  unwrap n := by rw [SyntaxTree.unwrap_of_kind (h n)]
  constant {n} hn := by
    refine if_neg fun hc => ?_
    rw [SyntaxTree.kind_of_isCheckedCall hc] at hn
    cases hn

def twoCalls : List Char := "// JSane: ignore\nfunction h() \x7b\n  return f() + g();\n\x7d".toList

def twoCallsTree : SyntaxTree :=
  let call (start : Nat) (field : String) : Concrete :=
    .named "call_expression" start (start + 3) (some field) [
      .named "identifier" start (start + 1) (some "function") [],
      .named "arguments" (start + 1) (start + 3) (some "arguments") []]
  .ofConcrete twoCalls (.named "program" 0 53 none [
    .named "comment" 0 16 none [],
    .named "function_declaration" 17 53 none [
      .named "identifier" 26 27 (some "name") [],
      .named "formal_parameters" 27 29 (some "parameters") [],
      .named "statement_block" 30 53 (some "body") [
        .named "return_statement" 34 51 none [
          .named "binary_expression" 41 50 none [
            call 41 "left", .mark "+" 45 46 (some "operator"), call 47 "right"]]]]])

def twoCallsScopes : ScopeTable := (ScopeTable.analyze twoCallsTree).toOption.getD {}

def twoCallsStart : Instrumentation :=
  .start twoCallsTree twoCallsScopes ⟨[false, true, false, false]⟩ "__rt" "t.js"

theorem pass_keepsReturns_twoCalls :
    let s := (twoCallsStart.afterPass Rule.all).2
    twoCallsTree.WellFormed ∧ twoCallsTree.SparesReturnSlot ∧
      (Suppression.scan "t.js" twoCalls).toOption.map Prod.fst = some ⟨[false, true, false, false]⟩ ∧
      ScopeTable.analyze twoCallsTree = .ok twoCallsScopes ∧
      Yields (pass Rule.all) twoCallsStart () s ∧
      ∃ rep, (s.tree.node 7).replacement = some rep ∧ rep.print =
          "($$t0 = __rt.callCheck(f, void 0, [], \"f\", \"t.js:3\"), " ++
          "$$t1 = __rt.callCheck(g, void 0, [], \"g\", \"t.js:3\"), " ++
          "__rt.arithmeticCheck($$t0 + $$t1, $$t0, $$t1, \"+\", \"t.js:3\", " ++
          "null, \"$ ret\", null, \"$ ret\"))" ∧
        ∃ R : Running s.tree, TakenOver s R.toEffects 7 ∧
          ¬ ∀ r ∈ (Code.flowAll R.toEffects 7 rep.codes ⟨0, fun _ => none, []⟩).2.readings,
            r.IsOwn := by
  intro s
  have hw : twoCallsTree.WellFormed := by decide +kernel
  have hkinds : ∀ n < twoCallsTree.size, twoCallsTree.kind n ≠ .parenthesizedExpression ∧
      (twoCallsTree.kind n = .identifier → twoCallsTree.rawSource n ≠ returnSlotName) := by
    decide +kernel
  have hs : twoCallsTree.SparesReturnSlot := fun n hn =>
    (hkinds n (SyntaxTree.lt_size_of_kind (by rw [hn]; decide))).2 hn
  have hscopes : ScopeTable.analyze twoCallsTree = .ok twoCallsScopes :=
    ok_of_toBool {} (by decide +kernel)
  have hfresh : twoCallsTree.IsFresh := SyntaxTree.isFresh_ofConcrete _ _
  have hfacts : (twoCallsStart.afterPass Rule.all).1.toBool = true ∧ s.isFramed 8 = false ∧
      s.tree.isCheckedCall 8 = true ∧ s.tree.isCheckedCall 11 = true ∧ s.tree.joined 7 = [8, 11] ∧
      ((s.tree.node 7).replacement.map Replacement.print) = some (
        "($$t0 = __rt.callCheck(f, void 0, [], \"f\", \"t.js:3\"), " ++
        "$$t1 = __rt.callCheck(g, void 0, [], \"g\", \"t.js:3\"), " ++
        "__rt.arithmeticCheck($$t0 + $$t1, $$t0, $$t1, \"+\", \"t.js:3\", " ++
        "null, \"$ ret\", null, \"$ ret\"))") := by decide +kernel
  obtain ⟨hok, hframed, hfirst, hsecond, hjoined, hprint⟩ := hfacts
  have hrun : Yields (pass Rule.all) twoCallsStart () s := .of_toBool hok
  obtain ⟨rep, hrep, hprint⟩ := Option.map_eq_some_iff.1 hprint
  have hnoParentheses : ∀ n, s.tree.kind n ≠ .parenthesizedExpression := by
    intro n hn
    have htree : twoCallsStart.tree = twoCallsTree := (start_same _ _ _ _ _).1
    have hpassed := pass_passed (by rw [htree]; exact hw) (by rw [htree]; exact hfresh) hrun
    rw [hpassed.visited.fixed.shape.kind, htree] at hn
    exact (hkinds n (SyntaxTree.lt_size_of_kind (by rw [hn]; decide))).1 hn
  clear_value s
  let R := Running.direct s.tree hnoParentheses
  have hunwrap : ∀ n, s.tree.unwrap n = n := fun n => SyntaxTree.unwrap_of_kind (hnoParentheses n)
  have hloose : s.IsLoose 8 := ⟨hframed, by rw [hunwrap]; exact hfirst⟩
  have htaken : TakenOver s R.toEffects 7 := by
    have hsplit : s.tree.joined 7 = [] ++ 8 :: [11] := hjoined
    refine .operand hsplit hloose List.mem_cons_self ?_
    rw [R.calls_call (by rw [hunwrap]; exact hsecond), hunwrap]
    exact Nat.pos_iff_ne_zero.1 (R.checked hsecond).1
  refine ⟨hw, hs, by decide +kernel, hscopes, hrun, rep, hrep, hprint, R, htaken, ?_⟩
  exact fun hown => (pass_keepsReturns hw hfresh hs hrun hrep R _ rfl).1 hown htaken

end CoercionTrace
