import CoercionTrace.Proofs.Instrument.Distinct

/-!
# Arguments on their way into the slots

The slots for the arguments of a call belong to the calling frame, where a nested call would overwrite
them. Main statement: in the code for a call everything that the arguments run is over before the
first of them is traced into its slot, and from there to the call nothing runs (`call_slotsLast`).
-/

namespace CoercionTrace

open Instrumentation InstrumentM

inductive Action
  | run (node : NodeId)
  | get (base key : String)
  | store (target : Code)
  | operate (operator : String)
  | hook (method : HookMethod) (arguments : List Code)

def Action.slot? : Action → Option Nat
  | .hook .assign (_ :: .null :: .index i :: _) => some i
  | _ => none

namespace Code

mutual

def actions : Code → List Action
  | .splice node _ => [.run node]
  | .name _ => []
  | .identifier _ _ => []
  | .variable _ _ => []
  | .quoted _ => []
  | .null => []
  | .void => []
  | .index _ => []
  | .access _ base key => [.get base key]
  | .store target value => actions value ++ [.store target]
  | .operation operator left right => actions left ++ actions right ++ [.operate operator]
  | .hook _ method arguments => actionsAll arguments ++ [.hook method arguments]
  | .list elements => actionsAll elements
  | .sequence parts => actionsAll parts

def actionsAll : List Code → List Action
  | [] => []
  | c :: rest => actions c ++ actionsAll rest

end

theorem actionsAll_append (a b : List Code) :
    actionsAll (a ++ b) = actionsAll a ++ actionsAll b := by
  induction a with
  | nil => rfl
  | cons c rest ih => simp [actionsAll, ih]

theorem actionsAll_eq_flatMap (cs : List Code) : actionsAll cs = cs.flatMap actions := by
  induction cs with
  | nil => rfl
  | cons c rest ih => simp [actionsAll, ih]

theorem actions_after (preamble : List Code) (c : Code) :
    (c.after preamble).actions = actionsAll preamble ++ c.actions := by
  cases preamble with
  | nil => rfl
  | cons a rest => simp [after, actions, actionsAll, actionsAll_append]

def slotsAll (cs : List Code) : List Nat := (actionsAll cs).filterMap Action.slot?

theorem slotsAll_append (a b : List Code) : slotsAll (a ++ b) = slotsAll a ++ slotsAll b := by
  simp [slotsAll, actionsAll_append]

theorem slotsAll_cons (c : Code) (rest : List Code) :
    slotsAll (c :: rest) = slotsAll [c] ++ slotsAll rest :=
  slotsAll_append [c] rest

@[simp] theorem slotsAll_store (target value : Code) :
    slotsAll [.store target value] = slotsAll [value] := by
  simp [slotsAll, actionsAll, actions, Action.slot?]

end Code

open Code

@[simp] theorem Origin.actions_scope (o : Origin) : o.scope.actions = [] := by
  cases o <;> rfl

@[simp] theorem Origin.actions_slot (o : Origin) : o.slot.actions = [] := by
  cases o <;> rfl

section

variable (s : Instrumentation)

@[simp] theorem actions_location (id : NodeId) : (s.location id).actions = [] := rfl

@[simp] theorem actions_operand (id : NodeId) : (s.operand id).actions = [.run id] := by
  unfold Instrumentation.operand SyntaxTree.operand
  dsimp only
  split <;> rfl

theorem actions_passed (i : Nat) (argument : NodeId) (stub : Stub) :
    (s.passed i argument stub).actions = stub.value.actions ++ [.hook .assign
      [stub.value, .null, .index i, stub.origin.scope, stub.origin.slot, s.location argument]] := by
  simp [passed, hookCall, actions, actionsAll]

theorem slotsAll_held (id : NodeId) (stub : Stub) (name : String)
    (hpreamble : slotsAll stub.preamble = []) (hvalue : slotsAll [stub.value] = []) :
    slotsAll (s.held id stub name).preamble = [] := by
  obtain ⟨value, hheld, -, hcases⟩ := held_cases s id stub name
  have hread : slotsAll [value] = [] := by
    rcases hcases with ⟨rfl, -⟩ | ⟨rfl, -⟩
    · exact hvalue
    · simpa [slotsAll, hookCall, actions, actionsAll, Action.slot?] using hvalue
  rw [hheld, slotsAll_append, hpreamble, slotsAll_store, hread]
  rfl

end

variable {s s' : Instrumentation} {drawn : String → Prop} {id a : NodeId} {stub : Stub}
  {arguments : List NodeId} {i : Nat}

theorem MemberStub.slots {t : SyntaxTree} {member : NodeId} (h : MemberStub t drawn member stub) :
    slotsAll stub.preamble = [] ∧ slotsAll [stub.value] = [] := by
  cases h with
  | @mk object key base property _ hkey =>
    have hkey : slotsAll [key] = [] := by
      cases hkey with
      | property => rfl
      | index =>
        unfold SyntaxTree.operand
        dsimp only
        split <;> rfl
    refine ⟨?_, rfl⟩
    rw [slotsAll_cons, slotsAll_store, slotsAll_store, hkey]
    rfl

theorem OperandStub.slots (h : OperandStub s drawn a stub) :
    slotsAll stub.preamble = [] ∧ slotsAll [stub.value] = [] := by
  cases h with
  | identifier hv =>
    cases hv
    exact ⟨rfl, rfl⟩
  | member _ hm => exact hm.slots
  | call => exact ⟨rfl, rfl⟩
  | whole => exact ⟨rfl, by simp [slotsAll, actionsAll, Action.slot?]⟩

theorem CalleeForm.slots {callee : NodeId} {called : Callee} (h : CalleeForm s drawn callee called) :
    slotsAll (called.preamble ++ [called.function, called.receiver]) = [] := by
  cases h with
  | whole => rfl
  | @member stub _ hm =>
    obtain ⟨hpreamble, hvalue⟩ := hm.slots
    rw [slotsAll_append, hpreamble, slotsAll_cons, hvalue]
    simp [slotsAll, actionsAll]

/-- What is read ahead of the slots for an argument, and the code that traces it into its slot. -/
structure Passing where
  argument : NodeId
  reads : List Code
  traced : Code

inductive PassedValue (s : Instrumentation) (arguments : List NodeId) (i : Nat) (a : NodeId)
    (reads : List Code) : Code → Prop
  /-- The argument was read into a temporary, with all that it runs. -/
  | temporary {stub : Stub} {name : String} {read : Code} : OperandStub s (fun _ => True) a stub →
      read = stub.value ∨ read = s.hookCall .assign [stub.value, .null, .quoted name,
        stub.origin.scope, stub.origin.slot, s.location a] →
      reads = stub.preamble ++ [.store (.variable .temporary name) read] →
      PassedValue s arguments i a reads (.variable .temporary name)
  | constant : reads = [] → (s.tree.kind (s.tree.unwrap a)).isConstant = true →
      PassedValue s arguments i a reads (.splice a (s.tree.text a))
  | inert : reads = [] → (∀ j b, i ≤ j → arguments[j]? = some b → s.tree.isInert b = true) →
      s.tree.kind (s.tree.unwrap a) = .identifier →
      PassedValue s arguments i a reads
        (.identifier (s.tree.unwrap a) (s.tree.rawSource (s.tree.unwrap a)))

structure PassesInOrder (s : Instrumentation) (arguments : List NodeId) (rows : List Passing) :
    Prop where
  all : rows.map (·.argument) = arguments
  passed : ∀ i p, rows[i]? = some p → ∃ stub, p.traced = s.passed i p.argument stub ∧
    PassedValue s arguments i p.argument p.reads stub.value

theorem constant_or_last (h : s.isHeld (s.heldUntil? arguments) i a = false) :
    (s.tree.kind (s.tree.unwrap a)).isConstant = true ∨
      ∀ j b, i ≤ j → arguments[j]? = some b → s.tree.isInert b = true := by
  rcases Bool.and_eq_false_iff.1 h with hlast | hconstant
  · refine .inr fun j b hij hb => Bool.eq_true_of_not_eq_false fun hlive => ?_
    have hj : j < arguments.length := (List.getElem?_eq_some_iff.1 hb).1
    cases hheld : s.heldUntil? arguments with
    | none =>
      have hnone := List.find?_eq_none.1 hheld j (by simpa using hj)
      simp [hb, hlive] at hnone
    | some last =>
      have hle : j ≤ last := le_of_find?_reverse hheld hj (by simp [hb, hlive])
      rw [hheld, Option.map_some, Option.getD_some, decide_eq_false_iff_not] at hlast
      exact hlast (Nat.le_trans hij hle)
  · exact .inl (by simpa using hconstant)

theorem OperandStub.of_constant (h : OperandStub s drawn a stub)
    (hconstant : (s.tree.kind (s.tree.unwrap a)).isConstant = true) :
    stub.preamble = [] ∧ stub.value = .splice a (s.tree.text a) := by
  have hkind : ∀ {kind : Kind}, s.tree.kind (s.tree.unwrap a) = kind → kind.isConstant = true :=
    fun e => e ▸ hconstant
  cases h with
  | identifier hv =>
    cases hv with
    | mk hk => exact absurd (hkind hk) (by decide)
  | member hm =>
    rcases SyntaxTree.kind_of_isPlainMember hm with e | e
    · exact absurd (hkind e) (by decide)
    · exact absurd (hkind e) (by decide)
  | call hc => exact absurd (hkind (SyntaxTree.kind_of_isCheckedCall hc)) (by decide)
  | whole =>
    have hsequence : s.tree.kind a ≠ .sequenceExpression := by
      intro e
      have hself := SyntaxTree.unwrap_of_kind (t := s.tree) (a := a) (by rw [e]; decide)
      exact absurd (hkind (hself ▸ e)) (by decide)
    refine ⟨rfl, ?_⟩
    change s.tree.operand a = _
    rw [SyntaxTree.operand, if_neg hsequence]

theorem OperandStub.of_identifier (h : OperandStub s drawn a stub)
    (hkind : s.tree.kind (s.tree.unwrap a) = .identifier) :
    stub.preamble = [] ∧
      stub.value = .identifier (s.tree.unwrap a) (s.tree.rawSource (s.tree.unwrap a)) := by
  cases h with
  | identifier hv =>
    cases hv
    exact ⟨rfl, rfl⟩
  | member hm =>
    rcases SyntaxTree.kind_of_isPlainMember hm with e | e <;> cases hkind.symm.trans e
  | call hc => cases hkind.symm.trans (SyntaxTree.kind_of_isCheckedCall hc)
  | whole hk => exact absurd hkind hk

theorem OperandStub.direct (h : OperandStub s drawn a stub)
    (hlast : (s.tree.kind (s.tree.unwrap a)).isConstant = true ∨
      ∀ j b, i ≤ j → arguments[j]? = some b → s.tree.isInert b = true) (ha : arguments[i]? = some a) :
    stub.preamble = [] ∧ PassedValue s arguments i a [] stub.value := by
  by_cases hconstant : (s.tree.kind (s.tree.unwrap a)).isConstant = true
  · obtain ⟨hpreamble, hvalue⟩ := h.of_constant hconstant
    exact ⟨hpreamble, hvalue ▸ .constant rfl hconstant⟩
  · have hinert := hlast.resolve_left hconstant
    have hkind : s.tree.kind (s.tree.unwrap a) = .identifier := by
      simpa [SyntaxTree.isInert, hconstant] using hinert i a (Nat.le_refl i) ha
    obtain ⟨hpreamble, hvalue⟩ := h.of_identifier hkind
    exact ⟨hpreamble, hvalue ▸ .inert rfl hinert hkind⟩

theorem getElem?_of_drop {α : Type} {l rest : List α} {a : α} (h : l.drop i = a :: rest) :
    l[i]? = some a := by
  rw [← List.head?_drop, h]
  rfl

theorem drop_succ_of_drop {α : Type} {l rest : List α} {a : α} (h : l.drop i = a :: rest) :
    l.drop (i + 1) = rest := by
  rw [← List.tail_drop, h]
  rfl

theorem ArgumentsForm.rows {heldUntil : Option Nat} {rest : List NodeId} {reads traced : List Code}
    (h : ArgumentsForm s drawn heldUntil i rest reads traced) (hrest : arguments.drop i = rest)
    (hheld : heldUntil = s.heldUntil? arguments) :
    ∃ rows : List Passing, rows.map (·.argument) = rest ∧ reads = rows.flatMap (·.reads) ∧
      traced = rows.map (·.traced) ∧ slotsAll reads = [] ∧
      ∀ j p, rows[j]? = some p → ∃ stub, p.traced = s.passed (i + j) p.argument stub ∧
        PassedValue s arguments (i + j) p.argument p.reads stub.value := by
  induction h with
  | nil => exact ⟨[], rfl, rfl, rfl, rfl, by simp⟩
  | @held i argument rest stub name reads traced _ hstub _ _ ih =>
    obtain ⟨rows, hargument, rfl, rfl, hslots, hpassed⟩ := ih (drop_succ_of_drop hrest)
    obtain ⟨read, hpreamble, hvalue, hread⟩ := held_cases s argument stub name
    obtain ⟨hstubPreamble, hstubValue⟩ := hstub.slots
    refine ⟨⟨argument, (s.held argument stub name).preamble,
      s.passed i argument (s.held argument stub name)⟩ :: rows, by simp [hargument], rfl, rfl, ?_, ?_⟩
    · rw [slotsAll_append, slotsAll_held s argument stub name hstubPreamble hstubValue, hslots]
      rfl
    · rintro (_ | j) p hp
      · obtain rfl := Option.some.inj hp
        refine ⟨_, rfl, ?_⟩
        rw [hvalue]
        exact .temporary (hstub.mono fun _ _ => trivial) (hread.imp And.left And.left) hpreamble
      · rw [← Nat.add_assoc, Nat.add_right_comm]
        exact hpassed j p hp
  | @direct i argument rest stub reads traced hnot hstub _ ih =>
    obtain ⟨rows, hargument, rfl, rfl, hslots, hpassed⟩ := ih (drop_succ_of_drop hrest)
    obtain ⟨hpreamble, hvalue⟩ :=
      hstub.direct (constant_or_last (hheld ▸ hnot)) (getElem?_of_drop hrest)
    refine ⟨⟨argument, [], s.passed i argument stub⟩ :: rows, by simp [hargument], by simp, ?_, hslots, ?_⟩
    · simp [Stub.sequence, after, hpreamble]
    · rintro (_ | j) p hp
      · obtain rfl := Option.some.inj hp
        exact ⟨stub, rfl, hvalue⟩
      · rw [← Nat.add_assoc, Nat.add_right_comm]
        exact hpassed j p hp

theorem PassedValue.actions {reads : List Code} {value : Code}
    (h : PassedValue s arguments i a reads value) : value.actions = [] ∨
      value.actions = [.run a] ∧ (s.tree.kind (s.tree.unwrap a)).isConstant = true := by
  cases h with
  | temporary => exact .inl rfl
  | constant _ hconstant => exact .inr ⟨rfl, hconstant⟩
  | inert => exact .inl rfl

theorem PassedValue.slots_passed {reads : List Code}
    (h : PassedValue s arguments i a reads stub.value) : slotsAll [s.passed i a stub] = [i] := by
  rw [slotsAll, actionsAll, actionsAll, List.append_nil, actions_passed]
  rcases h.actions with hvalue | ⟨hvalue, -⟩ <;> rw [hvalue] <;> rfl

theorem PassesInOrder.slots {rows : List Passing} (h : PassesInOrder s arguments rows) :
    slotsAll (rows.map (·.traced)) = List.range arguments.length := by
  -- The rows from position `n` on take the slots from `n` on.
  have key : ∀ {rest : List Passing} {n : Nat}, rest = rows.drop n →
      slotsAll (rest.map (·.traced)) = List.range' n rest.length := by
    intro rest
    induction rest with
    | nil => exact fun _ => rfl
    | cons p rest ih =>
      intro n hrest
      obtain ⟨stub, htraced, hvalue⟩ := h.passed n p (getElem?_of_drop hrest.symm)
      rw [List.map_cons, slotsAll_cons, htraced, hvalue.slots_passed,
        ih (drop_succ_of_drop hrest.symm).symm, List.length_cons, List.range'_succ]
      rfl
  rw [← h.all, List.length_map, List.range_eq_range']
  exact key List.drop_zero.symm

theorem PassesInOrder.quiet {rows : List Passing} (h : PassesInOrder s arguments rows) :
    ∀ x ∈ actionsAll (rows.map (·.traced)), x.slot?.isSome = true ∨
      ∃ a ∈ arguments, (s.tree.kind (s.tree.unwrap a)).isConstant = true ∧ x = .run a := by
  intro x hx
  rw [actionsAll_eq_flatMap, List.flatMap_map] at hx
  obtain ⟨p, hp, hx⟩ := List.mem_flatMap.1 hx
  obtain ⟨i, hi⟩ := List.getElem?_of_mem hp
  obtain ⟨stub, htraced, hvalue⟩ := h.passed i p hi
  have ha : p.argument ∈ arguments := h.all ▸ List.mem_map_of_mem hp
  rw [htraced, actions_passed, List.mem_append] at hx
  rcases hx with hx | hx
  · rcases hvalue.actions with hnone | ⟨hrun, hconstant⟩
    · simp [hnone] at hx
    · rw [hrun] at hx
      exact .inr ⟨p.argument, ha, hconstant, List.mem_singleton.1 hx⟩
  · rw [List.mem_singleton.1 hx]
    exact .inl rfl

namespace Instrumentation

def callArguments (s : Instrumentation) (id callee : NodeId) (called : Callee) (rows : List Passing) :
    List Code :=
  [called.function, called.receiver, .after (rows.flatMap (·.reads)) (.list (rows.map (·.traced))),
    .quoted (s.tree.rawSource callee), s.location id]

def callCode (s : Instrumentation) (id callee : NodeId) (called : Callee) (rows : List Passing) :
    Code :=
  (s.hookCall .callCheck (s.callArguments id callee called rows)).after called.preamble

end Instrumentation

structure SlotsLast (s : Instrumentation) (id callee : NodeId) (arguments : List NodeId)
    (called : Callee) (rows : List Passing) : Prop where
  passes : PassesInOrder s arguments rows
  once : (s.callCode id callee called rows).stored.Nodup
  actions : (s.callCode id callee called rows).actions =
    actionsAll (called.preamble ++ [called.function, called.receiver]) ++
      actionsAll (rows.flatMap (·.reads)) ++ actionsAll (rows.map (·.traced)) ++
      [.hook .callCheck (s.callArguments id callee called rows)]
  ahead : slotsAll (called.preamble ++ [called.function, called.receiver]) = [] ∧
    slotsAll (rows.flatMap (·.reads)) = []
  slots : slotsAll (rows.map (·.traced)) = List.range arguments.length
  /-- From the first slot to the call nothing but constants is evaluated. -/
  quiet : ∀ x ∈ actionsAll (rows.map (·.traced)), x.slot?.isSome = true ∨
    ∃ a ∈ arguments, (s.tree.kind (s.tree.unwrap a)).isConstant = true ∧ x = .run a

theorem call_slotsLast (h : Yields (Rule.call.apply id) s true s') :
    ∃ callee argumentList called rows, s.tree.child? id "function" = some callee ∧
      s.tree.child? id "arguments" = some argumentList ∧
      s.tree.Replaces id (.expression (s.callCode id callee called rows)) s'.tree ∧
      SlotsLast s id callee (s.tree.significantChildren argumentList) called rows := by
  rcases apply_ok h with ⟨hfalse, -⟩ | ⟨-, change, u, hchange, hreplaces, -⟩
  · cases hfalse
  have hstores := change_stores (by decide) hchange
  obtain ⟨hdraw, hnode, hform⟩ := change_ok (by decide) hchange (hostsIn_true s id)
  rw [hnode, hdraw.tree] at hreplaces
  generalize change.replacement = rep at *
  cases hform with
  | @call callee argumentList called reads traced hcallee hargumentList _ hcalled hform =>
    obtain ⟨rows, hall, rfl, rfl, hslots, hpassed⟩ := hform.rows List.drop_zero rfl
    have hpasses : PassesInOrder s (s.tree.significantChildren argumentList) rows :=
      ⟨hall, by simpa using hpassed⟩
    refine ⟨callee, argumentList, called, rows, hcallee, hargumentList, hreplaces, hpasses, ?_, ?_,
      ⟨hcalled.slots, hslots⟩, hpasses.slots, hpasses.quiet⟩
    · simpa [Replacement.codes, Code.storedAll, callCode, callArguments] using hstores.nodup
    · simp [callCode, callArguments, actions_after, hookCall, Code.actions, actionsAll,
        actionsAll_append]

def mixedArguments : Instrumentation :=
  let tree : Concrete :=
    .named "program" 0 16 none [
      .named "expression_statement" 0 16 none [
        .named "call_expression" 0 15 none [
          .named "identifier" 0 1 (some "function") [],
          .named "arguments" 1 15 (some "arguments") [
            .named "identifier" 2 3 none [],
            .named "number" 5 6 none [],
            .named "call_expression" 8 11 none [
              .named "identifier" 8 9 (some "function") [],
              .named "arguments" 9 11 (some "arguments") []],
            .named "identifier" 13 14 none []]]]]
  .start (.ofConcrete "f(x, 1, g(), y);".toList tree) {} {} "__rt" "t.js"

theorem call_slotsLast_mixedArguments : ∃ s s' callee argumentList called rows,
    Yields (Rule.call.apply 7) mixedArguments true s ∧ Yields (Rule.call.apply 2) s true s' ∧
      s.tree.significantChildren argumentList = [5, 6, 7, 10] ∧
      SlotsLast s 2 callee (s.tree.significantChildren argumentList) called rows := by
  have hinner : Yields (Rule.call.apply 7) mixedArguments true
      ((Rule.call.apply 7).run mixedArguments).2 := Yields.of_toOption (by decide +kernel)
  have houter : Yields (Rule.call.apply 2) ((Rule.call.apply 7).run mixedArguments).2 true _ :=
    Yields.of_toOption (by decide +kernel)
  obtain ⟨callee, argumentList, called, rows, -, hargumentList, -, hslots⟩ := call_slotsLast houter
  refine ⟨_, _, callee, argumentList, called, rows, hinner, houter, ?_, hslots⟩
  have hfour : ((Rule.call.apply 7).run mixedArguments).2.tree.child? 2 "arguments" = some 4 := by
    decide +kernel
  obtain rfl := Option.some.inj (hfour.symm.trans hargumentList)
  decide +kernel

end CoercionTrace
