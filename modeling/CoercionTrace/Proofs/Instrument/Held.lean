import CoercionTrace.Proofs.Instrument.Arguments
import CoercionTrace.Proofs.Instrument.Evaluation
import CoercionTrace.Proofs.Instrument.Flow

/-!
# Held results

What evaluating an operand, or reading it into a temporary, does to the return key. Main statements:
* an operand that is a checked call, and no other, is known by the return key (`OperandStub.flow`);
* read into a temporary, it stays so only where nothing announces a frame (`OperandStub.flow_held`);
* operands that are evaluated before their values are recorded keep the key unless something else makes
  a call in between (`keeps_iff`, `ArgumentsForm.flow`).
-/

namespace CoercionTrace

open Instrumentation InstrumentM

/-- Whether the code around a node keeps histories of its own: that of the program does, and that of
functions that announce their frames. -/
def Instrumentation.isFramed (s : Instrumentation) (id : NodeId) : Bool :=
  ((s.host? id).map s.isInstrumented).getD true

def SyntaxTree.SparesReturnSlot (t : SyntaxTree) : Prop :=
  ∀ i, t.kind i = .identifier → t.rawSource i ≠ returnSlotName

def Flow.AllOwn (f : Flow) : Prop := ∀ r ∈ f.readings, r.IsOwn

namespace Flow

variable {f g : Flow}

theorem allOwn_note (b : Bool) (value : Option Nat) : (f.note b value).AllOwn ↔
    f.AllOwn ∧ (b = true → value = some f.made) := by
  cases b with
  | false => simp [note]
  | true =>
    rw [AllOwn, note, if_pos rfl, List.forall_mem_append, List.forall_mem_singleton]
    simp [AllOwn, ReturnReading.IsOwn]

theorem allOwn_congr (h : g.readings = f.readings) : g.AllOwn ↔ f.AllOwn := by
  rw [AllOwn, h, AllOwn]

@[simp] theorem allOwn_ran (count : Nat) : (f.ran count).AllOwn ↔ f.AllOwn := .rfl

end Flow

variable {s s' : Instrumentation} {R : Running s.tree} {drawn : String → Prop} {id a own : NodeId}
  {stub : Stub} {x : String} {f g : Flow}

theorem SyntaxTree.pieces_of_not_member {t : SyntaxTree}
    (h : t.isPlainMember (t.unwrap a) = false) : t.pieces a = [t.unwrap a] := by
  simp [SyntaxTree.pieces, h]

theorem SyntaxTree.not_checkedCall {t : SyntaxTree} (h : t.kind a ≠ .callExpression) :
    t.isCheckedCall a = false :=
  Bool.eq_false_iff.2 fun hc => h (SyntaxTree.kind_of_isCheckedCall hc)

theorem SyntaxTree.not_member {t : SyntaxTree} (h : t.kind a ≠ .memberExpression)
    (h' : t.kind a ≠ .subscriptExpression) : t.isPlainMember a = false :=
  Bool.eq_false_iff.2 fun hm => (SyntaxTree.kind_of_isPlainMember hm).elim h h'

theorem isReturn_identifier (hs : s.tree.SparesReturnSlot) {i : NodeId} {o : Origin}
    (hk : s.tree.kind i = .identifier) (h : s.identifierOrigin i = .ok o) : o.isReturn = false := by
  unfold identifierOrigin at h
  dsimp only at h
  split at h
  · cases h
    rfl
  · split at h
    · cases h
      rfl
    · split at h
      · cases h
        simpa [Origin.isReturn, isReturnKey, Origin.scope, Origin.slot] using hs i hk
      · split at h
        · cases h
          rfl
        · cases h

theorem flow_operand (t : SyntaxTree) (i : NodeId) (E : Effects) (f : Flow) :
    ((t.operand i).flow E own f).2 = f.ran (E.text i) := by
  unfold SyntaxTree.operand
  dsimp only
  split <;> rfl

structure OperandFlow (s : Instrumentation) (E : Effects) (a : NodeId) (stub : Stub) (f : Flow)
    (r : Option Nat × Flow) : Prop where
  made : r.2.made = f.made + E.calls s.tree a
  readings : r.2.readings = f.readings
  isReturn : stub.origin.isReturn = s.tree.isCheckedCall (s.tree.unwrap a)
  isCallResult : stub.isCallResult = s.tree.isCheckedCall (s.tree.unwrap a)
  value : s.tree.isCheckedCall (s.tree.unwrap a) = true → r.1 = some r.2.made

theorem not_callResult (h : stub.origin.isReturn = false) : stub.isCallResult = false := by
  refine Bool.eq_false_iff.2 fun hc => ?_
  rw [Stub.isCallResult, beq_iff_eq] at hc
  rw [hc] at h
  cases h

theorem OperandFlow.plain {E : Effects} {r : Option Nat × Flow}
    (hmade : r.2.made = f.made + E.calls s.tree a) (hreadings : r.2.readings = f.readings)
    (hreturn : stub.origin.isReturn = false)
    (hcall : s.tree.isCheckedCall (s.tree.unwrap a) = false) : OperandFlow s E a stub f r where
  made := hmade
  readings := hreadings
  isReturn := hreturn.trans hcall.symm
  isCallResult := (not_callResult hreturn).trans hcall.symm
  value hc := by
    rw [hcall] at hc
    cases hc

theorem Effects.calls_identifier (E : Effects) {t : SyntaxTree}
    (h : t.kind (t.unwrap a) = .identifier) : E.calls t a = E.read (t.unwrap a) := if_pos h

theorem Effects.calls_member (E : Effects) {t : SyntaxTree} (h : t.isPlainMember (t.unwrap a) = true) :
    E.calls t a = ((t.pieces a).map E.text).sum + E.read (t.unwrap a) := by
  have hkind : t.kind (t.unwrap a) ≠ .identifier := by
    rcases SyntaxTree.kind_of_isPlainMember h with e | e <;> rw [e] <;> decide
  rw [calls, if_neg hkind, if_pos h]

theorem Effects.calls_whole (E : Effects) {t : SyntaxTree} (h : t.kind (t.unwrap a) ≠ .identifier)
    (hm : t.isPlainMember (t.unwrap a) = false) : E.calls t a = E.text (t.unwrap a) := by
  rw [calls, if_neg h, hm, SyntaxTree.pieces_of_not_member hm]
  simp

theorem Effects.calls_call (E : Effects) {t : SyntaxTree} (h : t.isCheckedCall (t.unwrap a) = true) :
    E.calls t a = E.text (t.unwrap a) := by
  have hkind := SyntaxTree.kind_of_isCheckedCall h
  exact E.calls_whole (by rw [hkind]; decide)
    (SyntaxTree.not_member (by rw [hkind]; decide) (by rw [hkind]; decide))

theorem OperandStub.flow (hs : s.tree.SparesReturnSlot) (h : OperandStub s drawn a stub)
    (R : Running s.tree) (own : NodeId) (f : Flow) :
    OperandFlow s R.toEffects a stub f
      (stub.value.flow R.toEffects own (Code.flowAll R.toEffects own stub.preamble f).2) := by
  cases h with
  | identifier h =>
    cases h with
    | mk hk ho =>
      refine .plain ?_ rfl (isReturn_identifier hs hk ho)
        (SyntaxTree.not_checkedCall (by rw [hk]; decide))
      rw [R.calls_identifier hk]
      rfl
  | member hm h =>
    have hcall : s.tree.isCheckedCall (s.tree.unwrap a) = false := by
      refine SyntaxTree.not_checkedCall fun hk => ?_
      rcases SyntaxTree.kind_of_isPlainMember hm with e | e <;> exact absurd (hk.symm.trans e) (by decide)
    have hcalls := R.calls_member hm
    obtain ⟨object, ho, hpieces⟩ := SyntaxTree.pieces_of_member hm
    cases h with
    | mk ho' hkey _ _ =>
      cases ho.symm.trans ho'
      rcases hpieces with ⟨hk, e⟩ | ⟨hk, index, hi, e⟩
      · cases hkey with
        | property =>
          refine .plain ?_ rfl rfl hcall
          simp [hcalls, e, Code.flowAll, Code.flow, Effects.stores, Nat.add_assoc]
        | index hn => exact absurd hk hn
      · cases hkey with
        | property hk' => exact absurd hk' hk
        | index _ hi' =>
          cases hi.symm.trans hi'
          refine .plain ?_ ?_ rfl hcall
          · simp [hcalls, e, Code.flowAll, Code.flow, Effects.stores, flow_operand, Nat.add_assoc]
          · simp [Code.flowAll, Code.flow, flow_operand]
  | call hc =>
    refine ⟨?_, rfl, hc.symm, hc.symm, fun _ => if_pos (R.checked hc).2⟩
    rw [R.calls_call hc]
    rfl
  | whole hk hm hc =>
    refine .plain ?_ ?_ rfl hc
    · rw [R.calls_whole hk hm, R.unwrap]
      simp [Code.flowAll, Instrumentation.operand, flow_operand]
    · simp [Code.flowAll, Instrumentation.operand, flow_operand]

theorem OperandFlow.allOwn_traced {E : Effects} {r : Option Nat × Flow}
    (h : OperandFlow s E a stub f r) : (r.2.note stub.origin.isReturn r.1).AllOwn ↔ f.AllOwn := by
  rw [Flow.allOwn_note, Flow.allOwn_congr h.readings, h.isReturn]
  exact and_iff_left h.value

def Instrumentation.IsLoose (s : Instrumentation) (a : NodeId) : Prop :=
  s.isFramed a = false ∧ s.tree.isCheckedCall (s.tree.unwrap a) = true

structure HeldFlow (s : Instrumentation) (E : Effects) (a : NodeId) (x : String) (origin : Origin)
    (f g : Flow) : Prop where
  made : g.made = f.made + E.calls s.tree a
  own : g.AllOwn ↔ f.AllOwn
  isReturn : origin.isReturn = true ↔ s.IsLoose a
  held : origin.isReturn = true → g.held x = some g.made

theorem HeldFlow.own_iff {E : Effects} {origin : Origin} {u : Flow} (h : HeldFlow s E a x origin f g)
    (hx : u.held x = g.held x) : (origin.isReturn = true → u.held x = some u.made) ↔
      (s.IsLoose a → f.made + E.calls s.tree a = u.made) := by
  rw [h.isReturn]
  refine forall_congr' fun hloose => ?_
  rw [hx, h.held (h.isReturn.2 hloose), h.made, Option.some.injEq]

theorem OperandStub.flow_held (hs : s.tree.SparesReturnSlot) (h : OperandStub s drawn a stub)
    (hx : x ≠ returnSlotName) (R : Running s.tree) (own : NodeId) (f : Flow) :
    HeldFlow s R.toEffects a x (s.held a stub x).origin f
      (Code.flowAll R.toEffects own (s.held a stub x).preamble f).2 := by
  have hflow := h.flow hs R own f
  unfold Instrumentation.held
  dsimp only
  split
  · next htraced =>
    rw [Bool.and_eq_true] at htraced
    have hframed : s.isFramed a = true := htraced.2
    have hframe : (Origin.frame x).isReturn = false := by
      simpa [Origin.isReturn, isReturnKey, Origin.scope, Origin.slot] using hx
    rw [Code.flowAll_concat]
    show HeldFlow s R.toEffects a x (.frame x) f (Code.flow R.toEffects own
      (.store (.variable .temporary x) (s.traced a stub.value (.frame x) stub.origin)) _).2
    rw [Code.flow, flow_traced]
    refine ⟨?_, ?_, ?_, fun hr => ?_⟩
    · rw [Flow.keep_made, Flow.ran_made, Flow.note_made, hflow.made]
      rfl
    · rw [Flow.allOwn_congr (Flow.keep_readings _ _ _), Flow.allOwn_ran, hflow.allOwn_traced]
    · simp [hframe, IsLoose, hframed]
    · rw [hframe] at hr
      cases hr
  · next hplain =>
    rw [Code.flowAll_concat, Code.flow]
    have hreturn : stub.origin.isReturn = true ↔ s.IsLoose a := by
      rw [hflow.isReturn, IsLoose]
      refine ⟨fun hc => ⟨?_, hc⟩, And.right⟩
      rw [hflow.isCallResult, hc, Bool.true_and, Bool.not_eq_true] at hplain
      exact hplain
    refine ⟨?_, ?_, hreturn, fun hr => ?_⟩
    · rw [Flow.keep_made, Flow.ran_made, hflow.made]
      rfl
    · exact Flow.allOwn_congr ((Flow.keep_readings _ _ _).trans hflow.readings)
    · rw [Flow.keep_held_self, Flow.keep_made, hflow.value (hflow.isReturn ▸ hr)]
      rfl

theorem held_value (s : Instrumentation) (a : NodeId) (stub : Stub) (x : String) :
    (s.held a stub x).value = .variable .temporary x := by
  obtain ⟨_, -, hvalue, -⟩ := held_cases s a stub x
  exact hvalue

def Effects.callsOf (E : Effects) (t : SyntaxTree) (operands : List NodeId) : Nat :=
  (operands.map (E.calls t)).sum

/-- Among operands that are evaluated one after the other, from a time at which `before` calls were made,
each result with the return key is that of call `last`. -/
def Keeps (s : Instrumentation) (E : Effects) (last : Nat) : List NodeId → Nat → Prop
  | [], _ => True
  | a :: rest, before => (s.IsLoose a → before + E.calls s.tree a = last) ∧
    Keeps s E last rest (before + E.calls s.tree a)

/-- The key of a call is taken over by whatever is called between its result and the reading, be it by
later operands or behind them all. -/
theorem keeps_iff {E : Effects} {operands : List NodeId} (before more : Nat) :
    Keeps s E (before + E.callsOf s.tree operands + more) operands before ↔
      ∀ front a rest, operands = front ++ a :: rest → s.IsLoose a →
        (∀ b ∈ rest, E.calls s.tree b = 0) ∧ more = 0 := by
  induction operands generalizing before with
  | nil => simp [Keeps]
  | cons a rest ih =>
    have hsum : before + E.callsOf s.tree (a :: rest) + more =
        before + E.calls s.tree a + E.callsOf s.tree rest + more := by
      simp [Effects.callsOf, Nat.add_assoc]
    have hlast : before + E.calls s.tree a =
        before + E.calls s.tree a + E.callsOf s.tree rest + more ↔
          (∀ b ∈ rest, E.calls s.tree b = 0) ∧ more = 0 := by
      have hzero : E.callsOf s.tree rest = 0 ↔ ∀ b ∈ rest, E.calls s.tree b = 0 := by
        simp [Effects.callsOf, List.sum_eq_zero_iff_forall_eq_nat]
      rw [← hzero]
      omega
    rw [hsum, Keeps, ih, hlast]
    constructor
    · rintro ⟨hfirst, hrest⟩ front b later ho hloose
      cases front with
      | nil =>
        obtain ⟨rfl, rfl⟩ := List.cons.inj ho
        exact hfirst hloose
      | cons _ front => exact hrest front b later (List.cons.inj ho).2 hloose
    · intro h
      exact ⟨h [] a rest rfl, fun front b later ho => h (a :: front) b later (by rw [ho]; rfl)⟩

theorem SyntaxTree.isCheckedCall_of_isInert {t : SyntaxTree} (h : t.isInert a = true) :
    t.isCheckedCall (t.unwrap a) = false := by
  refine SyntaxTree.not_checkedCall fun hk => ?_
  rw [SyntaxTree.isInert, hk] at h
  cases h

structure InertFlow (s : Instrumentation) (E : Effects) (d a : NodeId) (c : Code) : Prop where
  made : ∀ f, (c.flow E d f).2.made = f.made + E.calls s.tree a
  held : ∀ f x, (c.flow E d f).2.held x = f.held x
  own : ∀ f, (c.flow E d f).2.AllOwn ↔ f.AllOwn

theorem OperandStub.flow_inert (hs : s.tree.SparesReturnSlot) (h : OperandStub s drawn a stub)
    (hinert : s.tree.isInert a = true) (R : Running s.tree) (own : NodeId) (i : Nat) :
    InertFlow s R.toEffects own a (stub.sequence (s.passed i a stub)) := by
  have hflow := h.flow hs R own
  have hreturn := (hflow ⟨0, fun _ => none, []⟩).isReturn.trans
    (SyntaxTree.isCheckedCall_of_isInert hinert)
  constructor <;> intro f <;> rw [Stub.sequence, Code.flow_after, flow_passed, hreturn]
  · exact (hflow f).made
  · intro x
    have hkind : ∀ k, s.tree.kind (s.tree.unwrap a) = k →
        (k == .identifier || k.isConstant) = true := by
      rintro k rfl
      exact hinert
    cases h with
    | identifier h =>
      cases h
      rfl
    | member hm _ =>
      rcases SyntaxTree.kind_of_isPlainMember hm with e | e <;> exact absurd (hkind _ e) (by decide)
    | call hc => exact absurd (hkind _ (SyntaxTree.kind_of_isCheckedCall hc)) (by decide)
    | whole =>
      change ((s.tree.operand a).flow R.toEffects own f).2.held x = f.held x
      rw [flow_operand]
      rfl
  · exact Flow.allOwn_congr (hflow f).readings

theorem calls_constant (R : Running s.tree)
    (h : (s.tree.kind (s.tree.unwrap a)).isConstant = true) : R.calls s.tree a = 0 := by
  have hkind : ∀ {k}, s.tree.kind (s.tree.unwrap a) = k → k.isConstant = true := fun e => e ▸ h
  rw [R.calls_whole (fun e => absurd (hkind e) (by decide)) (SyntaxTree.not_member
    (fun e => absurd (hkind e) (by decide)) fun e => absurd (hkind e) (by decide)), R.constant h]

/-- Arguments up to the last one that runs code. The others are passed when no result waits any more. -/
def SyntaxTree.upToLive (t : SyntaxTree) : List NodeId → List NodeId
  | [] => []
  | a :: rest => if (a :: rest).all t.isInert then [] else a :: t.upToLive rest

theorem SyntaxTree.upToLive_of_inert {t : SyntaxTree} {arguments : List NodeId}
    (h : ∀ b ∈ arguments, t.isInert b = true) : t.upToLive arguments = [] := by
  cases arguments with
  | nil => rfl
  | cons a rest => exact if_pos (List.all_eq_true.2 h)

theorem SyntaxTree.upToLive_of_live {t : SyntaxTree} {rest : List NodeId} {b : NodeId}
    (hb : b ∈ a :: rest) (hlive : t.isInert b = false) :
    t.upToLive (a :: rest) = a :: t.upToLive rest := by
  refine if_neg fun hall => ?_
  rw [List.all_eq_true.1 hall b hb] at hlive
  cases hlive

theorem SyntaxTree.upToLive_sublist (t : SyntaxTree) (arguments : List NodeId) :
    (t.upToLive arguments).Sublist arguments := by
  induction arguments with
  | nil => exact .slnil
  | cons a rest ih =>
    rw [upToLive]
    split
    · exact List.nil_sublist _
    · exact ih.cons_cons a

theorem exists_live_of_isHeld {all rest : List NodeId} {i : Nat} (hrest : all.drop i = a :: rest)
    (h : s.isHeld (s.heldUntil? all) i a = true) : ∃ b ∈ a :: rest, s.tree.isInert b = false := by
  rw [isHeld, Bool.and_eq_true] at h
  cases hlast : s.heldUntil? all with
  | none => simp [hlast] at h
  | some last =>
    have hle : i ≤ last := by simpa [hlast] using h.1
    have hlive := List.find?_some hlast
    cases hb : all[last]? with
    | none => simp [hb] at hlive
    | some b =>
      refine ⟨b, ?_, by simpa [hb] using hlive⟩
      have hdrop : (all.drop i)[last - i]? = some b := by
        rw [List.getElem?_drop, Nat.add_sub_cancel' hle, hb]
      exact hrest ▸ List.mem_of_getElem? hdrop

structure ArgumentsFlow (s : Instrumentation) (E : Effects) (d : NodeId) (arguments : List NodeId)
    (reads passed : List Code) (f : Flow) : Prop where
  made : (Code.flowAll E d reads f).2.made = f.made + E.callsOf s.tree (s.tree.upToLive arguments)
  own : (Code.flowAll E d reads f).2.AllOwn ↔ f.AllOwn
  passed : ∀ g : Flow,
    (∀ x ∈ Code.storedAll reads, g.held x = (Code.flowAll E d reads f).2.held x) →
    ((Code.flowAll E d passed g).2.AllOwn ↔
      g.AllOwn ∧ Keeps s E g.made (s.tree.upToLive arguments) f.made)

namespace ArgumentsFlow

variable {E : Effects} {d b : NodeId} {rest : List NodeId} {reads passed : List Code} {i : Nat}

theorem held (hb : b ∈ a :: rest) (hlive : s.tree.isInert b = false)
    (hread : HeldFlow s E a x (s.held a stub x).origin f
      (Code.flowAll E d (s.held a stub x).preamble f).2)
    (hfresh : x ∉ Code.storedAll reads)
    (h : ArgumentsFlow s E d rest reads passed (Code.flowAll E d (s.held a stub x).preamble f).2) :
    ArgumentsFlow s E d (a :: rest) ((s.held a stub x).preamble ++ reads)
      (s.passed i a (s.held a stub x) :: passed) f := by
  refine ⟨?_, ?_, fun g hg => ?_⟩
  · rw [Code.flowAll_append, SyntaxTree.upToLive_of_live hb hlive, h.made, hread.made,
      Effects.callsOf, Effects.callsOf, List.map_cons, List.sum_cons, Nat.add_assoc]
  · rw [Code.flowAll_append]
    exact h.own.trans hread.own
  · rw [Code.flowAll_append] at hg
    rw [SyntaxTree.upToLive_of_live hb hlive]
    -- the temporary is stored once, so what it holds is still there when its value is recorded
    have hvalue : g.held x = (Code.flowAll E d (s.held a stub x).preamble f).2.held x := by
      rw [hg x (by simp [Code.storedAll_append, stored_held]), Code.flowAll_held _ _ reads _ hfresh]
    rw [Code.flowAll, flow_passed, held_value, Code.flow]
    dsimp only
    rw [h.passed _ fun y hy => ?_]
    · rw [Flow.allOwn_note, Flow.note_made, and_assoc, hread.own_iff hvalue, hread.made]
      rfl
    · rw [Flow.note_held]
      exact hg y (by simp [Code.storedAll_append, hy])

theorem inert (hall : ∀ b ∈ a :: rest, s.tree.isInert b = true)
    (hself : InertFlow s E d a (stub.sequence (s.passed i a stub)))
    (h : ArgumentsFlow s E d rest reads passed f) :
    ArgumentsFlow s E d (a :: rest) reads (stub.sequence (s.passed i a stub) :: passed) f := by
  have hnone := SyntaxTree.upToLive_of_inert fun b hb => hall b (List.mem_cons_of_mem _ hb)
  refine ⟨?_, h.own, fun g hg => ?_⟩
  · rw [h.made, hnone, SyntaxTree.upToLive_of_inert hall]
  · rw [SyntaxTree.upToLive_of_inert hall, Code.flowAll, h.passed _ fun x hx => (hself.held g x).trans (hg x hx), hself.own, hnone]
    rfl

theorem constant (hb : b ∈ a :: rest) (hlive : s.tree.isInert b = false)
    (hinert : s.tree.isInert a = true) (hnone : E.calls s.tree a = 0)
    (hself : InertFlow s E d a (stub.sequence (s.passed i a stub)))
    (h : ArgumentsFlow s E d rest reads passed f) :
    ArgumentsFlow s E d (a :: rest) reads (stub.sequence (s.passed i a stub) :: passed) f := by
  refine ⟨?_, h.own, fun g hg => ?_⟩
  · rw [SyntaxTree.upToLive_of_live hb hlive, h.made, Effects.callsOf, Effects.callsOf, List.map_cons,
      List.sum_cons, hnone, Nat.zero_add]
  · rw [SyntaxTree.upToLive_of_live hb hlive, Code.flowAll,
      h.passed _ fun x hx => (hself.held g x).trans (hg x hx), hself.own, hself.made, hnone, Keeps,
      hnone]
    refine and_congr_right fun _ => (and_iff_right fun hloose => ?_).symm
    have hcall := hloose.2
    rw [SyntaxTree.isCheckedCall_of_isInert hinert] at hcall
    cases hcall

end ArgumentsFlow

theorem ArgumentsForm.flow {heldUntil : Option Nat} {i : Nat} {all arguments : List NodeId}
    {reads passed : List Code} (hs : s.tree.SparesReturnSlot)
    (h : ArgumentsForm s drawn heldUntil i arguments reads passed) (hrest : all.drop i = arguments)
    (hheld : heldUntil = s.heldUntil? all)
    (hnodup : (Code.storedAll reads).Nodup) (hmade : ∀ x ∈ Code.storedAll reads, x ≠ returnSlotName)
    (R : Running s.tree) (own : NodeId) (f : Flow) :
    ArgumentsFlow s R.toEffects own arguments reads passed f := by
  induction h generalizing f with
  | nil => exact ⟨rfl, .rfl, fun g _ => (and_iff_left trivial).symm⟩
  | @held i a rest stub x reads passed hisHeld hstub _ _ ih =>
    rw [Code.storedAll_append, stored_held] at hnodup hmade
    obtain ⟨-, hnodup, hdisjoint⟩ := List.nodup_append.1 hnodup
    have hread := hstub.flow_held hs (hmade x (by simp)) R own f
    obtain ⟨b, hb, hlive⟩ := exists_live_of_isHeld hrest (hheld ▸ hisHeld)
    exact .held hb hlive hread (fun hm => hdisjoint x (by simp) x hm rfl)
      (ih (drop_succ_of_drop hrest) hnodup
        (fun y hy => hmade y (List.mem_append_right _ hy)) _)
  | @direct i a rest stub reads passed hnot hstub _ ih =>
    have ha := getElem?_of_drop hrest
    have hdirect := constant_or_last (hheld ▸ hnot)
    have hinert : s.tree.isInert a = true := by
      rcases hdirect with hconstant | hlast
      · simp [SyntaxTree.isInert, hconstant]
      · exact hlast i a (Nat.le_refl i) ha
    have hself := hstub.flow_inert hs hinert R own i
    have hpassed := ih (drop_succ_of_drop hrest) hnodup hmade f
    by_cases hall : ∀ b ∈ a :: rest, s.tree.isInert b = true
    · exact hpassed.inert hall hself
    · obtain ⟨b, hb, hlive⟩ : ∃ b ∈ a :: rest, s.tree.isInert b = false := by
        simpa only [not_forall, Bool.not_eq_true, exists_prop] using hall
      have hconstant := hdirect.resolve_right fun hlast => hall fun b hb => by
        rw [← hrest] at hb
        obtain ⟨j, hj⟩ := List.mem_iff_getElem?.1 hb
        rw [List.getElem?_drop] at hj
        exact hlast _ b (Nat.le_add_right i j) hj
      exact hpassed.constant hb hlive hinert (calls_constant R hconstant) hself

end CoercionTrace
