import CoercionTrace.Proofs.Instrument.Success
import CoercionTrace.Proofs.Instrument.Terminated

/-!
# What later visits keep of a construct

A pass has done with everything below a node when it comes to the node, so what the node was replaced
by still reads as it did (`Rewrites.later`), however many nodes are visited after it
(`VisitForm.keepsBelow`).
-/

namespace CoercionTrace

open Instrumentation

variable {s s' : Instrumentation} {drawn drawn' : String → Prop} {id o : NodeId} {stub : Stub}
  {r : Rule} {rep : Replacement}

def Rule.operations : List Rule := [.binary, .assignment, .compound, .call]

namespace Fixed

variable (h : Fixed s s')
include h

theorem location : s'.location = s.location := by
  funext id
  simp only [Instrumentation.location, h.file, h.shape.line]

theorem held : s'.held = s.held := by
  funext id stub temporary
  simp only [Instrumentation.held, h.host?, h.isInstrumented, h.hookCall, h.location]

theorem arithmeticCheck : s'.arithmeticCheck = s.arithmeticCheck := by
  funext id operator left right leftOrigin rightOrigin
  simp only [Instrumentation.arithmeticCheck, h.hookCall, h.location]

theorem traced : s'.traced = s.traced := by
  funext id value target source
  simp only [Instrumentation.traced, h.hookCall, h.location]

theorem passed : s'.passed = s.passed := by
  funext i argument stub
  simp only [Instrumentation.passed, h.hookCall, h.location]

theorem isHeld : s'.isHeld = s.isHeld := by
  funext heldUntil i argument
  simp only [Instrumentation.isHeld, h.shape.kind, h.shape.unwrap]

theorem heldUntil? : s'.heldUntil? = s.heldUntil? := by
  funext arguments
  simp only [Instrumentation.heldUntil?, h.shape.isInert]

end Fixed

structure KeepsBelow (s s' : Instrumentation) (id : NodeId) : Prop where
  fixed : Fixed s s'
  text : ∀ o, s.tree.Below id o → id < o → s'.tree.text o = s.tree.text o
  replaced : ∀ o, s.tree.Below id o → id < o →
    (s'.tree.node o).isReplaced = (s.tree.node o).isReplaced

theorem SyntaxTree.Replaces.keepsBelow (h : s.tree.Replaces o rep s'.tree) (hfixed : Fixed s s')
    (hnot : ∀ d, s.tree.Below id d → id < d → ¬ s.tree.Below d o) : KeepsBelow s s' id where
  fixed := hfixed
  text d hd hlt := h.text (hnot d hd hlt)
  replaced d hd hlt := by
    rw [Node.isReplaced, Node.isReplaced, h.elsewhere]
    rintro rfl
    exact hnot _ hd hlt .refl

theorem VisitForm.keepsBelow {P : Option ScopeId → Prop} {rules : List Rule} {v : NodeId}
    (hw : s.tree.WellFormed) (h : VisitForm P rules s v s') (hnot : ¬ s.tree.Below id v)
    (hkind : s.tree.kind id ≠ .statementBlock) :
    KeepsBelow s s' id ∧ (s'.tree.node id).replacement = (s.tree.node id).replacement := by
  rcases h.apart hw hnot hkind with htree | ⟨c, rep, hreplaces, hc⟩
  · exact ⟨⟨h.fixed, fun _ _ _ => by rw [htree], fun _ _ _ => by rw [htree]⟩, by rw [htree]⟩
  · refine ⟨hreplaces.keepsBelow h.fixed fun d hd _ hdc => hc (hd.trans hdc), ?_⟩
    rw [hreplaces.elsewhere]
    rintro rfl
    exact hc .refl

namespace KeepsBelow

variable (h : KeepsBelow s s' id) (hbelow : s.tree.Below id o) (hlt : id < o)
include h hbelow hlt

theorem operand : s'.operand o = s.operand o := by
  unfold Instrumentation.operand SyntaxTree.operand
  rw [h.text o hbelow hlt, h.fixed.shape.kind]

theorem isCheckedCall : s'.tree.isCheckedCall o = s.tree.isCheckedCall o := by
  unfold SyntaxTree.isCheckedCall
  rw [h.replaced o hbelow hlt, h.fixed.shape.kind]

end KeepsBelow

theorem VariableStub.later (h : VariableStub s o stub) (hfixed : Fixed s s') :
    VariableStub s' o stub := by
  cases h with
  | mk hk ho =>
    rw [← hfixed.shape.rawSource]
    exact .mk (by rwa [hfixed.shape.kind]) (by rwa [hfixed.identifierOrigin])

section

variable (hw : s.tree.WellFormed) (hk : KeepsBelow s s' id) (hbelow : s.tree.Below id o)
  (hlt : id < o)
include hw hk hbelow hlt

theorem MemberStub.later (h : MemberStub s.tree drawn o stub) :
    MemberStub s'.tree drawn o stub := by
  have hchild : ∀ {c field}, s.tree.child? o field = some c → s.tree.Below id c ∧ id < c := by
    intro c field hc
    obtain ⟨hoc, hol⟩ := hw.below_child? hc
    exact ⟨hbelow.trans hoc, Nat.lt_trans hlt hol⟩
  have hshape := hk.fixed.shape
  cases h with
  | @mk object key _ _ ho hkey hbase hproperty =>
    obtain ⟨hob, hol⟩ := hchild ho
    rw [← hk.text object hob hol]
    refine .mk (by rwa [hshape.child?]) ?_ hbase hproperty
    cases hkey with
    | property hkind hp =>
      rw [← hshape.rawSource]
      exact .property (by rwa [hshape.kind]) (by rwa [hshape.child?])
    | @index i hkind hi =>
      obtain ⟨hib, hil⟩ := hchild hi
      have hoperand : s.tree.operand i = s'.tree.operand i := (hk.operand hib hil).symm
      rw [hoperand]
      exact .index (by rwa [hshape.kind]) (by rwa [hshape.child?])

omit hk in
theorem below_unwrap_of_below : s.tree.Below id (s.tree.unwrap o) ∧ id < s.tree.unwrap o :=
  ⟨hbelow.trans (s.tree.below_unwrap o),
    Nat.lt_of_lt_of_le hlt (hw.le_of_below (s.tree.below_unwrap o))⟩

theorem OperandStub.later (h : OperandStub s drawn o stub) : OperandStub s' drawn o stub := by
  obtain ⟨hub, hul⟩ := below_unwrap_of_below hw hbelow hlt
  have hshape := hk.fixed.shape
  cases h with
  | identifier hv => exact .identifier (hshape.unwrap ▸ hv.later hk.fixed)
  | member hm hs =>
    refine .member (by rwa [hshape.unwrap, hshape.isPlainMember]) ?_
    rw [hshape.unwrap]
    exact hs.later hw hk hub hul
  | call hc =>
    rw [← hk.text _ hub hul, ← hshape.unwrap]
    refine .call ?_
    rw [hshape.unwrap, hk.isCheckedCall hub hul]
    exact hc
  | whole hi hm hc =>
    rw [← hk.operand hbelow hlt]
    refine .whole (by rwa [hshape.unwrap, hshape.kind]) (by rwa [hshape.unwrap, hshape.isPlainMember]) ?_
    rw [hshape.unwrap, hk.isCheckedCall hub hul]
    exact hc

theorem TargetStub.later (h : TargetStub s drawn o stub) : TargetStub s' drawn o stub := by
  obtain ⟨hub, hul⟩ := below_unwrap_of_below hw hbelow hlt
  have hshape := hk.fixed.shape
  cases h with
  | identifier hv => exact .identifier (hshape.unwrap ▸ hv.later hk.fixed)
  | member hm hs =>
    refine .member (by rwa [hshape.unwrap, hshape.isPlainMember]) ?_
    rw [hshape.unwrap]
    exact hs.later hw hk hub hul

theorem CalleeForm.later {called : Callee} (h : CalleeForm s drawn o called) :
    CalleeForm s' drawn o called := by
  obtain ⟨hub, hul⟩ := below_unwrap_of_below hw hbelow hlt
  have hshape := hk.fixed.shape
  cases h with
  | whole hm =>
    rw [← hk.text o hbelow hlt]
    exact .whole (by rwa [hshape.unwrap, hshape.isPlainMember])
  | member hm hs =>
    refine .member (by rwa [hshape.unwrap, hshape.isPlainMember]) ?_
    rw [hshape.unwrap]
    exact hs.later hw hk hub hul

end

variable (hw : s.tree.WellFormed) (hk : KeepsBelow s s' id)
include hw hk

theorem ArgumentsForm.later {heldUntil : Option Nat} {i : Nat} {arguments : List NodeId}
    {reads passed : List Code} (h : ArgumentsForm s drawn heldUntil i arguments reads passed)
    (hbelow : ∀ a ∈ arguments, s.tree.Below id a ∧ id < a) (hd : ∀ name, drawn name → drawn' name) :
    ArgumentsForm s' drawn' heldUntil i arguments reads passed := by
  induction h with
  | nil => exact .nil
  | @held i argument rest stub name reads passed hheld hstub hname _ ih =>
    obtain ⟨hab, hal⟩ := hbelow argument List.mem_cons_self
    rw [← hk.fixed.held, ← hk.fixed.passed]
    exact .held (by rwa [hk.fixed.isHeld]) ((hstub.later hw hk hab hal).mono hd) (hd _ hname)
      (ih fun a ha => hbelow a (List.mem_cons_of_mem _ ha))
  | @direct i argument rest stub reads passed hheld hstub _ ih =>
    obtain ⟨hab, hal⟩ := hbelow argument List.mem_cons_self
    rw [← hk.fixed.passed]
    exact .direct (by rwa [hk.fixed.isHeld]) ((hstub.later hw hk hab hal).mono hd)
      (ih fun a ha => hbelow a (List.mem_cons_of_mem _ ha))

theorem Rewrites.later (h : Rewrites s drawn id r rep)
    (hr : r ∈ Rule.operations) (hd : ∀ name, drawn name → drawn' name) :
    Rewrites s' drawn' id r rep := by
  have hshape := hk.fixed.shape
  -- operands lie below the node, where a later visit changes nothing
  cases h with
  | terminator | declarator | returned | unreturned => simp [Rule.operations] at hr
  | @membership left right hin hleft hright =>
    obtain ⟨hlb, hll⟩ := hw.below_child? hleft
    obtain ⟨hrb, hrl⟩ := hw.below_child? hright
    rw [← hk.operand hlb hll, ← hk.operand hrb hrl, ← hk.fixed.hookCall]
    exact .membership (by rwa [hshape.operator]) (by rwa [hshape.child?]) (by rwa [hshape.child?])
  | @binary left right lhs rhs leftName rightName operator hop hchecked hleft hright hlhs hrhs hln hrn =>
    obtain ⟨hlb, hll⟩ := hw.below_child? hleft
    obtain ⟨hrb, hrl⟩ := hw.below_child? hright
    rw [← hk.fixed.held, ← hk.fixed.arithmeticCheck]
    exact .binary (by rwa [hshape.operator]) hchecked (by rwa [hshape.child?]) (by rwa [hshape.child?])
      ((hlhs.later hw hk hlb hll).mono hd) ((hrhs.later hw hk hrb hrl).mono hd) (hd _ hln) (hd _ hrn)
  | @assignment left right target value store hleft hright htarget hstore hvalue =>
    obtain ⟨hlb, hll⟩ := hw.below_child? hleft
    obtain ⟨hrb, hrl⟩ := hw.below_child? hright
    rw [← hk.fixed.traced]
    exact .assignment (by rwa [hshape.child?]) (by rwa [hshape.child?])
      ((htarget.later hw hk hlb hll).mono hd) hstore ((hvalue.later hw hk hrb hrl).mono hd)
  | @compound left right target value store combined current operand operator hleft hright htarget
      hstore hvalue hcurrent hoperand hcombined =>
    obtain ⟨hlb, hll⟩ := hw.below_child? hleft
    obtain ⟨hrb, hrl⟩ := hw.below_child? hright
    rw [← hk.fixed.held, ← hk.fixed.arithmeticCheck] at hcombined
    rw [← hk.fixed.held, ← hk.fixed.traced]
    exact .compound (by rwa [hshape.child?]) (by rwa [hshape.child?])
      ((htarget.later hw hk hlb hll).mono hd) hstore ((hvalue.later hw hk hrb hrl).mono hd)
      (hd _ hcurrent) (hd _ hoperand) hcombined
  | @call callee arguments called reads passed hcallee harguments hkind hcalled hform =>
    obtain ⟨hcb, hcl⟩ := hw.below_child? hcallee
    obtain ⟨hab, hal⟩ := hw.below_child? harguments
    rw [← hk.fixed.hookCall, ← hk.fixed.location, ← hshape.rawSource]
    refine .call (by rwa [hshape.child?]) (by rwa [hshape.child?]) (by rwa [hshape.kind])
      ((hcalled.later hw hk hcb hcl).mono hd) ?_
    rw [hk.fixed.heldUntil?, hshape.significantChildren]
    refine hform.later hw hk (fun a ha => ?_) hd
    have hmem := SyntaxTree.mem_of_significant ha
    exact ⟨hab.trans (.of_mem hmem), Nat.lt_trans hal (hw.child hmem).1⟩

end CoercionTrace
