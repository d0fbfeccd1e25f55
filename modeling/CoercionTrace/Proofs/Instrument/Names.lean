import CoercionTrace.Proofs.Instrument.Change
import CoercionTrace.Proofs.Names
import CoercionTrace.Proofs.Syntax.Parts

/-!
# Names in generated code

Main statement: the code that replaces a construct uses only temporaries drawn for it and the trace
variables of its operands (`Rewrites.supplied`).
-/

namespace CoercionTrace

/-- Why the code for a construct may have a part: text, the texts of nodes, temporaries drawn for it,
and the trace variables that its operands are kept under. -/
inductive Supplied (s : Instrumentation) (drawn : String → Prop) (id : NodeId) : Part → Prop
  | text (text : String) : Supplied s drawn id (.text text)
  | node (c : NodeId) : Supplied s drawn id (.node c)
  | temporary {name : String} : drawn name → Supplied s drawn id (.used .temporary name)
  | traceId {i : NodeId} {v name : String} :
      (∃ o, OperandOf s.tree id o ∧ i = s.tree.unwrap o) ∨ s.tree.child? id "name" = some i →
      s.identifierOrigin i = .ok (.call v name) → Supplied s drawn id (.used .traceId v)

variable {s : Instrumentation} {drawn : String → Prop} {id o : NodeId} {stub : Stub}

def Origin.AllSupplied (s : Instrumentation) (drawn : String → Prop) (id : NodeId)
    (origin : Origin) : Prop :=
  origin.scope.All (Supplied s drawn id) ∧ origin.slot.All (Supplied s drawn id)

structure Stub.AllSupplied (s : Instrumentation) (drawn : String → Prop) (id : NodeId)
    (stub : Stub) : Prop where
  preamble : ∀ c ∈ stub.preamble, c.All (Supplied s drawn id)
  value : stub.value.All (Supplied s drawn id)
  store : ∀ c, stub.store = some c → c.All (Supplied s drawn id)
  origin : stub.origin.AllSupplied s drawn id

theorem supplied_variable {name : String} (h : drawn name) :
    (Code.variable .temporary name).All (Supplied s drawn id) :=
  List.forall_mem_singleton.2 (.temporary h)

theorem supplied_splice (c : NodeId) (text : String) :
    (Code.splice c text).All (Supplied s drawn id) :=
  List.forall_mem_singleton.2 (.node c)

theorem supplied_operand (c : NodeId) : (s.operand c).All (Supplied s drawn id) := by
  unfold Instrumentation.operand SyntaxTree.operand
  dsimp only
  split
  · exact Code.all_sequence .text (List.forall_mem_singleton.2 (supplied_splice c _))
  · exact supplied_splice c _

theorem supplied_access {c : NodeId} {base key : String} (hbase : drawn base) (hkey : drawn key) :
    (Code.access c base key).All (Supplied s drawn id) := by
  refine List.forall_mem_cons.2 ⟨.temporary hbase, List.forall_mem_cons.2 ⟨.text _, ?_⟩⟩
  exact List.forall_mem_cons.2 ⟨.temporary hkey, List.forall_mem_singleton.2 (.text _)⟩

theorem supplied_untraced : Origin.untraced.AllSupplied s drawn id :=
  ⟨Code.all_null .text, Code.all_null .text⟩

theorem supplied_frame (slot : String) : (Origin.frame slot).AllSupplied s drawn id :=
  ⟨Code.all_null .text, Code.all_quoted .text _⟩

theorem supplied_location (c : NodeId) : (s.location c).All (Supplied s drawn id) :=
  Code.all_quoted .text _

theorem supplied_identifierOrigin {i : NodeId} {origin : Origin}
    (hi : (∃ o, OperandOf s.tree id o ∧ i = s.tree.unwrap o) ∨ s.tree.child? id "name" = some i)
    (h : s.identifierOrigin i = .ok origin) : origin.AllSupplied s drawn id := by
  cases origin with
  | untraced => exact supplied_untraced
  | frame slot => exact supplied_frame slot
  | returned => exact ⟨Code.all_null .text, Code.all_quoted .text _⟩
  | global hook name => exact ⟨Code.all_name .text _, Code.all_quoted .text _⟩
  | call v name => exact ⟨List.forall_mem_singleton.2 (.traceId hi h), Code.all_quoted .text _⟩
  | member base key =>
    unfold Instrumentation.identifierOrigin at h
    dsimp only at h
    split at h
    · cases h
    · split at h
      · cases h
      · split at h
        · cases h
        · split at h <;> cases h

theorem VariableStub.supplied (ho : OperandOf s.tree id o)
    (h : VariableStub s (s.tree.unwrap o) stub) : stub.AllSupplied s drawn id := by
  cases h with
  | mk _ horigin =>
    refine ⟨by simp, Code.all_name .text _, fun c hc => ?_,
      supplied_identifierOrigin (.inl ⟨o, ho, rfl⟩) horigin⟩
    cases hc
    exact Code.all_name .text _

theorem MemberStub.supplied {member : NodeId} (h : MemberStub s.tree drawn member stub) :
    stub.AllSupplied s drawn id := by
  cases h with
  | @mk object key base property _ hkey hbase hproperty =>
    have hkey : key.All (Supplied s drawn id) := by
      cases hkey with
      | property => exact Code.all_quoted .text _
      | index => exact supplied_operand _
    refine ⟨?_, supplied_access hbase hproperty, fun c hc => ?_,
      ⟨supplied_variable hbase, supplied_variable hproperty⟩⟩
    · refine List.forall_mem_cons.2 ⟨?_, List.forall_mem_singleton.2 ?_⟩
      · exact Code.all_store .text (supplied_variable hbase) (supplied_splice _ _)
      · exact Code.all_store .text (supplied_variable hproperty) hkey
    · cases hc
      exact supplied_access hbase hproperty

theorem OperandStub.supplied (ho : OperandOf s.tree id o) (h : OperandStub s drawn o stub) :
    stub.AllSupplied s drawn id := by
  cases h with
  | identifier h => exact h.supplied ho
  | member _ h => exact h.supplied
  | call =>
    refine ⟨by simp, supplied_splice _ _, fun c hc => (by cases hc), ?_⟩
    exact ⟨Code.all_null .text, Code.all_quoted .text _⟩
  | whole => exact ⟨by simp, supplied_operand o, fun c hc => (by cases hc),
      supplied_untraced⟩

theorem TargetStub.supplied (ho : OperandOf s.tree id o) (h : TargetStub s drawn o stub) :
    stub.AllSupplied s drawn id := by
  cases h with
  | identifier h => exact h.supplied ho
  | member _ h => exact h.supplied

theorem supplied_hookCall (method : HookMethod) {arguments : List Code}
    (h : ∀ c ∈ arguments, c.All (Supplied s drawn id)) :
    (s.hookCall method arguments).All (Supplied s drawn id) :=
  Code.all_hook .text h

theorem supplied_traced {value : Code} {target source : Origin} (c : NodeId)
    (hv : value.All (Supplied s drawn id)) (ht : target.AllSupplied s drawn id)
    (hs : source.AllSupplied s drawn id) :
    (s.traced c value target source).All (Supplied s drawn id) := by
  refine supplied_hookCall _ ?_
  simp only [List.forall_mem_cons]
  exact ⟨hv, ht.1, ht.2, hs.1, hs.2, supplied_location c, by simp⟩

theorem supplied_arithmeticCheck {operator left right : String} {leftOrigin rightOrigin : Origin}
    (c : NodeId) (hl : drawn left) (hr : drawn right) (hlo : leftOrigin.AllSupplied s drawn id)
    (hro : rightOrigin.AllSupplied s drawn id) :
    (s.arithmeticCheck c operator left right leftOrigin rightOrigin).All (Supplied s drawn id) := by
  refine supplied_hookCall _ ?_
  simp only [List.forall_mem_cons]
  exact ⟨Code.all_operation .text (supplied_variable hl) (supplied_variable hr),
    supplied_variable hl, supplied_variable hr, Code.all_quoted .text _, supplied_location c, hlo.1,
    hlo.2, hro.1, hro.2, by simp⟩

theorem Stub.AllSupplied.held {name : String} (h : stub.AllSupplied s drawn id) (hn : drawn name)
    (c : NodeId) :
    (∀ p ∈ (s.held c stub name).preamble, p.All (Supplied s drawn id)) ∧
      (s.held c stub name).value.All (Supplied s drawn id) ∧
      (s.held c stub name).origin.AllSupplied s drawn id := by
  obtain ⟨value, hpreamble, hvalue, hcases⟩ := held_cases s c stub name
  have hread : value.All (Supplied s drawn id) ∧ (s.held c stub name).origin.AllSupplied s drawn id := by
    rcases hcases with ⟨rfl, ho⟩ | ⟨rfl, ho⟩
    · exact ⟨h.value, ho ▸ h.origin⟩
    · refine ⟨supplied_hookCall _ ?_, ho ▸ supplied_frame name⟩
      simp only [List.forall_mem_cons]
      exact ⟨h.value, Code.all_null .text, Code.all_quoted .text _, h.origin.1, h.origin.2,
        supplied_location c, by simp⟩
  rw [hpreamble, hvalue]
  refine ⟨List.forall_mem_append.2 ⟨h.preamble, List.forall_mem_singleton.2 ?_⟩,
    supplied_variable hn, hread.2⟩
  exact Code.all_store .text (supplied_variable hn) hread.1

theorem supplied_passed (i : Nat) (argument : NodeId) (hv : stub.value.All (Supplied s drawn id))
    (ho : stub.origin.AllSupplied s drawn id) :
    (s.passed i argument stub).All (Supplied s drawn id) := by
  refine supplied_hookCall _ ?_
  simp only [List.forall_mem_cons]
  exact ⟨hv, Code.all_null .text, List.forall_mem_singleton.2 (.text _), ho.1, ho.2,
    supplied_location argument, by simp⟩

theorem ArgumentsForm.supplied {heldUntil : Option Nat} {i : Nat} {arguments : List NodeId}
    {reads passed : List Code} (h : ArgumentsForm s drawn heldUntil i arguments reads passed)
    (ho : ∀ o ∈ arguments, OperandOf s.tree id o) :
    (∀ c ∈ reads, c.All (Supplied s drawn id)) ∧ ∀ c ∈ passed, c.All (Supplied s drawn id) := by
  induction h with
  | nil => simp
  | @held i argument rest stub name reads passed _ hstub hname _ ih =>
    obtain ⟨hpreamble, hvalue, horigin⟩ :=
      (hstub.supplied (ho argument List.mem_cons_self)).held hname argument
    obtain ⟨hreads, hpassed⟩ := ih fun o hm => ho o (List.mem_cons_of_mem _ hm)
    exact ⟨List.forall_mem_append.2 ⟨hpreamble, hreads⟩,
      List.forall_mem_cons.2 ⟨supplied_passed i argument hvalue horigin, hpassed⟩⟩
  | @direct i argument rest stub reads passed _ hstub _ ih =>
    have hstub := hstub.supplied (ho argument List.mem_cons_self)
    obtain ⟨hreads, hpassed⟩ := ih fun o hm => ho o (List.mem_cons_of_mem _ hm)
    refine ⟨hreads, List.forall_mem_cons.2 ⟨?_, hpassed⟩⟩
    exact Code.all_after .text hstub.preamble (supplied_passed i argument hstub.value hstub.origin)

theorem Rewrites.supplied {r : Rule} {rep : Replacement} (h : Rewrites s drawn id r rep)
    (t : SyntaxTree) (c : NodeId) : ∀ p ∈ rep.parts t c, Supplied s drawn id p := by
  have hsemicolon : ∀ b : Bool, ∀ p ∈ (if b then [Part.text ";"] else []), Supplied s drawn id p := by
    intro b
    cases b
    · simp
    · exact List.forall_mem_singleton.2 (.text _)
  have hstatement : ∀ {leading trailing : Bool} {own : String},
      ∀ p ∈ (Replacement.statement leading own trailing).parts t c, Supplied s drawn id p := by
    intro leading trailing own
    exact List.forall_mem_append.2 ⟨List.forall_mem_append.2 ⟨hsemicolon leading,
      all_ownParts .text .node⟩, hsemicolon trailing⟩
  have hleft : ∀ {o}, s.tree.child? id "left" = some o → OperandOf s.tree id o := .field (by simp)
  have hright : ∀ {o}, s.tree.child? id "right" = some o → OperandOf s.tree id o := .field (by simp)
  cases h with
  | terminator => exact hstatement
  | unreturned => exact hstatement
  | membership =>
    refine supplied_hookCall _ ?_
    simp only [List.forall_mem_cons]
    exact ⟨supplied_operand _, supplied_operand _, by simp⟩
  | binary _ _ hl hr hlhs hrhs hleftName hrightName =>
    obtain ⟨hpl, -, hol⟩ := (hlhs.supplied (hleft hl)).held hleftName _
    obtain ⟨hpr, -, hor⟩ := (hrhs.supplied (hright hr)).held hrightName _
    refine Code.all_sequence .text (List.forall_mem_append.2 ⟨List.forall_mem_append.2 ⟨hpl, hpr⟩, ?_⟩)
    exact List.forall_mem_singleton.2 (supplied_arithmeticCheck id hleftName hrightName hol hor)
  | assignment hl hr htarget hstore hvalue =>
    have htarget := htarget.supplied (hleft hl)
    have hvalue := hvalue.supplied (hright hr)
    refine Code.all_sequence .text (List.forall_mem_append.2
      ⟨List.forall_mem_append.2 ⟨htarget.preamble, hvalue.preamble⟩, List.forall_mem_singleton.2 ?_⟩)
    exact Code.all_store .text (htarget.store _ hstore)
      (supplied_traced id hvalue.value htarget.origin hvalue.origin)
  | @compound left right target value store combined current operand operator hl hr htarget hstore
      hvalue hcurrent hoperand hcombined =>
    have htarget := htarget.supplied (hleft hl)
    obtain ⟨hpreamble, -, horigin⟩ := (hvalue.supplied (hright hr)).held hoperand right
    have hresult : combined.All (Supplied s drawn id) := by
      rcases hcombined with rfl | rfl
      · exact supplied_arithmeticCheck id hcurrent hoperand htarget.origin horigin
      · exact Code.all_operation .text (supplied_variable hcurrent) (supplied_variable hoperand)
    have hread := Code.all_store .text (supplied_variable hcurrent) htarget.value
    refine Code.all_sequence .text (List.forall_mem_append.2 ⟨List.forall_mem_append.2
      ⟨List.forall_mem_append.2 ⟨htarget.preamble, List.forall_mem_singleton.2 hread⟩, hpreamble⟩,
      List.forall_mem_singleton.2 ?_⟩)
    exact Code.all_store .text (htarget.store _ hstore)
      (supplied_traced id hresult htarget.origin horigin)
  | declarator hname hinit _ htarget hvalue =>
    have hvalue := hvalue.supplied (.field (by simp) hinit)
    refine Code.all_store .text (Code.all_name .text _) (Code.all_after .text hvalue.preamble ?_)
    exact supplied_traced id hvalue.value (supplied_identifierOrigin (.inr hname) htarget)
      hvalue.origin
  | returned hargument hvalue =>
    have hvalue := hvalue.supplied (.returned (List.mem_of_head? hargument))
    refine List.forall_mem_append.2 ⟨List.forall_mem_cons.2 ⟨.text _, ?_⟩,
      List.forall_mem_singleton.2 (.text _)⟩
    exact Code.all_after .text hvalue.preamble
      (supplied_traced id hvalue.value (supplied_frame _) hvalue.origin)
  | @call callee arguments called reads passed hcallee harguments hkind hcalled hform =>
    obtain ⟨hreads, hpassed⟩ := hform.supplied fun o ho => .argument harguments hkind ho
    have hparts : (∀ p ∈ called.preamble, p.All (Supplied s drawn id)) ∧
        called.function.All (Supplied s drawn id) ∧ called.receiver.All (Supplied s drawn id) := by
      cases hcalled with
      | whole => exact ⟨by simp, supplied_splice _ _, List.forall_mem_singleton.2 (.text _)⟩
      | @member stub _ hstub =>
        have hstub : stub.AllSupplied s drawn id := hstub.supplied
        exact ⟨hstub.preamble, hstub.value, hstub.origin.1⟩
    refine Code.all_after .text hparts.1 (supplied_hookCall _ ?_)
    simp only [List.forall_mem_cons]
    exact ⟨hparts.2.1, hparts.2.2, Code.all_after .text hreads (Code.all_list .text hpassed),
      Code.all_quoted .text _, supplied_location id, by simp⟩

end CoercionTrace
