import CoercionTrace.Proofs.Instrument.Covered
import CoercionTrace.Proofs.Instrument.Separate
import CoercionTrace.Proofs.Syntax.Chains

/-!
# Chains that may stop short

A chain of member accesses and calls evaluates nothing behind an optional link that finds nothing, so
what stands behind the link must not be read ahead of it. Main statement: a pass leaves a chain in one
piece from its top down to its last link, and treats what is below that link like any other code
(`pass_keepsChains`).
-/

namespace CoercionTrace

open Instrumentation InstrumentM

def SyntaxTree.SparesChains (t : SyntaxTree) : Prop :=
  ∀ d, t.MayStopShort d → (t.node d).replacement = none

variable {P : Option ScopeId → Prop} {rules : List Rule} {s s' s₀ : Instrumentation}
  {drawn : String → Prop} {done : List NodeId} {stub : Stub} {r : Rule} {rep : Replacement}
  {id o c d x : NodeId}

section

variable (hw : s.tree.WellFormed)
include hw

theorem OperandStub.eq_whole (hspares : s.tree.SparesChains) (h : OperandStub s drawn o stub)
    (hm : s.tree.MayStopShort (s.tree.unwrap o)) :
    stub = { value := s.operand o, origin := .untraced } := by
  cases h with
  | identifier hv =>
    cases hv with
    | mk hk _ => exact absurd hk (hm.kind_ne rfl)
  | member hplain _ => exact absurd hplain (by simp [hm.isPlainMember hw])
  | call hc =>
    simp [SyntaxTree.isCheckedCall, Node.isReplaced, hspares _ hm] at hc
  | whole => rfl

theorem TargetStub.not_mayStopShort (h : TargetStub s drawn o stub) :
    ¬ s.tree.MayStopShort (s.tree.unwrap o) := by
  intro hm
  cases h with
  | identifier hv =>
    cases hv with
    | mk hk _ => exact hm.kind_ne rfl hk
  | member hplain _ => exact absurd hplain (by simp [hm.isPlainMember hw])

theorem operandStub_whole (hspares : s.tree.SparesChains)
    (hm : s.tree.MayStopShort (s.tree.unwrap o)) :
    Yields (operandStub o) s { value := s.operand o, origin := .untraced } s := by
  refine Yields.get_bind_iff.2 ?_
  dsimp only
  rcases hm.kind with hkind | hkind | hkind
  · rw [hkind]
    dsimp only
    rw [if_neg (by simp [hm.isPlainMember hw])]
    exact Yields.pure_iff.2 ⟨rfl, rfl⟩
  · rw [hkind]
    dsimp only
    rw [if_neg (by simp [hm.isPlainMember hw])]
    exact Yields.pure_iff.2 ⟨rfl, rfl⟩
  · rw [hkind]
    dsimp only
    rw [if_neg (by simp [Node.isReplaced, hspares _ hm])]
    exact Yields.pure_iff.2 ⟨rfl, rfl⟩

theorem targetStub_none_of_mayStopShort (hm : s.tree.MayStopShort (s.tree.unwrap o)) :
    Yields (targetStub o) s none s := by
  refine Yields.get_bind_iff.2 ?_
  dsimp only
  rcases hm.kind with hkind | hkind | hkind
  · rw [hkind]
    dsimp only
    rw [if_neg (by simp [hm.isPlainMember hw])]
    exact Yields.pure_iff.2 ⟨rfl, rfl⟩
  · rw [hkind]
    dsimp only
    rw [if_neg (by simp [hm.isPlainMember hw])]
    exact Yields.pure_iff.2 ⟨rfl, rfl⟩
  · rw [hkind]
    exact Yields.pure_iff.2 ⟨rfl, rfl⟩

theorem OperandStub.splices_whole (hspares : s.tree.SparesChains) (h : OperandStub s drawn o stub)
    (hm : s.tree.MayStopShort (s.tree.unwrap o)) : stub.splices = [o] := by
  rw [h.eq_whole hw hspares hm]
  exact s.spliced_operand o

theorem ArgumentsForm.splices_whole (hspares : s.tree.SparesChains) {heldUntil : Option Nat} {i : Nat}
    {arguments : List NodeId} {reads passed : List Code}
    (h : ArgumentsForm s drawn heldUntil i arguments reads passed) (ho : o ∈ arguments)
    (hm : s.tree.MayStopShort (s.tree.unwrap o)) :
    o ∈ Code.splicedAll reads ++ Code.splicedAll passed := by
  induction h with
  | nil => cases ho
  | @held i argument rest stub name reads passed _ hstub _ _ ih =>
    obtain ⟨hpreamble, hvalue⟩ := splices_held s argument stub name
    rw [Code.splicedAll_append, hpreamble, Code.splicedAll, s.spliced_passed, hvalue, List.nil_append,
      List.append_assoc]
    rcases List.mem_cons.1 ho with rfl | ho
    · simp [hstub.splices_whole hw hspares hm]
    · exact List.mem_append_right _ (ih ho)
  | @direct i argument rest stub reads passed _ hstub _ ih =>
    rw [Code.splicedAll, stub.spliced_sequence, s.spliced_passed, ← Stub.splices]
    rcases List.mem_cons.1 ho with rfl | ho
    · simp [hstub.splices_whole hw hspares hm]
    · rcases List.mem_append.1 (ih ho) with h | h <;> simp [h]

end

section

variable (hw : s.tree.WellFormed) (h : Rewrites s drawn x r rep)
include hw h

theorem Rewrites.whole (hspares : s.tree.SparesChains) (ho : o ∈ r.operands s.tree x)
    (hm : s.tree.MayStopShort (s.tree.unwrap o)) : o ∈ rep.takenOver s.tree x := by
  cases h with
  | terminator => cases ho
  | unreturned =>
    rw [Replacement.takenOver_statement]
    exact SyntaxTree.mem_of_significant (List.mem_of_head? (Option.mem_toList.1 ho))
  | membership _ hleft hright =>
    simpa [Rule.operands, hleft, hright, Code.splicedAll, s.spliced_operand] using ho
  | @binary left right lhs rhs leftName rightName _ _ _ hleft hright hlhs hrhs =>
    have ho : o = left ∨ o = right := by simpa [Rule.operands, hleft, hright] using ho
    rcases ho with rfl | rfl
    · simp [Code.spliced, Code.splicedAll_append, splices_held, hlhs.splices_whole hw hspares hm]
    · simp [Code.spliced, Code.splicedAll_append, splices_held, hrhs.splices_whole hw hspares hm]
  | @assignment left right target value store hleft hright htarget hstore hvalue =>
    have ho : o = left ∨ o = right := by simpa [Rule.operands, hleft, hright] using ho
    rcases ho with rfl | rfl
    · exact absurd hm (htarget.not_mayStopShort hw)
    · obtain rfl := hvalue.eq_whole hw hspares hm
      simp [Code.spliced, Code.splicedAll, Code.splicedAll_append, s.spliced_operand]
  | @compound left right target value store combined current operand operator hleft hright htarget
      hstore hvalue _ _ hcombined =>
    have ho : o = left ∨ o = right := by simpa [Rule.operands, hleft, hright] using ho
    rcases ho with rfl | rfl
    · exact absurd hm (htarget.not_mayStopShort hw)
    · simp [Code.spliced, Code.splicedAll, Code.splicedAll_append, splices_held,
        hvalue.splices_whole hw hspares hm]
  | @declarator name init target value hname hinit _ _ hvalue =>
    obtain rfl : o = init := by simpa [Rule.operands, hinit] using ho
    obtain rfl := hvalue.eq_whole hw hspares hm
    simp [Code.spliced, Stub.spliced_sequence, s.spliced_operand]
  | @returned argument value hargument hvalue =>
    obtain rfl : o = argument := by simpa [Rule.operands, hargument] using ho
    obtain rfl := hvalue.eq_whole hw hspares hm
    simp [Stub.spliced_sequence, s.spliced_operand]
  | @call callee arguments called reads passed hcallee harguments hkind hcalled hform =>
    have ho : o = callee ∨ o ∈ s.tree.significantChildren arguments := by
      simpa [Rule.operands, hcallee, harguments] using ho
    rcases ho with rfl | ho
    · cases hcalled with
      | whole => simp [Code.spliced_after, Code.spliced, Code.splicedAll]
      | member hplain _ => simp [hm.isPlainMember hw] at hplain
    · rcases List.mem_append.1 (hform.splices_whole hw hspares ho hm) with hreads | hpassed
      · simp [Code.spliced_after, Code.spliced, Code.splicedAll, hreads]
      · simp [Code.spliced_after, Code.spliced, Code.splicedAll, hpassed]

theorem Rewrites.apart (hc : c ∈ rep.takenOver s.tree x) (hcd : c ∈ s.tree.children d)
    (hm : s.tree.MayStopShort d) : x = d := by
  -- Whatever has this child is the node itself.
  have hparent : ∀ {p kind}, c ∈ s.tree.children p → s.tree.kind p = kind → kind.chainField? = none →
      False := by
    intro p kind hp hkind hno
    obtain rfl := hw.parent_unique hcd hp
    exact hm.kind_ne hno hkind
  have hoperand : OperandOf s.tree x c → x = d := by
    intro ho
    cases ho with
    | field _ hfield => exact hw.parent_unique (SyntaxTree.child?_mem hfield) hcd
    | returned hreturned => exact hw.parent_unique (SyntaxTree.mem_of_significant hreturned) hcd
    | argument _ hkind hargument =>
      exact (hparent (SyntaxTree.mem_of_significant hargument) hkind rfl).elim
  rcases h.taken with ⟨-, _, _, rfl⟩ | htakes
  · rw [Replacement.takenOver_statement] at hc
    exact hw.parent_unique hc hcd
  · obtain ⟨o, ho, taken, htaken, hct⟩ := htakes.source hc
    have hof := h.operandOf ho
    cases htaken with
    | inert => cases hct
    | whole =>
      obtain rfl := List.mem_singleton.1 hct
      exact hoperand hof
    | pieces =>
      cases hplain : s.tree.isPlainMember (s.tree.unwrap o) with
      | true =>
        obtain rfl := hw.parent_unique ((SyntaxTree.pieces_children hw hplain).1 c hct) hcd
        rw [hm.isPlainMember hw] at hplain
        cases hplain
      | false =>
        rw [SyntaxTree.pieces, hplain] at hct
        obtain rfl := List.mem_singleton.1 hct
        rcases s.tree.unwrap_eq_or_wrapped o with he | ⟨p, hkind, hp⟩
        · exact hoperand (he.symm ▸ hof)
        · exact (hparent hp hkind rfl).elim

end

structure SyntaxTree.ChainsWhole (t : SyntaxTree) : Prop where
  apart : ∀ {x c d}, c ∈ t.takenOver x → c ∈ t.children d → t.MayStopShort d → x = d
  whole : ∀ {x rep o} {r : Rule}, (t.node x).replacement = some rep → r.handles (t.kind x) = true →
    o ∈ r.operands t x → t.MayStopShort (t.unwrap o) → o ∈ rep.takenOver t x

theorem SyntaxTree.IsFresh.chainsWhole {t : SyntaxTree} (hw : t.WellFormed) (h : t.IsFresh) :
    t.ChainsWhole where
  apart {x c d} hc hcd _ := by
    rw [takenOver_of_none (h x)] at hc
    exact hw.parent_unique hc hcd
  whole hrep _ _ _ := absurd hrep (h.not_replaced _)

theorem SyntaxTree.Replaces.chainsWhole {t t' : SyntaxTree} (hw : t.WellFormed)
    (h : t.Replaces x rep t') (hx : x < t.size) (ht : t.ChainsWhole)
    (hapart : ∀ {c d}, c ∈ rep.takenOver t x → c ∈ t.children d → t.MayStopShort d → x = d)
    (hwhole : ∀ {o} {r : Rule}, r.handles (t.kind x) = true → o ∈ r.operands t x →
      t.MayStopShort (t.unwrap o) → o ∈ rep.takenOver t x) : t'.ChainsWhole where
  apart {y c d} hc hcd hm := by
    rw [h.shape.children] at hcd
    rw [h.shape.mayStopShort hw] at hm
    by_cases hy : y = x
    · subst hy
      rw [takenOver_of_some (h.at_ hx), h.shape.takenOver] at hc
      exact hapart hc hcd hm
    · rw [h.takenOver_elsewhere hy] at hc
      exact ht.apart hc hcd hm
  whole {y rep' o r} hrep hhandles ho hm := by
    rw [h.shape.kind] at hhandles
    rw [h.shape.operands] at ho
    rw [h.shape.unwrap, h.shape.mayStopShort hw] at hm
    rw [h.shape.takenOver]
    by_cases hy : y = x
    · subst hy
      rw [h.at_ hx] at hrep
      cases hrep
      exact hwhole hhandles ho hm
    · rw [h.elsewhere y hy] at hrep
      exact ht.whole hrep hhandles ho hm

theorem VisitForm.chainsWhole (hw : s.tree.WellFormed) (h : VisitForm P rules s id s')
    (hspares : s.tree.SparesChains) (ht : s.tree.ChainsWhole) : s'.tree.ChainsWhole := by
  cases h with
  | idle _ hs =>
    rw [hs]
    exact ht
  | bare _ hb =>
    rw [hb.state]
    exact ht
  | @rewrite r rep u _ hhandles _ _ hform hreplaces _ =>
    refine hreplaces.chainsWhole hw (lt_size_of_handles hhandles) ht (hform.apart hw) ?_
    intro o r' hhandles' ho hm
    obtain rfl := handles_unique hhandles hhandles'
    exact hform.whole hw hspares ho hm
  | @body number body rep u hhandles hb hreplaces _ =>
    have hmem := SyntaxTree.child?_mem hb.child
    have hblock := hw.block (by simpa [Kind.IsPlainFunction, Rule.handles] using hhandles) hb.child
    refine hreplaces.chainsWhole hw (hw.child hmem).2.1 ht (fun hc hcd _ => ?_) fun hhandles' _ _ => ?_
    · exact hw.parent_unique (hb.form.takenOver _ hc) hcd
    · exact absurd hblock (ne_block_of_handles hhandles')

theorem declines_of_mayStopShort (hw : s.tree.WellFormed) (hm : s.tree.MayStopShort d) :
    Rule.call.Declines s d := by
  intro callee arguments hcallee harguments
  have hrefusal : s.refusal? d arguments = some .optionalCall :=
    if_pos ((SyntaxTree.mayStopShort_iff hw).1 hm)
  rw [complaint?_of_refusal hcallee harguments hrefusal]
  exact .inl rfl

theorem declines_of_callee {callee : NodeId} (hw : s.tree.WellFormed)
    (hcallee : s.tree.child? d "function" = some callee)
    (hm : s.tree.MayStopShort (s.tree.unwrap callee)) : Rule.call.Declines s d := by
  intro callee' arguments hcallee' harguments
  obtain rfl := Option.some.inj (hcallee.symm.trans hcallee')
  have hident : s.tree.kind (s.tree.unwrap callee) ≠ .identifier := hm.kind_ne rfl
  have hfunction : s.tree.kind (s.tree.unwrap callee) ≠ .functionExpression := hm.kind_ne rfl
  cases hrefusal : s.refusal? d arguments with
  | some why =>
    rw [complaint?_of_refusal hcallee harguments hrefusal]
    exact .inl rfl
  | none =>
    rw [complaint?_of_callee hcallee harguments hrefusal, if_neg]
    · exact .inl rfl
    · simp [isDirectEval, SyntaxTree.isCallee, hident, hfunction, hm.isPlainMember hw]

namespace Operating

variable (hw : s₀.tree.WellFormed) (h : Operating s₀ done s)
include hw h

theorem call_bare (hkind : s₀.tree.kind d = .callExpression) (hdeclines : Rule.call.Declines s₀ d) :
    (s.tree.node d).replacement = none := by
  refine Option.eq_none_iff_forall_ne_some.2 fun rep hrep => ?_
  obtain ⟨hd, hrows⟩ := (h.passed.replaced d rep hrep).own_visit hw (by rw [hkind]; decide)
  rcases h.operated d hd .call (by decide) (by rw [hkind]; rfl) hrows with ⟨-, hnone⟩ | ⟨hno, -⟩
  · rw [hnone] at hrep
    cases hrep
  · exact hno rfl hdeclines

theorem bare (hfresh : s₀.tree.IsFresh) (hm : s₀.tree.MayStopShort d) :
    (s.tree.node d).replacement = none := by
  have hforms := h.passed.visited.keepsForms hw hfresh d
  rw [h.passed.visited.fixed.shape.kind] at hforms
  rcases hm.kind with hkind | hkind | hkind
  · exact hforms (by simp [hkind])
  · exact hforms (by simp [hkind])
  · exact h.call_bare hw hkind (declines_of_mayStopShort hw hm)

theorem sparesChains (hfresh : s₀.tree.IsFresh) : s.tree.SparesChains :=
  fun _ hm => h.bare hw hfresh ((h.passed.visited.fixed.shape.mayStopShort hw).1 hm)

end Operating

theorem pass_chainsWhole (hw : s₀.tree.WellFormed) (hfresh : s₀.tree.IsFresh)
    (h : Yields (pass Rule.all) s₀ () s) : s.tree.ChainsWhole := by
  -- Operands stay whole because the calls among them were left alone when they were visited.
  refine (visitAll_induction (Q := fun done s => Operating s₀ done s ∧ s.tree.ChainsWhole)
    ⟨.start hfresh, hfresh.chainsWhole hw⟩ ?_ (Yields.get_bind_iff.1 h)).2
  rintro done id rest u u' hagenda ⟨hop, ht⟩ hv
  have hform := visit_ok hv (hostsIn_true u id)
  exact ⟨hop.visit hw hfresh (not_below_of_agenda hw hagenda) hv,
    hform.chainsWhole (hop.passed.visited.wellFormed hw) (hop.sparesChains hw hfresh) ht⟩

structure ChainsKept (s₀ s : Instrumentation) : Prop where
  /-- From its top down to its last link no node of a chain is replaced. -/
  bare : ∀ {d}, s₀.tree.MayStopShort d → (s.tree.node d).replacement = none
  /-- What replaces another node shows no object, key or function of these. -/
  apart : ∀ {x rep c d}, (s.tree.node x).replacement = some rep → s₀.tree.MayStopShort d →
    c ∈ s₀.tree.children d → c ∉ rep.takenOver s.tree x
  /-- Of an operand that may stop short nothing is shown but the operand, as it stands. -/
  whole : ∀ {x rep o} {r : Rule}, (s.tree.node x).replacement = some rep →
    r.handles (s₀.tree.kind x) = true → o ∈ r.operands s₀.tree x →
    s₀.tree.MayStopShort (s₀.tree.unwrap o) → (s.tree.node o).replacement = none ∧
      o ∈ rep.takenOver s.tree x ∧ ∀ c ∈ rep.takenOver s.tree x, s₀.tree.Below o c → c = o
  operand : ∀ {o}, s₀.tree.MayStopShort (s₀.tree.unwrap o) →
    Yields (operandStub o) s { value := s.operand o, origin := .untraced } s
  target : ∀ {o}, s₀.tree.MayStopShort (s₀.tree.unwrap o) → Yields (targetStub o) s none s
  callee : ∀ {x callee}, s₀.tree.kind x = .callExpression →
    s₀.tree.child? x "function" = some callee → s₀.tree.MayStopShort (s₀.tree.unwrap callee) →
    (s.tree.node x).replacement = none
  /-- Below the last link calls are rewritten like any other. -/
  below : ∀ {d callee arguments}, s₀.Eligible d → s₀.tree.kind d = .callExpression →
    s₀.tree.child? d "function" = some callee → s₀.tree.child? d "arguments" = some arguments →
    ¬ s₀.tree.MayStopShort d → s₀.tree.kind arguments = .arguments →
    (∀ a ∈ s₀.tree.significantChildren arguments, s₀.tree.kind a ≠ .spreadElement) →
    isDirectEval s₀.tree callee = false → s₀.tree.isCallee callee = true → s.Rewritten .call d
  /-- Nor does a chain keep an operator, an assignment or a call elsewhere from being rewritten. -/
  operated : ∀ {d r}, s₀.Eligible d → r ∈ Rule.operations → r.handles (s₀.tree.kind d) = true →
    Operated s₀ s r d

theorem not_declines_of_not_mayStopShort {callee arguments : NodeId} (hw : s.tree.WellFormed)
    (hcallee : s.tree.child? d "function" = some callee)
    (harguments : s.tree.child? d "arguments" = some arguments) (hm : ¬ s.tree.MayStopShort d)
    (hkind : s.tree.kind arguments = .arguments)
    (hspread : ∀ a ∈ s.tree.significantChildren arguments, s.tree.kind a ≠ .spreadElement)
    (heval : isDirectEval s.tree callee = false) (hform : s.tree.isCallee callee = true) :
    ¬ Rule.call.Declines s d := by
  have hrefusal : s.refusal? d arguments = none := by
    rw [SyntaxTree.mayStopShort_iff hw] at hm
    simpa [refusal?, hm, hkind] using hspread
  have hcomplaint := complaint?_of_callee hcallee harguments hrefusal
  rw [hform, Bool.or_true, if_pos rfl] at hcomplaint
  intro hdeclines
  rcases hdeclines callee arguments hcallee harguments with hsome | hdirect
  · simp [hcomplaint] at hsome
  · simp [heval] at hdirect

theorem Started.chainsKept (h : Started s₀) (hpass : Yields (pass Rule.all) s₀ () s) :
    ChainsKept s₀ s := by
  have hw := h.wellFormed
  have hop := pass_operates hw h.fresh hpass
  have hvisited := hop.passed.visited
  have hshape := hvisited.fixed.shape
  have hws := hvisited.wellFormed hw
  have hchains := pass_chainsWhole hw h.fresh hpass
  have hlater : ∀ {d}, s₀.tree.MayStopShort d → s.tree.MayStopShort d := (hshape.mayStopShort hw).2
  have hunwrap : ∀ {o}, s₀.tree.MayStopShort (s₀.tree.unwrap o) →
      s.tree.MayStopShort (s.tree.unwrap o) := by
    intro o hm
    rw [hshape.unwrap]
    exact hlater hm
  refine {
    bare := fun hm => hop.bare hw h.fresh hm
    apart := fun {x rep c d} hrep hm hcd hc => ?_
    whole := fun {x rep o r} hrep hhandles ho hm => ?_
    operand := fun hm => operandStub_whole hws (hop.sparesChains hw h.fresh) (hunwrap hm)
    target := fun hm => targetStub_none_of_mayStopShort hws (hunwrap hm)
    callee := fun hkind hcallee hm => hop.call_bare hw hkind (declines_of_callee hw hcallee hm)
    below := fun hd hkind hcallee harguments hm hlist hspread heval hform =>
      h.rewritten hpass hd (by decide) (by rw [hkind]; rfl)
        (not_declines_of_not_mayStopShort hw hcallee harguments hm hlist hspread heval hform)
    operated := fun hd hr hhandles => h.operated hpass hd hr hhandles }
  · -- The node itself is not replaced, and no other one has the child.
    rw [← SyntaxTree.takenOver_of_some hrep] at hc
    obtain rfl := hchains.apart hc (by rwa [hshape.children]) (hlater hm)
    rw [hop.bare hw h.fresh hm] at hrep
    cases hrep
  · have hmem : o ∈ rep.takenOver s.tree x := by
      refine hchains.whole hrep (by rwa [hshape.kind]) ?_ (hunwrap hm)
      rwa [hshape.operands]
    refine ⟨?_, hmem, fun c hc hoc => ?_⟩
    · by_cases hkind : s.tree.kind o = .parenthesizedExpression
      · exact hvisited.keepsForms hw h.fresh o (by simp [hkind])
      · rw [hshape.kind] at hkind
        rw [SyntaxTree.unwrap_of_kind hkind] at hm
        exact hop.bare hw h.fresh hm
    · by_contra hne
      have hseparate := (hvisited.takesOnce hw h.fresh x).separate
      rw [SyntaxTree.takenOver_of_some hrep] at hseparate
      exact hseparate.forall hc hmem hne c .refl (hshape.below hoc)

/-- Whatever may stop short still stops short of the same code. -/
theorem pass_keepsChains {tree : SyntaxTree} (hw : tree.WellFormed) (hfresh : tree.IsFresh)
    (suppression : Suppression) (hook file : String) :
    ∃ scopes, ScopeTable.analyze tree = .ok scopes ∧
      ∀ s, Yields (pass Rule.all) (.start tree scopes suppression hook file) () s →
        ChainsKept (.start tree scopes suppression hook file) s := by
  obtain ⟨scopes, hscopes⟩ := ScopeTable.analyze_succeeds tree
  exact ⟨scopes, hscopes, fun s hpass =>
    (started hw hfresh hscopes suppression hook file).chainsKept hpass⟩

def linkedSum : SyntaxTree :=
  .ofConcrete
    "r = f(p).b?.c(q).d + 1;\n".toList
    (.named "program" 0 24 none [
      .named "expression_statement" 0 23 none [
        .named "assignment_expression" 0 22 none [
          .named "identifier" 0 1 (some "left") [],
          .named "binary_expression" 4 22 (some "right") [
            .named "member_expression" 4 18 (some "left") [
              .named "call_expression" 4 16 (some "object") [
                .named "member_expression" 4 13 (some "function") [
                  .named "member_expression" 4 10 (some "object") [
                    .named "call_expression" 4 8 (some "object") [
                      .named "identifier" 4 5 (some "function") [],
                      .named "arguments" 5 8 (some "arguments") [.named "identifier" 6 7 none []]],
                    .named "property_identifier" 9 10 (some "property") []],
                  .named "optional_chain" 10 12 (some "optional_chain") [],
                  .named "property_identifier" 12 13 (some "property") []],
                .named "arguments" 13 16 (some "arguments") [.named "identifier" 14 15 none []]],
              .named "property_identifier" 17 18 (some "property") []],
            .mark "+" 19 20 (some "operator"),
            .named "number" 21 22 (some "right") []]]]])

theorem pass_keepsChains_linkedSum :
    linkedSum.WellFormed ∧ linkedSum.IsFresh ∧ linkedSum.OnChain 5 9 ∧
      linkedSum.CarriesLink 7 ∧ ∃ scopes s, ScopeTable.analyze linkedSum = .ok scopes ∧
        Yields (pass Rule.all) (.start linkedSum scopes ⟨[]⟩ "__rt" "t.js") () s ∧
        ChainsKept (.start linkedSum scopes ⟨[]⟩ "__rt" "t.js") s ∧
        (s.tree.node 6).replacement = none ∧ s.Rewritten .call 9 ∧
        ∃ rep, (s.tree.node 4).replacement = some rep ∧ 5 ∈ rep.takenOver s.tree 4 := by
  have hw : linkedSum.WellFormed := by decide +kernel
  have hfresh : linkedSum.IsFresh := SyntaxTree.isFresh_ofConcrete _ _
  have hreached : ∀ d ∈ [4, 9], linkedSum.Reached d := fun d hd =>
    (SyntaxTree.reached_iff hw).2 (by revert d; decide +kernel)
  have hrows : ∀ d ∈ [4, 9], linkedSum.touchesRows d (Suppression.isSuppressed ⟨[]⟩) = false := by
    decide +kernel
  have hlink : linkedSum.CarriesLink 7 := ⟨by decide +kernel, by decide +kernel⟩
  have htop : linkedSum.OnChain 5 6 := .next .refl (by decide +kernel)
  have hlinked : linkedSum.OnChain 6 7 := .next .refl (by decide +kernel)
  have hbelow : linkedSum.OnChain 7 9 :=
    .next (.next .refl (b := 8) (by decide +kernel)) (by decide +kernel)
  have hcall : linkedSum.MayStopShort 6 := ⟨7, hlinked, hlink⟩
  have hsum : linkedSum.MayStopShort 5 := hcall.above htop
  have hno : ¬ linkedSum.MayStopShort 9 := by
    rw [SyntaxTree.mayStopShort_iff hw]
    decide +kernel
  obtain ⟨scopes, hscopes, hkeeps⟩ := pass_keepsChains hw hfresh ⟨[]⟩ "__rt" "t.js"
  obtain ⟨s, -, hpass, -⟩ := run_succeeds hw hfresh (by decide +kernel) hscopes ⟨[]⟩ "__rt" "t.js" ""
    Rule.all (by decide +kernel)
  have hkept := hkeeps s hpass
  obtain ⟨htree, -, hsuppression, -⟩ := start_same linkedSum scopes ⟨[]⟩ "__rt" "t.js"
  refine ⟨hw, hfresh, (htop.trans hlinked).trans hbelow, hlink, scopes, s, hscopes, ?_⟩
  generalize Instrumentation.start linkedSum scopes ⟨[]⟩ "__rt" "t.js" = s₀ at *
  have heligible : ∀ d ∈ [4, 9], s₀.Eligible d := by
    intro d hd
    refine ⟨htree ▸ hreached d hd, ?_⟩
    rw [touchesSuppressed, htree, hsuppression]
    exact hrows d hd
  have hrewritten : s.Rewritten .binary 4 := by
    rcases hkept.operated (heligible 4 (by decide)) (r := .binary) (by decide)
      (by rw [htree]; decide +kernel) with ⟨hdeclines, -⟩ | ⟨-, hrewritten⟩
    · have hunchecked := hdeclines 5 19 (by rw [htree]; decide +kernel) (by rw [htree]; decide +kernel)
      rw [htree] at hunchecked
      exact absurd hunchecked (by decide +kernel)
    · exact hrewritten
  obtain ⟨rep, hrep, -⟩ := hrewritten
  rw [← htree] at hcall hsum hno
  obtain ⟨-, hwhole, -⟩ := hkept.whole (r := .binary) (o := 5) hrep (by rw [htree]; decide +kernel)
    (by rw [htree]; decide +kernel) (by rwa [SyntaxTree.unwrap_of_kind (hsum.kind_ne rfl)])
  have hcallee : s₀.tree.child? 9 "function" = some 10 := by rw [htree]; decide +kernel
  have harguments : s₀.tree.child? 9 "arguments" = some 11 := by rw [htree]; decide +kernel
  have hplain : s.Rewritten .call 9 := by
    refine hkept.below (heligible 9 (by decide)) ?_ hcallee harguments hno ?_ ?_ ?_ ?_ <;>
      (rw [htree]; decide +kernel)
  exact ⟨hpass, hkept, hkept.bare hcall, hplain, rep, hrep, hwhole⟩

end CoercionTrace
