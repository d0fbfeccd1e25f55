import CoercionTrace.Instrument.Rule
import CoercionTrace.Proofs.Computation
import CoercionTrace.Proofs.Syntax.WellFormed

/-!
# What operands become

A stub takes over the text of its operand, or of the parts of a member access, and draws the
temporaries that it needs. Main statements: the forms of a stub (`operandStub_ok`, `targetStub_ok`)
and that of a held one (`held_cases`).
-/

namespace CoercionTrace

namespace Instrumentation

def drawOne (s : Instrumentation) (host : Option ScopeId) : Instrumentation :=
  { s with
    names := (s.names.fresh .temporary).2
    temporaries := s.temporaries.insert host (s.pending host ++ [(s.names.fresh .temporary).1]) }

inductive Draws (P : Option ScopeId → Prop) (s : Instrumentation) : Instrumentation → Prop
  | refl : Draws P s s
  | step {s' : Instrumentation} {host : Option ScopeId} :
      Draws P s s' → P host → Draws P s (s'.drawOne host)

def Drawn (P : Option ScopeId → Prop) (s : Instrumentation) (name : String) : Prop :=
  ∃ host, P host ∧ name ∈ s.pending host

variable {P : Option ScopeId → Prop} {s s' s'' : Instrumentation}

theorem pending_drawOne (s : Instrumentation) (host h : Option ScopeId) :
    (s.drawOne host).pending h =
      if host = h then s.pending host ++ [(s.names.fresh .temporary).1] else s.pending h := by
  simp only [pending, drawOne, Table.find?_insert]
  split <;> rfl

namespace Draws

theorem trans (h : Draws P s s') (h' : Draws P s' s'') : Draws P s s'' := by
  induction h' with
  | refl => exact h
  | step _ hP ih => exact .step ih hP

theorem same (h : Draws P s s') :
    s' = { s with names := s'.names, temporaries := s'.temporaries } := by
  induction h with
  | refl => rfl
  | step _ _ ih =>
    rw [ih]
    rfl

theorem tree (h : Draws P s s') : s'.tree = s.tree := by rw [h.same]

theorem host? (h : Draws P s s') (id : NodeId) : s'.host? id = s.host? id := by
  rw [h.same]
  rfl

theorem held (h : Draws P s s') : s'.held = s.held := by
  rw [h.same]
  rfl

theorem hookCall (h : Draws P s s') : s'.hookCall = s.hookCall := by
  rw [h.same]
  rfl

theorem location (h : Draws P s s') : s'.location = s.location := by
  rw [h.same]
  rfl

theorem pending_subset (h : Draws P s s') (host : Option ScopeId) :
    s.pending host ⊆ s'.pending host := by
  induction h with
  | refl => exact List.Subset.refl _
  | step _ _ ih =>
    refine List.Subset.trans ih ?_
    rw [pending_drawOne]
    split
    · next e => exact e ▸ List.subset_append_left _ _
    · exact List.Subset.refl _

theorem drawn (h : Draws P s s') {name : String} (hd : Drawn P s name) : Drawn P s' name := by
  obtain ⟨host, hP, hm⟩ := hd
  exact ⟨host, hP, h.pending_subset host hm⟩

theorem arithmeticCheck (h : Draws P s s') : s'.arithmeticCheck = s.arithmeticCheck := by
  rw [h.same]
  rfl

theorem traced (h : Draws P s s') : s'.traced = s.traced := by
  rw [h.same]
  rfl

end Draws

end Instrumentation

open Instrumentation

namespace InstrumentM

variable {P : Option ScopeId → Prop} {s s' : Instrumentation} {id : NodeId}

theorem temporary_ok {name : String} (h : Yields (temporary id) s name s') (hP : P (s.host? id)) :
    Draws P s s' ∧ Drawn P s' name := by
  obtain ⟨_, u, hu, h⟩ := Yields.bind_iff.1 (Yields.get_bind_iff.1 h)
  obtain ⟨rfl, rfl⟩ := Yields.pure_iff.1 h
  obtain rfl := Yields.set_iff.1 hu
  refine ⟨.step .refl hP, s.host? id, hP, ?_⟩
  change _ ∈ (s.drawOne (s.host? id)).pending (s.host? id)
  rw [pending_drawOne, if_pos rfl]
  exact List.mem_append_right _ List.mem_cons_self

end InstrumentM

inductive MemberKey (t : SyntaxTree) (member : NodeId) : Code → Prop
  | property {p : NodeId} : t.kind member = .memberExpression →
      t.child? member "property" = some p → MemberKey t member (.quoted (t.rawSource p))
  | index {i : NodeId} : t.kind member ≠ .memberExpression →
      t.child? member "index" = some i → MemberKey t member (t.operand i)

inductive MemberStub (t : SyntaxTree) (drawn : String → Prop) (member : NodeId) : Stub → Prop
  | mk {object : NodeId} {key : Code} {base property : String} :
      t.child? member "object" = some object → MemberKey t member key → drawn base →
      drawn property → MemberStub t drawn member
        { preamble :=
            [.store (.variable .temporary base) (.splice object (t.text object)),
              .store (.variable .temporary property) key]
          value := .access member base property
          store := some (.access member base property)
          origin := .member base property }

inductive VariableStub (s : Instrumentation) (identifier : NodeId) : Stub → Prop
  | mk {origin : Origin} : s.tree.kind identifier = .identifier →
      s.identifierOrigin identifier = .ok origin → VariableStub s identifier
        { value := .identifier identifier (s.tree.rawSource identifier)
          store := some (.identifier identifier (s.tree.rawSource identifier)), origin }

def SyntaxTree.isCheckedCall (t : SyntaxTree) (id : NodeId) : Bool :=
  t.kind id == .callExpression && (t.node id).isReplaced

theorem SyntaxTree.kind_of_isCheckedCall {t : SyntaxTree} {id : NodeId}
    (h : t.isCheckedCall id = true) : t.kind id = .callExpression := by
  simp only [isCheckedCall, Bool.and_eq_true, beq_iff_eq] at h
  exact h.1

inductive OperandStub (s : Instrumentation) (drawn : String → Prop) (id : NodeId) : Stub → Prop
  | identifier {stub : Stub} : VariableStub s (s.tree.unwrap id) stub → OperandStub s drawn id stub
  | member {stub : Stub} : s.tree.isPlainMember (s.tree.unwrap id) = true →
      MemberStub s.tree drawn (s.tree.unwrap id) stub → OperandStub s drawn id stub
  | call : s.tree.isCheckedCall (s.tree.unwrap id) = true → OperandStub s drawn id
      { value := .splice (s.tree.unwrap id) (s.tree.text (s.tree.unwrap id)), origin := .returned }
  | whole : s.tree.kind (s.tree.unwrap id) ≠ .identifier →
      s.tree.isPlainMember (s.tree.unwrap id) = false →
      s.tree.isCheckedCall (s.tree.unwrap id) = false →
      OperandStub s drawn id { value := s.operand id, origin := .untraced }

inductive TargetStub (s : Instrumentation) (drawn : String → Prop) (id : NodeId) : Stub → Prop
  | identifier {stub : Stub} : VariableStub s (s.tree.unwrap id) stub → TargetStub s drawn id stub
  | member {stub : Stub} : s.tree.isPlainMember (s.tree.unwrap id) = true →
      MemberStub s.tree drawn (s.tree.unwrap id) stub → TargetStub s drawn id stub

section

variable {P : Option ScopeId → Prop} {s s' : Instrumentation} {id : NodeId} {stub : Stub}
  {drawn drawn' : String → Prop}

theorem MemberStub.mono {t : SyntaxTree} (h : MemberStub t drawn id stub)
    (hd : ∀ name, drawn name → drawn' name) : MemberStub t drawn' id stub := by
  cases h with
  | mk ho hkey hbase hproperty => exact .mk ho hkey (hd _ hbase) (hd _ hproperty)

theorem OperandStub.mono (h : OperandStub s drawn id stub) (hd : ∀ name, drawn name → drawn' name) :
    OperandStub s drawn' id stub := by
  cases h with
  | identifier hv => exact .identifier hv
  | member hm hs => exact .member hm (hs.mono hd)
  | call hc => exact .call hc
  | whole hk hm hc => exact .whole hk hm hc

theorem TargetStub.mono (h : TargetStub s drawn id stub) (hd : ∀ name, drawn name → drawn' name) :
    TargetStub s drawn' id stub := by
  cases h with
  | identifier hv => exact .identifier hv
  | member hm hs => exact .member hm (hs.mono hd)

-- Stubs that were made after temporaries were drawn are those that would have been made before.
theorem Instrumentation.Draws.operandStub (h : Draws P s s') (hs : OperandStub s' drawn id stub) :
    OperandStub s drawn id stub := by
  rw [h.same] at hs
  cases hs with
  | identifier hv =>
    cases hv with
    | mk hk ho => exact .identifier (.mk hk ho)
  | member hm hs => exact .member hm hs
  | call hc => exact .call hc
  | whole hk hm hc => exact .whole hk hm hc

end

namespace InstrumentM

variable {P : Option ScopeId → Prop} {s s' : Instrumentation} {id : NodeId} {stub : Stub}

theorem identifierStub_ok (hk : s.tree.kind id = .identifier)
    (h : Yields (identifierStub id) s stub s') : s' = s ∧ VariableStub s id stub := by
  replace h := Yields.get_bind_iff.1 h
  split at h
  · next origin ho =>
    obtain ⟨rfl, rfl⟩ := Yields.pure_iff.1 h
    exact ⟨rfl, .mk hk ho⟩
  · exact (Yields.not_throw h).elim

theorem memberKey_ok {key : Code} (h : Yields (memberKey id) s key s') :
    s' = s ∧ MemberKey s.tree id key := by
  replace h := Yields.get_bind_iff.1 h
  split at h
  · next hk =>
    split at h
    · next p hp =>
      obtain ⟨rfl, rfl⟩ := Yields.pure_iff.1 h
      exact ⟨rfl, .property hk hp⟩
    · exact (Yields.not_throw h).elim
  · next hk =>
    split at h
    · next i hi =>
      obtain ⟨rfl, rfl⟩ := Yields.pure_iff.1 h
      exact ⟨rfl, .index hk hi⟩
    · exact (Yields.not_throw h).elim

theorem memberStub_ok (h : Yields (memberStub id) s stub s') (hP : P (s.host? id)) :
    Draws P s s' ∧ MemberStub s.tree (Drawn P s') id stub := by
  replace h := Yields.get_bind_iff.1 h
  split at h
  · exact (Yields.not_throw h).elim
  · next object ho =>
    obtain ⟨key, s₁, hkey, h₁⟩ := Yields.bind_iff.1 h
    obtain ⟨base, s₂, hbase, h₂⟩ := Yields.bind_iff.1 h₁
    obtain ⟨property, s₃, hproperty, h₃⟩ := Yields.bind_iff.1 h₂
    obtain ⟨rfl, hkey⟩ := memberKey_ok hkey
    obtain ⟨hdraws, hbase⟩ := temporary_ok hbase hP
    obtain ⟨hdraws', hproperty⟩ := temporary_ok hproperty (hdraws.host? id ▸ hP)
    replace h₃ := Yields.get_bind_iff.1 h₃
    obtain ⟨rfl, rfl⟩ := Yields.pure_iff.1 h₃
    refine ⟨hdraws.trans hdraws', ?_⟩
    rw [(hdraws.trans hdraws').tree]
    exact .mk ho hkey (hdraws'.drawn hbase) hproperty

theorem operandStub_ok (h : Yields (operandStub id) s stub s')
    (hP : P (s.host? (s.tree.unwrap id))) :
    Draws P s s' ∧ OperandStub s (Drawn P s') id stub := by
  have hwhole : s.tree.kind (s.tree.unwrap id) ≠ .identifier →
      s.tree.isPlainMember (s.tree.unwrap id) = false →
      s.tree.isCheckedCall (s.tree.unwrap id) = false →
      Yields (pure { value := s.operand id, origin := .untraced } : InstrumentM Stub) s stub s' →
      Draws P s s' ∧ OperandStub s (Drawn P s') id stub := by
    intro hk hm hc h
    obtain ⟨rfl, rfl⟩ := Yields.pure_iff.1 h
    exact ⟨.refl, .whole hk hm hc⟩
  have hnoCall : s.tree.kind (s.tree.unwrap id) ≠ .callExpression →
      s.tree.isCheckedCall (s.tree.unwrap id) = false :=
    fun hk => Bool.eq_false_iff.2 fun hc => hk (SyntaxTree.kind_of_isCheckedCall hc)
  -- by kind of the operand, in the order in which the stub is chosen
  replace h := Yields.get_bind_iff.1 h
  dsimp only at h
  split at h
  · next hk =>
    obtain ⟨rfl, hstub⟩ := identifierStub_ok hk h
    exact ⟨.refl, .identifier hstub⟩
  · next hk =>
    split at h
    · next hm =>
      obtain ⟨hdraws, hstub⟩ := memberStub_ok h hP
      exact ⟨hdraws, .member hm hstub⟩
    · next hm =>
      exact hwhole (by rw [hk]; decide) (by simpa using hm) (hnoCall (by rw [hk]; decide)) h
  · next hk =>
    split at h
    · next hm =>
      obtain ⟨hdraws, hstub⟩ := memberStub_ok h hP
      exact ⟨hdraws, .member hm hstub⟩
    · next hm =>
      exact hwhole (by rw [hk]; decide) (by simpa using hm) (hnoCall (by rw [hk]; decide)) h
  · next hk =>
    split at h
    · next hreplaced =>
      obtain ⟨rfl, rfl⟩ := Yields.pure_iff.1 h
      exact ⟨.refl, .call (by simp [SyntaxTree.isCheckedCall, hk, hreplaced])⟩
    · next hreplaced =>
      refine hwhole (by rw [hk]; decide) ?_ (by simp [SyntaxTree.isCheckedCall, hreplaced]) h
      cases hm : s.tree.isPlainMember (s.tree.unwrap id) with
      | false => rfl
      | true => rcases SyntaxTree.kind_of_isPlainMember hm with e | e <;> exact absurd (hk.symm.trans e) (by decide)
  · next h₁ h₂ h₃ h₄ =>
    refine hwhole h₁ ?_ (hnoCall h₄) h
    cases hm : s.tree.isPlainMember (s.tree.unwrap id) with
    | false => rfl
    | true => exact ((SyntaxTree.kind_of_isPlainMember hm).elim h₂ h₃).elim

theorem operandStub_after {u : Instrumentation} (hdraw : Draws P s u)
    (h : Yields (operandStub id) u stub s') (hP : P (s.host? (s.tree.unwrap id))) :
    Draws P u s' ∧ OperandStub s (Drawn P s') id stub := by
  have htarget : P (u.host? (u.tree.unwrap id)) := by
    rw [hdraw.host?, hdraw.tree]
    exact hP
  obtain ⟨hdraws, hstub⟩ := operandStub_ok h htarget
  exact ⟨hdraws, hdraw.operandStub hstub⟩

theorem temporary_after {u : Instrumentation} {name : String} (hdraw : Draws P s u)
    (h : Yields (temporary id) u name s') (hP : P (s.host? id)) :
    Draws P u s' ∧ Drawn P s' name :=
  temporary_ok h (hdraw.host? id ▸ hP)

theorem targetStub_ok (h : Yields (targetStub id) s (some stub) s')
    (hP : P (s.host? (s.tree.unwrap id))) :
    Draws P s s' ∧ TargetStub s (Drawn P s') id stub := by
  have hmember : s.tree.isPlainMember (s.tree.unwrap id) = true →
      Yields (do return some (← memberStub (s.tree.unwrap id))) s (some stub) s' →
      Draws P s s' ∧ TargetStub s (Drawn P s') id stub := by
    intro hm h
    obtain ⟨stub', s₁, hstub, h₁⟩ := Yields.bind_iff.1 h
    obtain ⟨hsome, rfl⟩ := Yields.pure_iff.1 h₁
    obtain rfl := Option.some.inj hsome
    obtain ⟨hdraws, hstub⟩ := memberStub_ok hstub hP
    exact ⟨hdraws, .member hm hstub⟩
  replace h := Yields.get_bind_iff.1 h
  dsimp only at h
  split at h
  · next hk =>
    obtain ⟨stub', s₁, hstub, h₁⟩ := Yields.bind_iff.1 h
    obtain ⟨hsome, rfl⟩ := Yields.pure_iff.1 h₁
    obtain rfl := Option.some.inj hsome
    obtain ⟨rfl, hstub⟩ := identifierStub_ok hk hstub
    exact ⟨.refl, .identifier hstub⟩
  · split at h
    · next hm => exact hmember hm h
    · obtain ⟨hsome, -⟩ := Yields.pure_iff.1 h
      cases hsome
  · split at h
    · next hm => exact hmember hm h
    · obtain ⟨hsome, -⟩ := Yields.pure_iff.1 h
      cases hsome
  · obtain ⟨hsome, -⟩ := Yields.pure_iff.1 h
    cases hsome

end InstrumentM

theorem held_cases (s : Instrumentation) (id : NodeId) (stub : Stub) (name : String) :
    ∃ value, (s.held id stub name).preamble =
        stub.preamble ++ [.store (.variable .temporary name) value] ∧
      (s.held id stub name).value = .variable .temporary name ∧
      (value = stub.value ∧ (s.held id stub name).origin = stub.origin ∨
        value = s.hookCall .assign [stub.value, .null, .quoted name, stub.origin.scope,
          stub.origin.slot, s.location id] ∧
        (s.held id stub name).origin = .frame name) := by
  unfold Instrumentation.held
  dsimp only
  split
  · exact ⟨_, rfl, rfl, .inr ⟨rfl, rfl⟩⟩
  · exact ⟨_, rfl, rfl, .inl ⟨rfl, rfl⟩⟩

end CoercionTrace
