import CoercionTrace.Proofs.Instrument.Stub

/-!
# What rules make of a node

Main statement: a rule that changes anything but a function body draws temporaries and proposes one
of the replacements that `Rewrites` lists (`change_ok`).
-/

namespace CoercionTrace

inductive OperandOf (t : SyntaxTree) (id : NodeId) : NodeId → Prop
  | field {f : String} {o : NodeId} : f ∈ ["left", "right", "value", "function"] →
      t.child? id f = some o → OperandOf t id o
  | argument {a o : NodeId} : t.child? id "arguments" = some a → t.kind a = .arguments →
      o ∈ t.significantChildren a → OperandOf t id o
  | returned {o : NodeId} : o ∈ t.significantChildren id → OperandOf t id o

structure HostsIn (P : Option ScopeId → Prop) (s : Instrumentation) (id : NodeId) : Prop where
  self : P (s.host? id)
  operand : ∀ {o}, OperandOf s.tree id o → P (s.host? o)
  target : ∀ {o}, OperandOf s.tree id o → P (s.host? (s.tree.unwrap o))

inductive CalleeForm (s : Instrumentation) (drawn : String → Prop) (callee : NodeId) : Callee → Prop
  | whole : s.tree.isPlainMember (s.tree.unwrap callee) = false →
      CalleeForm s drawn callee
        { function := .splice callee (s.tree.text callee), receiver := .void }
  | member {stub : Stub} : s.tree.isPlainMember (s.tree.unwrap callee) = true →
      MemberStub s.tree drawn (s.tree.unwrap callee) stub →
      CalleeForm s drawn callee
        { preamble := stub.preamble, function := stub.value, receiver := stub.origin.scope }

theorem CalleeForm.mono {s : Instrumentation} {drawn drawn' : String → Prop} {callee : NodeId}
    {called : Callee} (h : CalleeForm s drawn callee called)
    (hd : ∀ name, drawn name → drawn' name) : CalleeForm s drawn' callee called := by
  cases h with
  | whole hm => exact .whole hm
  | member hm hs => exact .member hm (hs.mono hd)

namespace Instrumentation

def isHeld (s : Instrumentation) (heldUntil : Option Nat) (i : Nat) (argument : NodeId) : Bool :=
  (heldUntil.map fun last => decide (i ≤ last)).getD false &&
    !(s.tree.kind (s.tree.unwrap argument)).isConstant

def passed (s : Instrumentation) (i : Nat) (argument : NodeId) (stub : Stub) : Code :=
  s.hookCall .assign
    [stub.value, .null, .index i, stub.origin.scope, stub.origin.slot, s.location argument]

end Instrumentation

/-- The arguments of a call from position `i` on: what is read first, and what is passed. -/
inductive ArgumentsForm (s : Instrumentation) (drawn : String → Prop) (heldUntil : Option Nat) :
    Nat → List NodeId → List Code → List Code → Prop
  | nil {i : Nat} : ArgumentsForm s drawn heldUntil i [] [] []
  | held {i : Nat} {argument : NodeId} {rest : List NodeId} {stub : Stub} {name : String}
      {reads passed : List Code} : s.isHeld heldUntil i argument = true →
      OperandStub s drawn argument stub → drawn name →
      ArgumentsForm s drawn heldUntil (i + 1) rest reads passed →
      ArgumentsForm s drawn heldUntil i (argument :: rest)
        ((s.held argument stub name).preamble ++ reads)
        (s.passed i argument (s.held argument stub name) :: passed)
  | direct {i : Nat} {argument : NodeId} {rest : List NodeId} {stub : Stub}
      {reads passed : List Code} : s.isHeld heldUntil i argument = false →
      OperandStub s drawn argument stub →
      ArgumentsForm s drawn heldUntil (i + 1) rest reads passed →
      ArgumentsForm s drawn heldUntil i (argument :: rest) reads
        (stub.sequence (s.passed i argument stub) :: passed)

inductive Rewrites (s : Instrumentation) (drawn : String → Prop) (id : NodeId) :
    Rule → Replacement → Prop
  | terminator {leading trailing : Bool} :
      Rewrites s drawn id .terminator (.statement leading (s.tree.text id) trailing)
  | membership {left right : NodeId} : (s.tree.node id).operator.getD "" = "in" →
      s.tree.child? id "left" = some left → s.tree.child? id "right" = some right →
      Rewrites s drawn id .binary
        (.expression (s.hookCall .inOperatorProxy [s.operand left, s.operand right]))
  | binary {left right : NodeId} {lhs rhs : Stub} {leftName rightName operator : String} :
      (s.tree.node id).operator.getD "" = operator → checkedOperators.contains operator = true →
      s.tree.child? id "left" = some left → s.tree.child? id "right" = some right →
      OperandStub s drawn left lhs → OperandStub s drawn right rhs →
      drawn leftName → drawn rightName →
      Rewrites s drawn id .binary (.expression (.sequence
        ((s.held left lhs leftName).preamble ++ (s.held right rhs rightName).preamble ++
          [s.arithmeticCheck id operator leftName rightName (s.held left lhs leftName).origin
            (s.held right rhs rightName).origin])))
  | assignment {left right : NodeId} {target value : Stub} {store : Code} :
      s.tree.child? id "left" = some left → s.tree.child? id "right" = some right →
      TargetStub s drawn left target → target.store = some store →
      OperandStub s drawn right value →
      Rewrites s drawn id .assignment (.expression (.sequence
        (target.preamble ++ value.preamble ++
          [.store store (s.traced id value.value target.origin value.origin)])))
  | compound {left right : NodeId} {target value : Stub} {store combined : Code}
      {current operand operator : String} :
      s.tree.child? id "left" = some left → s.tree.child? id "right" = some right →
      TargetStub s drawn left target → target.store = some store →
      OperandStub s drawn right value → drawn current → drawn operand →
      combined = s.arithmeticCheck id operator current operand target.origin
          (s.held right value operand).origin ∨
        combined = .operation operator (.variable .temporary current)
          (.variable .temporary operand) →
      Rewrites s drawn id .compound (.expression (.sequence
        (target.preamble ++ [.store (.variable .temporary current) target.value] ++
          (s.held right value operand).preamble ++
          [.store store (s.traced id combined target.origin (s.held right value operand).origin)])))
  | declarator {name init : NodeId} {target : Origin} {value : Stub} :
      s.tree.child? id "name" = some name → s.tree.child? id "value" = some init →
      s.tree.kind name = .identifier → s.identifierOrigin name = .ok target →
      OperandStub s drawn init value →
      Rewrites s drawn id .declarator (.expression (.store (.identifier name (s.tree.rawSource name))
        (value.sequence (s.traced id value.value target value.origin))))
  | returned {argument : NodeId} {value : Stub} :
      (s.tree.significantChildren id).head? = some argument → OperandStub s drawn argument value →
      Rewrites s drawn id .returning (.returned (value.sequence
        (s.traced id value.value (.frame returnSlotName) value.origin)))
  | unreturned {leading trailing : Bool} :
      Rewrites s drawn id .returning (.statement leading (s.tree.text id) trailing)
  | call {callee arguments : NodeId} {called : Callee} {reads passed : List Code} :
      s.tree.child? id "function" = some callee → s.tree.child? id "arguments" = some arguments →
      s.tree.kind arguments = .arguments → CalleeForm s drawn callee called →
      ArgumentsForm s drawn (s.heldUntil? (s.tree.significantChildren arguments)) 0
        (s.tree.significantChildren arguments) reads passed →
      Rewrites s drawn id .call (.expression (.after called.preamble
        (s.hookCall .callCheck [called.function, called.receiver, .after reads (.list passed),
          .quoted (s.tree.rawSource callee), s.location id])))

namespace InstrumentM

variable {P : Option ScopeId → Prop} {s s' : Instrumentation} {id : NodeId} {change : Change}

open Instrumentation

theorem some_of_pure {c : Change} (h : Yields (pure (some c) : InstrumentM (Option Change)) s
    (some change) s') : change = c ∧ s' = s := by
  obtain ⟨hsome, rfl⟩ := Yields.pure_iff.1 h
  exact ⟨Option.some.inj hsome, rfl⟩

theorem not_none (h : Yields (pure none : InstrumentM (Option Change)) s (some change) s') :
    False := by
  obtain ⟨hsome, -⟩ := Yields.pure_iff.1 h
  cases hsome

theorem terminated_ok (h : s.terminated id = some change) :
    ∃ leading trailing, change = ⟨id, .statement leading (s.tree.text id) trailing⟩ := by
  unfold terminated at h
  dsimp only at h
  split at h
  · cases h
    exact ⟨_, _, rfl⟩
  · cases h

theorem binaryChange_ok (h : Yields (binaryChange id) s (some change) s') (hP : HostsIn P s id) :
    Draws P s s' ∧ change.node = id ∧ Rewrites s (Drawn P s') id .binary change.replacement := by
  replace h := Yields.get_bind_iff.1 h
  dsimp only at h
  split at h
  · next left right hleft hright =>
    split at h
    · next hin =>
      split at h
      · exact (not_none h).elim
      · obtain ⟨rfl, rfl⟩ := some_of_pure h
        exact ⟨.refl, rfl, .membership hin hleft hright⟩
    · split at h
      · exact (not_none h).elim
      · next hchecked =>
        obtain ⟨lhs, s₁, hlhs, h₁⟩ := Yields.bind_iff.1 h
        obtain ⟨rhs, s₂, hrhs, h₂⟩ := Yields.bind_iff.1 h₁
        obtain ⟨leftName, s₃, hleftName, h₃⟩ := Yields.bind_iff.1 h₂
        obtain ⟨rightName, s₄, hrightName, h₄⟩ := Yields.bind_iff.1 h₃
        replace h₄ := Yields.get_bind_iff.1 h₄
        obtain ⟨hdraw₁, hlhs⟩ := operandStub_ok hlhs (hP.target (.field (by simp) hleft))
        obtain ⟨hdraw₂, hrhs⟩ := operandStub_after hdraw₁ hrhs (hP.target (.field (by simp) hright))
        obtain ⟨hdraw₃, hleftName⟩ := temporary_after (hdraw₁.trans hdraw₂) hleftName hP.self
        obtain ⟨hdraw₄, hrightName⟩ :=
          temporary_after ((hdraw₁.trans hdraw₂).trans hdraw₃) hrightName hP.self
        have hdraw₂₄ := (hdraw₂.trans hdraw₃).trans hdraw₄
        have hdraw := hdraw₁.trans hdraw₂₄
        obtain ⟨rfl, rfl⟩ := some_of_pure h₄
        refine ⟨hdraw, rfl, ?_⟩
        dsimp only
        rw [hdraw.held, hdraw.arithmeticCheck]
        exact .binary rfl (by simpa using hchecked) hleft hright (hlhs.mono fun _ => hdraw₂₄.drawn)
          (hrhs.mono fun _ => (hdraw₃.trans hdraw₄).drawn) (hdraw₄.drawn hleftName) hrightName
  · exact (not_none h).elim

theorem assignmentChange_ok (h : Yields (assignmentChange id) s (some change) s')
    (hP : HostsIn P s id) :
    Draws P s s' ∧ change.node = id ∧ Rewrites s (Drawn P s') id .assignment change.replacement := by
  replace h := Yields.get_bind_iff.1 h
  dsimp only at h
  split at h
  · next left right hleft hright =>
    split at h
    · exact (not_none h).elim
    · obtain ⟨found, s₁, htarget, h₁⟩ := Yields.bind_iff.1 h
      cases found with
      | none => exact (not_none h₁).elim
      | some target =>
        dsimp only at h₁
        split at h₁
        · next store hstore =>
          obtain ⟨value, s₂, hvalue, h₂⟩ := Yields.bind_iff.1 h₁
          replace h₂ := Yields.get_bind_iff.1 h₂
          obtain ⟨hdraw₁, htarget⟩ := targetStub_ok htarget (hP.target (.field (by simp) hleft))
          obtain ⟨hdraw₂, hvalue⟩ :=
            operandStub_after hdraw₁ hvalue (hP.target (.field (by simp) hright))
          have hdraw := hdraw₁.trans hdraw₂
          obtain ⟨rfl, rfl⟩ := some_of_pure h₂
          refine ⟨hdraw, rfl, ?_⟩
          dsimp only
          rw [hdraw.traced]
          exact .assignment hleft hright (htarget.mono fun _ => hdraw₂.drawn) hstore hvalue
        · exact (not_none h₁).elim
  · exact (not_none h).elim

theorem compoundChange_ok (h : Yields (compoundChange id) s (some change) s')
    (hP : HostsIn P s id) :
    Draws P s s' ∧ change.node = id ∧ Rewrites s (Drawn P s') id .compound change.replacement := by
  replace h := Yields.get_bind_iff.1 h
  dsimp only at h
  split at h
  · next operator hop =>
    split at h
    · exact (not_none h).elim
    · split at h
      · next left right hleft hright =>
        obtain ⟨found, s₁, htarget, h₁⟩ := Yields.bind_iff.1 h
        cases found with
        | none => exact (not_none h₁).elim
        | some target =>
          dsimp only at h₁
          split at h₁
          · next store hstore =>
            obtain ⟨value, s₂, hvalue, h₂⟩ := Yields.bind_iff.1 h₁
            obtain ⟨current, s₃, hcurrent, h₃⟩ := Yields.bind_iff.1 h₂
            obtain ⟨operand, s₄, hoperand, h₄⟩ := Yields.bind_iff.1 h₃
            replace h₄ := Yields.get_bind_iff.1 h₄
            obtain ⟨hdraw₁, htarget⟩ := targetStub_ok htarget (hP.target (.field (by simp) hleft))
            obtain ⟨hdraw₂, hvalue⟩ :=
              operandStub_after hdraw₁ hvalue (hP.target (.field (by simp) hright))
            obtain ⟨hdraw₃, hcurrent⟩ := temporary_after (hdraw₁.trans hdraw₂) hcurrent hP.self
            obtain ⟨hdraw₄, hoperand⟩ :=
              temporary_after ((hdraw₁.trans hdraw₂).trans hdraw₃) hoperand hP.self
            have hdraw₂₄ := (hdraw₂.trans hdraw₃).trans hdraw₄
            have hdraw := hdraw₁.trans hdraw₂₄
            obtain ⟨rfl, rfl⟩ := some_of_pure h₄
            refine ⟨hdraw, rfl, ?_⟩
            dsimp only
            rw [hdraw.held, hdraw.traced, hdraw.arithmeticCheck]
            exact .compound hleft hright (htarget.mono fun _ => hdraw₂₄.drawn) hstore
              (hvalue.mono fun _ => (hdraw₃.trans hdraw₄).drawn) (hdraw₄.drawn hcurrent) hoperand
              (ite_eq_or_eq _ _ _)
          · exact (not_none h₁).elim
      · exact (not_none h).elim
  · exact (not_none h).elim

theorem declaratorChange_ok (h : Yields (declaratorChange id) s (some change) s')
    (hP : HostsIn P s id) :
    Draws P s s' ∧ change.node = id ∧ Rewrites s (Drawn P s') id .declarator change.replacement := by
  replace h := Yields.get_bind_iff.1 h
  dsimp only at h
  split at h
  · next name init hname hinit =>
    split at h
    · exact (not_none h).elim
    · next hkind =>
      split at h
      · exact (Yields.not_throw h).elim
      · next target htarget =>
        obtain ⟨value, s₁, hvalue, h₁⟩ := Yields.bind_iff.1 h
        replace h₁ := Yields.get_bind_iff.1 h₁
        obtain ⟨hdraw, hvalue⟩ := operandStub_ok hvalue (hP.target (.field (by simp) hinit))
        obtain ⟨rfl, rfl⟩ := some_of_pure h₁
        refine ⟨hdraw, rfl, ?_⟩
        dsimp only
        rw [hdraw.hookCall, hdraw.location, hdraw.tree]
        refine .declarator hname hinit ?_ htarget hvalue
        simp only [Bool.or_eq_true, decide_eq_true_eq, not_or] at hkind
        exact Decidable.not_not.1 hkind.1
  · exact (not_none h).elim

theorem returnChange_ok (h : Yields (returnChange id) s (some change) s') (hP : HostsIn P s id) :
    Draws P s s' ∧ change.node = id ∧ Rewrites s (Drawn P s') id .returning change.replacement := by
  replace h := Yields.get_bind_iff.1 h
  dsimp only at h
  split at h
  · next argument hargument _ =>
    obtain ⟨value, s₁, hvalue, h₁⟩ := Yields.bind_iff.1 h
    replace h₁ := Yields.get_bind_iff.1 h₁
    obtain ⟨hdraw, hvalue⟩ :=
      operandStub_ok hvalue (hP.target (.returned (List.mem_of_head? hargument)))
    obtain ⟨rfl, rfl⟩ := some_of_pure h₁
    refine ⟨hdraw, rfl, ?_⟩
    dsimp only
    rw [hdraw.hookCall, hdraw.location]
    exact .returned hargument hvalue
  · split at h
    · exact (not_none h).elim
    · obtain ⟨hterm, rfl⟩ := Yields.pure_iff.1 h
      obtain ⟨leading, trailing, rfl⟩ := terminated_ok hterm.symm
      exact ⟨.refl, rfl, .unreturned⟩

theorem not_refuse {callee : NodeId} {why : CallRefusal}
    (h : Yields (refuse id callee why) s (some change) s') : False := by
  obtain ⟨_, _, _, h₁⟩ := Yields.bind_iff.1 (Yields.get_bind_iff.1 h)
  exact not_none h₁

theorem calleeOf_ok {callee : NodeId} {called : Callee}
    (h : Yields (calleeOf callee) s (some called) s') (hP : P (s.host? (s.tree.unwrap callee))) :
    Draws P s s' ∧ CalleeForm s (Drawn P s') callee called := by
  have hwhole : s.tree.isPlainMember (s.tree.unwrap callee) = false →
      Yields (pure (some { function := .splice callee (s.tree.text callee), receiver := .void }) :
        InstrumentM (Option Callee)) s (some called) s' →
      Draws P s s' ∧ CalleeForm s (Drawn P s') callee called := by
    intro hm h
    obtain ⟨hsome, rfl⟩ := Yields.pure_iff.1 h
    obtain rfl := Option.some.inj hsome
    exact ⟨.refl, .whole hm⟩
  have hnotPlain : s.tree.kind (s.tree.unwrap callee) ≠ .memberExpression →
      s.tree.kind (s.tree.unwrap callee) ≠ .subscriptExpression →
      s.tree.isPlainMember (s.tree.unwrap callee) = false := by
    intro h₁ h₂
    cases hm : s.tree.isPlainMember (s.tree.unwrap callee) with
    | false => rfl
    | true => exact ((SyntaxTree.kind_of_isPlainMember hm).elim h₁ h₂).elim
  -- a member access is no identifier, no call and no other operand, so its stub is that of a member
  have hmember : s.tree.isPlainMember (s.tree.unwrap callee) = true →
      Yields (do
        let member ← operandStub (s.tree.unwrap callee)
        return some { preamble := member.preamble, function := member.value,
                      receiver := member.origin.scope }) s (some called) s' →
      Draws P s s' ∧ CalleeForm s (Drawn P s') callee called := by
    intro hm h
    have hself : s.tree.unwrap (s.tree.unwrap callee) = s.tree.unwrap callee := by
      refine SyntaxTree.unwrap_of_kind ?_
      rcases SyntaxTree.kind_of_isPlainMember hm with e | e <;> rw [e] <;> decide
    obtain ⟨member, s₁, hstub, h₁⟩ := Yields.bind_iff.1 h
    obtain ⟨hsome, rfl⟩ := Yields.pure_iff.1 h₁
    obtain rfl := Option.some.inj hsome
    obtain ⟨hdraw, hstub⟩ := operandStub_ok hstub (hself.symm ▸ hP)
    refine ⟨hdraw, ?_⟩
    cases hstub with
    | identifier hv =>
      cases hv with
      | mk hk _ =>
        rw [hself] at hk
        rcases SyntaxTree.kind_of_isPlainMember hm with e | e <;> exact absurd (e.symm.trans hk) (by decide)
    | member _ hstub => exact .member hm (hself ▸ hstub)
    | call hc =>
      have hk := SyntaxTree.kind_of_isCheckedCall hc
      rw [hself] at hk
      rcases SyntaxTree.kind_of_isPlainMember hm with e | e <;> exact absurd (e.symm.trans hk) (by decide)
    | whole _ hn =>
      rw [hself, hm] at hn
      cases hn
  replace h := Yields.get_bind_iff.1 h
  dsimp only at h
  split at h
  · next hk => exact hwhole (hnotPlain (by rw [hk]; decide) (by rw [hk]; decide)) h
  · next hk => exact hwhole (hnotPlain (by rw [hk]; decide) (by rw [hk]; decide)) h
  · split at h
    · next hm => exact hmember hm h
    · obtain ⟨hsome, -⟩ := Yields.pure_iff.1 h
      cases hsome
  · split at h
    · next hm => exact hmember hm h
    · obtain ⟨hsome, -⟩ := Yields.pure_iff.1 h
      cases hsome
  · obtain ⟨hsome, -⟩ := Yields.pure_iff.1 h
    cases hsome

theorem traceArguments_ok {heldUntil : Option Nat} {arguments : List NodeId} :
    ∀ {u s' : Instrumentation} {i : Nat} {reads passed : List Code}, Draws P s u →
      (∀ o ∈ arguments, P (s.host? o) ∧ P (s.host? (s.tree.unwrap o))) →
      Yields (traceArguments heldUntil i arguments) u (reads, passed) s' →
      Draws P u s' ∧ ArgumentsForm s (Drawn P s') heldUntil i arguments reads passed := by
  induction arguments with
  | nil =>
    intro u s' i reads passed hdraw hP h
    obtain ⟨hpair, rfl⟩ := Yields.pure_iff.1 h
    cases hpair
    exact ⟨.refl, .nil⟩
  | cons argument rest ih =>
    intro u s' i reads passed hdraw hP h
    have hP' : ∀ o ∈ rest, P (s.host? o) ∧ P (s.host? (s.tree.unwrap o)) :=
      fun o ho => hP o (List.mem_cons_of_mem _ ho)
    -- What follows the choice whether to hold the argument is the same either way.
    have htail : ∀ {v : Instrumentation} (x : List Code × Stub), Draws P s v → Yields (do
          let s ← get
          let y ← traceArguments heldUntil (i + 1) rest
          return (x.1 ++ y.1, x.2.sequence (s.passed i argument x.2) :: y.2)) v (reads, passed) s' →
        ∃ r p, Draws P v s' ∧ ArgumentsForm s (Drawn P s') heldUntil (i + 1) rest r p ∧
          reads = x.1 ++ r ∧ passed = x.2.sequence (s.passed i argument x.2) :: p := by
      intro v x hv h
      obtain ⟨⟨r, p⟩, v₁, hrest, h₁⟩ := Yields.bind_iff.1 (Yields.get_bind_iff.1 h)
      obtain ⟨hpair, rfl⟩ := Yields.pure_iff.1 h₁
      cases hpair
      obtain ⟨hdraw', hform⟩ := ih hv hP' hrest
      exact ⟨r, p, hdraw', hform, rfl, by rw [hv.same]; rfl⟩
    obtain ⟨stub, s₁, hstub, h₁⟩ := Yields.bind_iff.1 h
    obtain ⟨hdraw₁, hstub⟩ := operandStub_after hdraw hstub (hP argument List.mem_cons_self).2
    replace h₁ := Yields.get_bind_iff.1 h₁
    dsimp only at h₁
    split at h₁
    · next hheld =>
      obtain ⟨name, s₂, hname, h₂⟩ := Yields.bind_iff.1 h₁
      replace h₂ := Yields.get_bind_iff.1 h₂
      obtain ⟨x, s₃, hx, h₃⟩ := Yields.bind_iff.1 h₂
      obtain ⟨hdraw₂, hname⟩ :=
        temporary_after (hdraw.trans hdraw₁) hname (hP argument List.mem_cons_self).1
      have hdraw₁₂ := (hdraw.trans hdraw₁).trans hdraw₂
      obtain ⟨rfl, rfl⟩ := Yields.pure_iff.1 hx
      obtain ⟨r, p, hdraw₃, hform, rfl, rfl⟩ := htail _ hdraw₁₂ h₃
      refine ⟨(hdraw₁.trans hdraw₂).trans hdraw₃, ?_⟩
      rw [hdraw₁₂.held]
      rw [(hdraw.trans hdraw₁).tree] at hheld
      exact .held hheld (hstub.mono fun _ => (hdraw₂.trans hdraw₃).drawn) (hdraw₃.drawn hname) hform
    · next hheld =>
      obtain ⟨x, s₂, hx, h₂⟩ := Yields.bind_iff.1 h₁
      obtain ⟨rfl, rfl⟩ := Yields.pure_iff.1 hx
      obtain ⟨r, p, hdraw₂, hform, rfl, rfl⟩ := htail _ (hdraw.trans hdraw₁) h₂
      refine ⟨hdraw₁.trans hdraw₂, ?_⟩
      refine .direct ?_ (hstub.mono fun _ => hdraw₂.drawn) hform
      rw [(hdraw.trans hdraw₁).tree] at hheld
      simpa [isHeld] using hheld

theorem kind_of_refusal {arguments : NodeId} (h : s.refusal? id arguments = none) :
    s.tree.kind arguments = .arguments := by
  unfold refusal? at h
  split at h
  · cases h
  · split at h
    · cases h
    · next hk => exact Decidable.not_not.1 hk

theorem callChange_ok (h : Yields (callChange id) s (some change) s') (hP : HostsIn P s id) :
    Draws P s s' ∧ change.node = id ∧ Rewrites s (Drawn P s') id .call change.replacement := by
  replace h := Yields.get_bind_iff.1 h
  dsimp only at h
  split at h
  · next callee arguments hcallee harguments =>
    split at h
    · exact (not_refuse h).elim
    · next hrefusal =>
      have hkind := kind_of_refusal hrefusal
      split at h
      · exact (not_none h).elim
      · obtain ⟨found, s₁, hfound, h₁⟩ := Yields.bind_iff.1 h
        cases found with
        | none => exact (not_refuse h₁).elim
        | some called =>
          obtain ⟨⟨reads, passed⟩, s₂, htrace, h₂⟩ := Yields.bind_iff.1 h₁
          replace h₂ := Yields.get_bind_iff.1 h₂
          obtain ⟨hdraw₁, hcalled⟩ := calleeOf_ok hfound (hP.target (.field (by simp) hcallee))
          obtain ⟨hdraw₂, hform⟩ := traceArguments_ok hdraw₁
            (fun o ho => ⟨hP.operand (.argument harguments hkind ho),
              hP.target (.argument harguments hkind ho)⟩)
            htrace
          have hdraw := hdraw₁.trans hdraw₂
          obtain ⟨rfl, rfl⟩ := some_of_pure h₂
          refine ⟨hdraw, rfl, ?_⟩
          dsimp only
          rw [hdraw.hookCall, hdraw.location, hdraw.tree]
          exact .call hcallee harguments hkind (hcalled.mono fun _ => hdraw₂.drawn) hform
  · exact (not_none h).elim

theorem change_ok {r : Rule} (hr : r ≠ .body) (h : Yields (r.change? id) s (some change) s')
    (hP : HostsIn P s id) :
    Draws P s s' ∧ change.node = id ∧ Rewrites s (Drawn P s') id r change.replacement := by
  cases r with
  | terminator =>
    replace h := Yields.get_bind_iff.1 h
    obtain ⟨hterm, rfl⟩ := Yields.pure_iff.1 h
    obtain ⟨leading, trailing, rfl⟩ := terminated_ok hterm.symm
    exact ⟨.refl, rfl, .terminator⟩
  | binary => exact binaryChange_ok h hP
  | assignment => exact assignmentChange_ok h hP
  | compound => exact compoundChange_ok h hP
  | declarator => exact declaratorChange_ok h hP
  | returning => exact returnChange_ok h hP
  | call => exact callChange_ok h hP
  | body => exact absurd rfl hr

end InstrumentM

end CoercionTrace
