import CoercionTrace.Proofs.Instrument.Closed

/-!
# Instrumentation succeeds

No step of an instrumentation breaks its contract with another one: every identifier has a key, a
member access that is taken apart has its parts, every function that is reached has its scope and its
body, and no node is replaced twice. Main statements: every rule succeeds on every node
(`change_succeeds`) but the body rule where it would have to cut a character, and so do a pass and the
header behind it (`instrumentation_keepsContract`).
-/

namespace CoercionTrace

open Instrumentation InstrumentM

variable {s s' s₀ : Instrumentation} {id : NodeId} {rules : List Rule} {done : List NodeId}

/-! ## Keys -/

theorem Fixed.identifierOrigin (h : Fixed s s') : s'.identifierOrigin = s.identifierOrigin := by
  funext id
  simp only [Instrumentation.identifierOrigin, h.shape.rawSource, h.scopes, h.hook, h.isInstrumented,
    h.traceVariable?]

theorem Draws.identifierOrigin {P : Option ScopeId → Prop} (h : Draws P s s') :
    s'.identifierOrigin = s.identifierOrigin := by
  rw [h.same]
  rfl

theorem Keyed.drawn {P : Option ScopeId → Prop} (hk : Keyed s) (h : Draws P s s') : Keyed s' := by
  intro id
  rw [Draws.identifierOrigin h]
  exact hk id

namespace InstrumentM

/-! ## Stubs -/

theorem temporary_succeeds (id : NodeId) : Succeeds (temporary id) s :=
  .get_bind (.bind .set fun _ _ _ => .pure _)

theorem identifierStub_succeeds (hk : Keyed s) (id : NodeId) : Succeeds (identifierStub id) s := by
  obtain ⟨origin, ho⟩ := hk id
  refine .get_bind ?_
  rw [ho]
  exact .pure _

theorem memberKey_succeeds (hm : s.tree.isPlainMember id = true) : Succeeds (memberKey id) s := by
  unfold SyntaxTree.isPlainMember at hm
  refine .get_bind ?_
  split at hm
  · cases hm
  · split at hm
    · cases hm
    · split at hm
      · next hkind =>
        rw [hkind]
        cases hp : s.tree.child? id "property" with
        | none => simp [hp] at hm
        | some p => exact .pure _
      · next hkind =>
        rw [hkind]
        obtain ⟨i, hi⟩ := Option.isSome_iff_exists.1 hm
        dsimp only
        rw [hi]
        exact .pure _
      · cases hm

theorem object_of_isPlainMember {t : SyntaxTree} (hm : t.isPlainMember id = true) :
    ∃ object, t.child? id "object" = some object := by
  unfold SyntaxTree.isPlainMember at hm
  split at hm
  · cases hm
  · next object ho => exact ⟨object, ho⟩

theorem memberStub_succeeds (hm : s.tree.isPlainMember id = true) : Succeeds (memberStub id) s := by
  obtain ⟨object, ho⟩ := object_of_isPlainMember hm
  refine .get_bind ?_
  rw [ho]
  refine .bind (memberKey_succeeds hm) fun _ _ _ => ?_
  refine .bind (temporary_succeeds id) fun _ _ _ => ?_
  refine .bind (temporary_succeeds id) fun _ _ _ => ?_
  exact .get_bind (.pure _)

theorem operandStub_succeeds (hk : Keyed s) (id : NodeId) : Succeeds (operandStub id) s := by
  refine .get_bind ?_
  dsimp only
  split
  · exact identifierStub_succeeds hk _
  · split
    · next hm => exact memberStub_succeeds hm
    · exact .pure _
  · split
    · next hm => exact memberStub_succeeds hm
    · exact .pure _
  · split
    · exact .pure _
    · exact .pure _
  · exact .pure _

theorem targetStub_succeeds (hk : Keyed s) (id : NodeId) : Succeeds (targetStub id) s := by
  refine .get_bind ?_
  dsimp only
  split
  · exact .bind (identifierStub_succeeds hk _) fun _ _ _ => .pure _
  · split
    · next hm => exact .bind (memberStub_succeeds hm) fun _ _ _ => .pure _
    · exact .pure _
  · split
    · next hm => exact .bind (memberStub_succeeds hm) fun _ _ _ => .pure _
    · exact .pure _
  · exact .pure _

/-! ## Keys after stubs -/

theorem keyed_of_operandStub {stub : Stub} (hk : Keyed s) (h : Yields (operandStub id) s stub s') :
    Keyed s' :=
  hk.drawn (operandStub_ok (P := fun _ => True) h trivial).1

theorem keyed_of_temporary {name : String} (hk : Keyed s) (h : Yields (temporary id) s name s') :
    Keyed s' :=
  hk.drawn (temporary_ok (P := fun _ => True) h trivial).1

theorem keyed_of_targetStub {target : Option Stub} (hk : Keyed s)
    (h : Yields (targetStub id) s target s') : Keyed s' := by
  cases target with
  | none => exact (targetStub_none h).1 ▸ hk
  | some stub => exact hk.drawn (targetStub_ok (P := fun _ => True) h trivial).1

/-! ## Rules -/

theorem binaryChange_succeeds (hk : Keyed s) (id : NodeId) : Succeeds (binaryChange id) s := by
  refine .get_bind ?_
  dsimp only
  split
  · split
    · split <;> exact .pure _
    · split
      · exact .pure _
      · refine .bind (operandStub_succeeds hk _) fun _ u hu => ?_
        refine .bind (operandStub_succeeds (keyed_of_operandStub hk hu) _) fun _ _ _ => ?_
        refine .bind (temporary_succeeds id) fun _ _ _ => ?_
        refine .bind (temporary_succeeds id) fun _ _ _ => ?_
        exact .get_bind (.pure _)
  · exact .pure _

theorem assignmentChange_succeeds (hk : Keyed s) (id : NodeId) :
    Succeeds (assignmentChange id) s := by
  refine .get_bind ?_
  dsimp only
  split
  · split
    · exact .pure _
    · refine .bind (targetStub_succeeds hk _) fun target u hu => ?_
      cases target with
      | none => exact .pure _
      | some target =>
        dsimp only
        split
        · refine .bind (operandStub_succeeds (keyed_of_targetStub hk hu) _) fun _ _ _ => ?_
          exact .get_bind (.pure _)
        · exact .pure _
  · exact .pure _

theorem compoundChange_succeeds (hk : Keyed s) (id : NodeId) : Succeeds (compoundChange id) s := by
  refine .get_bind ?_
  dsimp only
  split
  · split
    · exact .pure _
    · split
      · refine .bind (targetStub_succeeds hk _) fun target u hu => ?_
        cases target with
        | none => exact .pure _
        | some target =>
          dsimp only
          split
          · refine .bind (operandStub_succeeds (keyed_of_targetStub hk hu) _) fun _ _ _ => ?_
            refine .bind (temporary_succeeds id) fun _ _ _ => ?_
            refine .bind (temporary_succeeds id) fun _ _ _ => ?_
            exact .get_bind (.pure _)
          · exact .pure _
      · exact .pure _
  · exact .pure _

theorem declaratorChange_succeeds (hk : Keyed s) (id : NodeId) :
    Succeeds (declaratorChange id) s := by
  refine .get_bind ?_
  dsimp only
  split
  · next name init _ _ =>
    split
    · exact .pure _
    · obtain ⟨target, htarget⟩ := hk name
      rw [htarget]
      refine .bind (operandStub_succeeds hk _) fun _ _ _ => ?_
      exact .get_bind (.pure _)
  · exact .pure _

theorem returnChange_succeeds (hk : Keyed s) (id : NodeId) : Succeeds (returnChange id) s := by
  refine .get_bind ?_
  dsimp only
  split
  · refine .bind (operandStub_succeeds hk _) fun _ _ _ => ?_
    exact .get_bind (.pure _)
  · split <;> exact .pure _

theorem traceArguments_succeeds (heldUntil : Option Nat) (arguments : List NodeId) (hk : Keyed s)
    (i : Nat) : Succeeds (traceArguments heldUntil i arguments) s := by
  induction arguments generalizing s i with
  | nil => exact .pure _
  | cons argument rest ih =>
    refine .bind (operandStub_succeeds hk argument) fun stub u hu => ?_
    have hku := keyed_of_operandStub hk hu
    refine .get_bind ?_
    dsimp only
    split
    · refine .bind (temporary_succeeds argument) fun name v hv => ?_
      refine .get_bind (.get_bind (.get_bind ?_))
      exact .bind (ih (keyed_of_temporary hku hv) _) fun _ _ _ => .pure _
    · refine .get_bind (.get_bind ?_)
      exact .bind (ih hku _) fun _ _ _ => .pure _

theorem calleeOf_succeeds (hk : Keyed s) (callee : NodeId) : Succeeds (calleeOf callee) s := by
  refine .get_bind ?_
  dsimp only
  split
  · exact .pure _
  · exact .pure _
  · split
    · exact .bind (operandStub_succeeds hk _) fun _ _ _ => .pure _
    · exact .pure _
  · split
    · exact .bind (operandStub_succeeds hk _) fun _ _ _ => .pure _
    · exact .pure _
  · exact .pure _

theorem refuse_succeeds (id callee : NodeId) (why : CallRefusal) :
    Succeeds (refuse id callee why) s :=
  .get_bind (.bind .modify fun _ _ _ => .pure _)

theorem callChange_succeeds (hk : Keyed s) (id : NodeId) : Succeeds (callChange id) s := by
  refine .get_bind ?_
  dsimp only
  split
  · next callee arguments _ _ =>
    split
    · exact refuse_succeeds id _ _
    · split
      · exact .pure _
      · refine .bind (calleeOf_succeeds hk _) fun called u hu => ?_
        cases called with
        | none => exact refuse_succeeds id _ _
        | some called =>
          have hku : Keyed u := hk.drawn (calleeOf_ok (P := fun _ => True) hu trivial).1
          refine .bind (traceArguments_succeeds _ _ hku _) fun _ _ _ => ?_
          exact .get_bind (.pure _)
  · exact .pure _

theorem change_succeeds (hk : Keyed s) {r : Rule} (hr : r ≠ .body) (id : NodeId) :
    Succeeds (r.change? id) s := by
  cases r with
  | terminator => exact .get_bind (.pure _)
  | binary => exact binaryChange_succeeds hk id
  | assignment => exact assignmentChange_succeeds hk id
  | compound => exact compoundChange_succeeds hk id
  | declarator => exact declaratorChange_succeeds hk id
  | returning => exact returnChange_succeeds hk id
  | call => exact callChange_succeeds hk id
  | body => exact absurd rfl hr

theorem cutBody_fails_iff {body : NodeId} {halt : Halt} : Fails (cutBody body) s halt s' ↔
    isBoundary s.tree.source (s.tree.bodyStop body) = false ∧
      halt = .insideCharacter (s.tree.bodyStop body) ∧ s' = s := by
  refine Fails.get_bind_iff.trans ?_
  dsimp only
  split
  · next hcut => simp [Fails.not_pure, hcut]
  · next hcut => simp [Fails.throw_iff, hcut]

theorem bodyChange_fails_iff {halt : Halt} {number : ScopeId} {body : NodeId}
    (hscope : s.scopes.scopeOf? id = some number) (hkind : (s.scopes.scope number).kind = .function)
    (hbody : s.tree.child? id "body" = some body) :
    Fails (bodyChange id) s halt s' ↔
      isBoundary s.tree.source (s.tree.bodyStop body) = false ∧
        (s.isInstrumented number = true ∨ s.pending (some number) ≠ []) ∧
        halt = .insideCharacter (s.tree.bodyStop body) ∧
        s' = { s with temporaries := s.temporaries.erase (some number) } := by
  refine Fails.get_bind_iff.trans ?_
  simp only [hscope, hkind, hbody, ne_eq, not_true_eq_false, if_false, Fails.bind_iff,
    takeTemporaries_not_fails, takeTemporaries_iff, false_or]
  constructor
  · rintro ⟨_, _, ⟨rfl, rfl⟩, hfails⟩
    split at hfails
    · next hinstrumented =>
      obtain ⟨hinside, hhalt, hs⟩ := cutBody_fails_iff.1 (Fails.bind_pure_iff.1 hfails)
      exact ⟨hinside, .inl hinstrumented, hhalt, hs⟩
    · split at hfails
      · exact (Fails.not_pure hfails).elim
      · next hempty =>
        obtain ⟨hinside, hhalt, hs⟩ := cutBody_fails_iff.1 (Fails.bind_pure_iff.1 hfails)
        exact ⟨hinside, .inr fun e => hempty (List.isEmpty_iff.2 e), hhalt, hs⟩
  · rintro ⟨hinside, hneeded, hhalt, hs⟩
    refine ⟨_, _, ⟨rfl, rfl⟩, ?_⟩
    split
    · exact Fails.bind_pure_iff.2 (cutBody_fails_iff.2 ⟨hinside, hhalt, hs⟩)
    · next hinstrumented =>
      have hempty := hneeded.resolve_left hinstrumented
      rw [if_neg fun e => hempty (List.isEmpty_iff.1 e)]
      exact Fails.bind_pure_iff.2 (cutBody_fails_iff.2 ⟨hinside, hhalt, hs⟩)

/-! ## Replacements -/

theorem replace_succeeds {rep : Replacement} (h : (s.tree.node id).replacement = none) :
    Succeeds (replace id rep) s := by
  refine .get_bind ?_
  have hbare : (s.tree.node id).isReplaced = false := by rw [Node.isReplaced, h]; rfl
  rw [SyntaxTree.update, hbare]
  exact .set

theorem apply_fails_iff {r : Rule} {halt : Halt}
    (hbare : ∀ change u, Yields (r.change? id) s (some change) u →
      (u.tree.node change.node).replacement = none) :
    Fails (r.apply id) s halt s' ↔ Fails (r.change? id) s halt s' := by
  refine Fails.bind_iff.trans (or_iff_left ?_)
  rintro ⟨found, u, hu, h⟩
  cases found with
  | none => exact Fails.not_pure h
  | some change =>
    obtain ⟨_, _, hreplace⟩ := replace_succeeds (hbare change u hu)
    exact hreplace.not_fails (Fails.bind_pure_iff.1 h)

theorem visit_fails_iff {halt : Halt} : Fails (visit rules id) s halt s' ↔
    ∃ r ∈ rules, r.handles (s.tree.kind id) = true ∧
      (r.appliesToSuppressed = true ∨ s.touchesSuppressed id = false) ∧ Fails (r.apply id) s halt s' := by
  refine Fails.get_bind_iff.trans ?_
  cases hr : rules.find? fun r => r.handles (s.tree.kind id) with
  | none =>
    refine iff_of_false Fails.not_pure ?_
    rintro ⟨r, hmem, hhandles, -⟩
    exact List.find?_eq_none.1 hr r hmem hhandles
  | some r =>
    have hhandles : r.handles (s.tree.kind id) = true := by simpa using List.find?_some hr
    dsimp only
    split
    · next hskip =>
      refine iff_of_false Fails.not_pure ?_
      rintro ⟨r', -, hhandles', happlies, -⟩
      rw [handles_unique hhandles hhandles'] at hskip
      rcases happlies with e | e <;> simp [e] at hskip
    · next hskip =>
      refine Fails.discard_iff.trans ⟨fun h => ⟨r, List.mem_of_find?_eq_some hr, hhandles, ?_, h⟩, ?_⟩
      · by_contra hno
        rw [not_or, Bool.not_eq_true, Bool.not_eq_false] at hno
        exact hskip (by rw [hno.1, hno.2]; rfl)
      · rintro ⟨r', -, hhandles', -, h⟩
        rwa [handles_unique hhandles hhandles']

theorem visitAll_append {before after : List NodeId} : Yields (visitAll rules (before ++ after)) s () s' ↔
    ∃ u, Yields (visitAll rules before) s () u ∧ Yields (visitAll rules after) u () s' := by
  induction before generalizing s with
  | nil =>
    constructor
    · exact fun h => ⟨s, Yields.pure_iff.2 ⟨rfl, rfl⟩, h⟩
    · rintro ⟨u, hu, h⟩
      obtain ⟨-, rfl⟩ := Yields.pure_iff.1 hu
      exact h
  | cons id before ih =>
    constructor
    · intro h
      obtain ⟨_, v, hv, h⟩ := Yields.bind_iff.1 h
      obtain ⟨u, hu, h⟩ := ih.1 h
      exact ⟨u, Yields.bind_iff.2 ⟨_, v, hv, hu⟩, h⟩
    · rintro ⟨u, hu, h⟩
      obtain ⟨_, v, hv, hu⟩ := Yields.bind_iff.1 hu
      exact Yields.bind_iff.2 ⟨_, v, hv, ih.2 ⟨u, hu, h⟩⟩

theorem visitAll_fails_iff {nodes : List NodeId} {halt : Halt} : Fails (visitAll rules nodes) s halt s' ↔
    ∃ before id after u, nodes = before ++ id :: after ∧ Yields (visitAll rules before) s () u ∧
      Fails (visit rules id) u halt s' := by
  induction nodes generalizing s with
  | nil =>
    refine iff_of_false Fails.not_pure ?_
    rintro ⟨before, _, _, _, h, -⟩
    simp at h
  | cons id rest ih =>
    refine Fails.bind_iff.trans ?_
    constructor
    · rintro (h | ⟨_, u, hu, h⟩)
      · exact ⟨[], id, rest, s, rfl, Yields.pure_iff.2 ⟨rfl, rfl⟩, h⟩
      · obtain ⟨before, id', after, v, rfl, hv, h⟩ := ih.1 h
        exact ⟨id :: before, id', after, v, rfl, Yields.bind_iff.2 ⟨_, u, hu, hv⟩, h⟩
    · rintro ⟨before, id', after, u, hnodes, hu, h⟩
      cases before with
      | nil =>
        obtain ⟨rfl, rfl⟩ := List.cons.inj hnodes
        obtain ⟨-, rfl⟩ := Yields.pure_iff.1 hu
        exact .inl h
      | cons _ before =>
        obtain ⟨rfl, rfl⟩ := List.cons.inj hnodes
        obtain ⟨_, v, hv, hu⟩ := Yields.bind_iff.1 hu
        exact .inr ⟨_, v, hv, ih.2 ⟨before, id', after, u, rfl, hu, h⟩⟩

end InstrumentM

/-! ## Passes -/

def SyntaxTree.HasBodies (t : SyntaxTree) : Prop :=
  ∀ f, (t.kind f).IsPlainFunction → ∃ body, t.child? f "body" = some body

def SyntaxTree.ClosesBodies (t : SyntaxTree) : Prop :=
  ∀ f, (t.kind f).IsPlainFunction → ∀ body, t.child? f "body" = some body →
    isBoundary t.source (t.bodyStop body) = true

theorem SyntaxTree.forall_plain_iff {t : SyntaxTree} {p : NodeId → Prop} :
    (∀ f, (t.kind f).IsPlainFunction → p f) ↔
      ∀ f < t.size, t.kind f ∈ [Kind.functionDeclaration, .functionExpression] → p f := by
  have hplain : ∀ {kind : Kind}, kind ∈ [Kind.functionDeclaration, .functionExpression] ↔
      kind.IsPlainFunction := by
    intro kind
    simp [Kind.IsPlainFunction]
  constructor
  · exact fun h f _ hf => h f (hplain.1 hf)
  · refine fun h f hf => h f (lt_size_of_kind fun hkind => ?_) (hplain.2 hf)
    rw [hkind] at hf
    rcases hf with e | e <;> cases e

instance (t : SyntaxTree) : Decidable t.HasBodies :=
  decidable_of_iff (∀ f < t.size, t.kind f ∈ [Kind.functionDeclaration, .functionExpression] →
    (t.child? f "body").isSome = true)
    (by simp only [Option.isSome_iff_exists, SyntaxTree.HasBodies, SyntaxTree.forall_plain_iff])

instance (t : SyntaxTree) : Decidable t.ClosesBodies :=
  decidable_of_iff (∀ f < t.size, t.kind f ∈ [Kind.functionDeclaration, .functionExpression] →
    ∀ body ∈ t.child? f "body", isBoundary t.source (t.bodyStop body) = true)
    (by simp only [Option.mem_def, SyntaxTree.ClosesBodies, SyntaxTree.forall_plain_iff])

/-- A pass that has come to state `s` has to replace the body of a function, to frame it or to declare
temporaries in it, and the last byte of the body lies inside a character. -/
structure CutsInside (s₀ s : Instrumentation) (f : NodeId) (k : ScopeId) (body : NodeId) : Prop where
  bodyOf : BodyOf s₀ f k body
  inside : isBoundary s₀.tree.source (s₀.tree.bodyStop body) = false
  needed : s₀.isInstrumented k = true ∨ s.pending (some k) ≠ []

/-- A pass visits the nodes in front of a function, and would then cut a character of its body. -/
def HaltsAt (s₀ : Instrumentation) (rules : List Rule) (f body : NodeId) : Prop :=
  ∃ k before after s, s₀.agenda = before ++ f :: after ∧ Yields (visitAll rules before) s₀ () s ∧
    Rule.body ∈ rules ∧ CutsInside s₀ s f k body

section

variable (hw : s₀.tree.WellFormed) (hf : s₀.scopes.Fits s₀.tree)
include hw

theorem Passed.body_bare (h : Passed s₀ done s) (hnot : ∀ f ∈ done, ¬ s₀.tree.Below f id)
    {body : NodeId} (hplain : (s₀.tree.kind id).IsPlainFunction)
    (hbody : s₀.tree.child? id "body" = some body) : (s.tree.node body).replacement = none := by
  have hown : ∀ {f number}, f ∈ done → ¬ BodyOf s₀ f number body := by
    intro f number hfd hb
    obtain rfl := hw.parent_unique (SyntaxTree.child?_mem hb.child) (SyntaxTree.child?_mem hbody)
    exact hnot _ hfd .refl
  refine Option.eq_none_iff_forall_ne_some.2 fun rep hrep => ?_
  cases h.replaced body rep hrep with
  | @construct r _ _ _ hhandles =>
    rw [hw.block hplain hbody] at hhandles
    cases r <;> simp [Rule.handles, Kind.isTerminable] at hhandles
  | framed hfd hb => exact hown hfd hb
  | host hfd hb => exact hown hfd hb

theorem Passed.root_bare (h : Passed s₀ done s) :
    (s.tree.node SyntaxTree.root).replacement = none := by
  refine h.bare_of_kind hw ?_
  rw [hw.program]
  rintro (e | ⟨r, -, hhandles⟩)
  · cases e
  · cases r <;> cases hhandles

theorem Passed.of_visitAll (hfresh : s₀.tree.IsFresh) {before after : List NodeId}
    (hagenda : s₀.agenda = before ++ id :: after) (h : Yields (visitAll rules before) s₀ () s) :
    Passed s₀ before s :=
  visitAll_induction (Q := Passed s₀) (.start hfresh)
    (fun {done id' rest _ _} hbefore hQ hv => by
      have hagenda' : s₀.agenda = done ++ id' :: (rest ++ id :: after) := by
        rw [hagenda, hbefore, List.append_assoc, List.cons_append]
      exact hQ.visit hw hfresh (not_below_of_agenda hw hagenda') hv) h

theorem Passed.body_change_bare (h : Passed s₀ done s) (hnot : ∀ f ∈ done, ¬ s₀.tree.Below f id)
    {k : ScopeId} {body : NodeId} (hb : BodyOf s₀ id k body) {change : Change} {u : Instrumentation}
    (hchange : Yields (Rule.body.change? id) s (some change) u) :
    (u.tree.node change.node).replacement = none := by
  rcases bodyChange_ok hchange with ⟨_, _, _, hnone, _⟩ | ⟨k', body', hb'⟩
  · cases hnone
  · have hsame : body' = body := by
      have hchild := hb'.child
      rw [h.visited.fixed.shape.child?, hb.child] at hchild
      exact (Option.some.inj hchild).symm
    have hnode : change.node = body' := by
      have hform := hb'.form
      generalize hc : some change = result at hform
      cases hform <;> cases hc <;> rfl
    rw [hb'.state, hnode, hsame]
    exact h.body_bare hw hnot hb.kind hb.child

include hf

theorem BodyOf.of_agenda (hid : id ∈ s₀.agenda) (hplain : (s₀.tree.kind id).IsPlainFunction)
    {body : NodeId} (hbody : s₀.tree.child? id "body" = some body) : ∃ k, BodyOf s₀ id k body := by
  have hlike : (s₀.tree.kind id).isFunctionLike = true := by
    rcases hplain with e | e <;> rw [e] <;> rfl
  obtain ⟨-, k, hscope, hfunction⟩ := Kept.plain_of_agenda hw hf hid hlike
  exact ⟨k, hplain, hscope, hfunction, hbody⟩

theorem Passed.visit_fails_iff (hbodies : s₀.tree.HasBodies) (hk : Keyed s₀) (h : Passed s₀ done s)
    (hid : id ∈ s₀.agenda) (hnot : ∀ f ∈ done, ¬ s₀.tree.Below f id) {halt : Halt} :
    (∃ s', Fails (InstrumentM.visit rules id) s halt s') ↔ Rule.body ∈ rules ∧
      ∃ k body, CutsInside s₀ s id k body ∧ halt = .insideCharacter (s₀.tree.bodyStop body) := by
  have hfixed := h.visited.fixed
  -- The body rule is the only one that may fail.
  have hcut : ∀ {k body s'}, BodyOf s₀ id k body → (Fails (Rule.body.apply id) s halt s' ↔
      isBoundary s₀.tree.source (s₀.tree.bodyStop body) = false ∧
        (s₀.isInstrumented k = true ∨ s.pending (some k) ≠ []) ∧
        halt = .insideCharacter (s₀.tree.bodyStop body) ∧
        s' = { s with temporaries := s.temporaries.erase (some k) }) := by
    intro k body s' hb
    rw [apply_fails_iff fun _ _ => h.body_change_bare hw hnot hb, Rule.change?,
      bodyChange_fails_iff (hfixed.scopes ▸ hb.scope) (hfixed.scopes ▸ hb.function)
        ((congrFun₂ hfixed.shape.child? id _).trans hb.child), hfixed.shape.source,
      hfixed.shape.bodyStop, hfixed.isInstrumented]
  have hother : ∀ {r s'}, r ≠ Rule.body → ¬ Fails (r.apply id) s halt s' := by
    intro r s' hr
    have hks : Keyed s := by
      intro i
      rw [hfixed.identifierOrigin]
      exact hk i
    rw [apply_fails_iff fun change u hchange => ?_]
    · obtain ⟨_, _, hchange⟩ := change_succeeds hks hr id
      exact hchange.not_fails
    · obtain ⟨hdraw, hnode, -⟩ := change_ok hr hchange (hostsIn_true s id)
      rw [hnode, hdraw.tree]
      exact h.bare_above hnot .refl
  have hplain : Rule.body.handles (s.tree.kind id) = true ↔ (s₀.tree.kind id).IsPlainFunction := by
    rw [hfixed.shape.kind]
    simp [Kind.IsPlainFunction, Rule.handles]
  simp only [InstrumentM.visit_fails_iff]
  constructor
  · rintro ⟨s', r, hr, hhandles, -, happly⟩
    obtain rfl : r = .body := by_contra fun hne => hother hne happly
    obtain ⟨body, hbody⟩ := hbodies id (hplain.1 hhandles)
    obtain ⟨k, hb⟩ := BodyOf.of_agenda hw hf hid (hplain.1 hhandles) hbody
    obtain ⟨hinside, hneeded, hhalt, -⟩ := (hcut hb).1 happly
    exact ⟨hr, k, body, ⟨hb, hinside, hneeded⟩, hhalt⟩
  · rintro ⟨hr, k, body, hstuck, hhalt⟩
    exact ⟨_, .body, hr, hplain.2 hstuck.bodyOf.kind, .inl rfl,
      (hcut hstuck.bodyOf).2 ⟨hstuck.inside, hstuck.needed, hhalt, rfl⟩⟩

theorem pass_fails_iff (hfresh : s₀.tree.IsFresh) (hbodies : s₀.tree.HasBodies) (hk : Keyed s₀)
    {halt : Halt} : (∃ s, Fails (pass rules) s₀ halt s) ↔
      ∃ f body, HaltsAt s₀ rules f body ∧ halt = .insideCharacter (s₀.tree.bodyStop body) := by
  have hvisit : ∀ {before after f u}, s₀.agenda = before ++ f :: after →
      Yields (visitAll rules before) s₀ () u → ((∃ s, Fails (visit rules f) u halt s) ↔ _) :=
    fun hagenda hu => (Passed.of_visitAll hw hfresh hagenda hu).visit_fails_iff hw hf hbodies hk
      (hagenda ▸ List.mem_append_right _ List.mem_cons_self) (not_below_of_agenda hw hagenda)
  have hall : ∀ s, Fails (pass rules) s₀ halt s ↔ _ :=
    fun s => Fails.get_bind_iff.trans visitAll_fails_iff
  constructor
  · rintro ⟨s, h⟩
    obtain ⟨before, f, after, u, hagenda, hu, hfails⟩ := (hall s).1 h
    obtain ⟨hrule, k, body, hcut, hhalt⟩ := (hvisit hagenda hu).1 ⟨s, hfails⟩
    exact ⟨f, body, ⟨k, before, after, u, hagenda, hu, hrule, hcut⟩, hhalt⟩
  · rintro ⟨f, body, ⟨k, before, after, u, hagenda, hu, hrule, hcut⟩, hhalt⟩
    obtain ⟨s, hfails⟩ := (hvisit hagenda hu).2 ⟨hrule, k, body, hcut, hhalt⟩
    exact ⟨s, (hall s).2 ⟨before, f, after, u, hagenda, hu, hfails⟩⟩

theorem cut_of_pass (hfresh : s₀.tree.IsFresh) (hbodies : s₀.tree.HasBodies) (hk : Keyed s₀)
    (hpass : Yields (pass rules) s₀ () s) (hrule : Rule.body ∈ rules) {f body : NodeId} {k : ScopeId}
    (hagenda : f ∈ s₀.agenda) (hb : BodyOf s₀ f k body) (hi : s₀.isInstrumented k = true) :
    isBoundary s₀.tree.source (s₀.tree.bodyStop body) = true := by
  by_contra hinside
  obtain ⟨before, after, hsplit⟩ := List.append_of_mem hagenda
  have hvisits : Yields (visitAll rules s₀.agenda) s₀ () s := Yields.get_bind_iff.1 hpass
  rw [hsplit] at hvisits
  obtain ⟨u, hu, -⟩ := visitAll_append.1 hvisits
  have hhalts : HaltsAt s₀ rules f body :=
    ⟨k, before, after, u, hsplit, hu, hrule, hb, Bool.eq_false_iff.2 hinside, .inl hi⟩
  obtain ⟨_, hfails⟩ := (pass_fails_iff hw hf hfresh hbodies hk).2 ⟨f, body, hhalts, rfl⟩
  exact hpass.not_fails hfails

end

theorem finish_succeeds (h : (s.tree.node SyntaxTree.root).replacement = none) (linkage : String) :
    Succeeds (finish linkage) s := by
  refine .get_bind ?_
  dsimp only
  refine .bind ⟨_, _, takeTemporaries_iff.2 ⟨rfl, rfl⟩⟩ fun temporaries u hu => ?_
  obtain ⟨-, rfl⟩ := takeTemporaries_iff.1 hu
  split
  · exact .pure _
  · exact replace_succeeds h

section

variable {tree : SyntaxTree} {scopes : ScopeTable} (hw : tree.WellFormed) (hfresh : tree.IsFresh)
  (hbodies : tree.HasBodies) (hscopes : ScopeTable.analyze tree = .ok scopes)
  (suppression : Suppression) (hook file linkage : String) (rules : List Rule)
include hw hfresh hbodies hscopes

theorem start_fails_iff {halt : Halt} :
    (∃ s, Fails (pass rules) (.start tree scopes suppression hook file) halt s) ↔
      ∃ f body, HaltsAt (.start tree scopes suppression hook file) rules f body ∧
        halt = .insideCharacter (tree.bodyStop body) := by
  have he := start_enrolled tree scopes suppression hook file
  obtain ⟨htree, hscopes', -, -⟩ := start_same tree scopes suppression hook file
  generalize Instrumentation.start tree scopes suppression hook file = s₀ at *
  subst htree hscopes'
  exact pass_fails_iff hw (ScopeTable.analyze_fits hscopes) hfresh hbodies he.keyed

theorem run_succeeds (hcloses : tree.ClosesBodies) :
    ∃ s s', Yields (pass rules) (.start tree scopes suppression hook file) () s ∧
      Yields (finish linkage) s () s' := by
  have hfails := @start_fails_iff _ _ hw hfresh hbodies hscopes suppression hook file rules
  obtain ⟨htree, -, -, -⟩ := start_same tree scopes suppression hook file
  generalize Instrumentation.start tree scopes suppression hook file = s₀ at *
  subst htree
  rcases Computation.yields_or_fails (pass rules) s₀ with ⟨_, hpass⟩ | ⟨halt, h⟩
  · obtain ⟨_, s', hfinish⟩ := finish_succeeds ((pass_passed hw hfresh hpass).root_bare hw) linkage
    exact ⟨_, s', hpass, hfinish⟩
  · obtain ⟨f, body, ⟨k, _, _, _, _, _, _, hcut⟩, -⟩ := hfails.1 ⟨_, h⟩
    have hcloses := hcloses f hcut.bodyOf.kind body hcut.bodyOf.child
    rw [hcut.inside] at hcloses
    cases hcloses

end

/-- No error comes out of an instrumentation of a tree that the grammar accepts: it succeeds, or it ends
inside a character at a body that it has to cut. -/
theorem instrumentation_keepsContract {tree : SyntaxTree} (hw : tree.WellFormed)
    (hfresh : tree.IsFresh) (hbodies : tree.HasBodies) (suppression : Suppression)
    (hook file linkage : String) (rules : List Rule) :
    ∃ scopes, ScopeTable.analyze tree = .ok scopes ∧
      let start := Instrumentation.start tree scopes suppression hook file
      (∀ e s, ¬ Fails (do pass rules; finish linkage) start (.error e) s) ∧
      ((∃ s s', Yields (pass rules) start () s ∧ Yields (finish linkage) s () s') ∨
        ∃ f body s, HaltsAt start rules f body ∧
          Fails (pass rules) start (.insideCharacter (tree.bodyStop body)) s) := by
  obtain ⟨scopes, hscopes⟩ := ScopeTable.analyze_succeeds tree
  have hfails := @start_fails_iff _ _ hw hfresh hbodies hscopes suppression hook file rules
  obtain ⟨htree, -, -, -⟩ := start_same tree scopes suppression hook file
  refine ⟨scopes, hscopes, ?_⟩
  generalize Instrumentation.start tree scopes suppression hook file = s₀ at *
  subst htree
  have hfinish : ∀ {s}, Yields (pass rules) s₀ () s → Succeeds (finish linkage) s := fun hpass =>
    finish_succeeds ((pass_passed hw hfresh hpass).root_bare hw) linkage
  constructor
  · intro e s h
    rcases Fails.bind_iff.1 h with h | ⟨_, u, hpass, h⟩
    · obtain ⟨_, _, -, hhalt⟩ := hfails.1 ⟨s, h⟩
      cases hhalt
    · obtain ⟨_, _, hyields⟩ := hfinish hpass
      exact hyields.not_fails h
  · rcases Computation.yields_or_fails (pass rules) s₀ with ⟨_, hpass⟩ | ⟨halt, h⟩
    · obtain ⟨_, s', hyields⟩ := hfinish hpass
      exact .inl ⟨_, s', hpass, hyields⟩
    · obtain ⟨f, body, hhalts, rfl⟩ := hfails.1 ⟨_, h⟩
      exact .inr ⟨f, body, _, hhalts, h⟩

-- The product in the second row is suppressed, and values are returned as they are.
theorem instrumentation_keepsContract_closedOver :
    closedOver.WellFormed ∧ closedOver.IsFresh ∧ closedOver.HasBodies ∧
      ∃ scopes, ScopeTable.analyze closedOver = .ok scopes ∧ ∃ s s',
        Yields (pass (Rule.all.erase .returning))
          (.start closedOver scopes ⟨[false, true]⟩ "__rt" "t.js") () s ∧
        Yields (finish "var __rt;") s () s' := by
  have hw : closedOver.WellFormed := by decide +kernel
  have hfresh : closedOver.IsFresh := SyntaxTree.isFresh_ofConcrete _ _
  have hbodies : closedOver.HasBodies := by decide +kernel
  have hcloses : closedOver.ClosesBodies := by decide +kernel
  obtain ⟨scopes, hscopes, -, hended⟩ := instrumentation_keepsContract hw hfresh hbodies
    ⟨[false, true]⟩ "__rt" "t.js" "var __rt;" (Rule.all.erase .returning)
  obtain ⟨htree, -, -, -⟩ := start_same closedOver scopes ⟨[false, true]⟩ "__rt" "t.js"
  refine ⟨hw, hfresh, hbodies, scopes, hscopes, hended.resolve_right ?_⟩
  rintro ⟨f, body, -, ⟨k, _, _, _, _, _, _, hcut⟩, -⟩
  have hinside := hcut.inside
  rw [htree] at hinside
  rw [hcloses f (htree ▸ hcut.bodyOf.kind) body (htree ▸ hcut.bodyOf.child)] at hinside
  cases hinside

end CoercionTrace
