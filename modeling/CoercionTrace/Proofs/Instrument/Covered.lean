import CoercionTrace.Proofs.Instrument.Frame
import CoercionTrace.Proofs.Instrument.Reached

/-!
# Nothing is skipped

What a pass comes to on rows that are not suppressed is rewritten, or there is a reason in the program
why not; and what is not a refused call is not complained of. Main statement: `pass_covers`.
-/

namespace CoercionTrace

open Instrumentation InstrumentM

variable {s s' s₀ : Instrumentation} {t t' : SyntaxTree} {done : List NodeId} {id b c d : NodeId}
  {r : Rule}

namespace SyntaxTree.SameShape

variable (h : t.SameShape t')
include h

theorem isTarget : t'.isTarget = t.isTarget := by
  funext left
  simp only [SyntaxTree.isTarget, h.kind, h.unwrap, h.isPlainMember]

theorem isCallee : t'.isCallee = t.isCallee := by
  funext callee
  simp only [SyntaxTree.isCallee, h.kind, h.unwrap, h.isPlainMember]

theorem isDirectEval : InstrumentM.isDirectEval t' = InstrumentM.isDirectEval t := by
  funext callee
  simp only [InstrumentM.isDirectEval, h.kind, h.unwrap, h.rawSource]

theorem keepsInferredName : InstrumentM.keepsInferredName t' = InstrumentM.keepsInferredName t := by
  funext left right
  simp only [InstrumentM.keepsInferredName, SyntaxTree.isAnonymousFunction, h.kind, h.unwrap, h.child?]

end SyntaxTree.SameShape

def Instrumentation.complaints (s : Instrumentation) (id : NodeId) : List Diagnostic :=
  if s.tree.kind id = .callExpression ∧ s.touchesSuppressed id = false then Rule.call.complaints s id
  else []

namespace Fixed

variable (h : Fixed s s')
include h

theorem refusal? : s'.refusal? = s.refusal? := by
  funext id arguments
  simp only [Instrumentation.refusal?, h.shape.hasOptionalLink, h.shape.kind,
    h.shape.significantChildren]

theorem complaint? : s'.complaint? = s.complaint? := by
  funext id
  simp only [Instrumentation.complaint?, h.shape.child?, h.refusal?, h.shape.rawSource,
    h.shape.isDirectEval, h.shape.isCallee]

theorem declines : r.Declines s' id ↔ r.Declines s id := by
  cases r <;> simp only [Rule.Declines, h.shape.child?, h.shape.operator, h.shape.keepsInferredName,
    h.shape.isTarget, h.complaint?, h.shape.isDirectEval]

theorem complaints : s'.complaints = s.complaints := by
  have hdiagnostic : s'.diagnostic = s.diagnostic := by
    funext id complaint
    simp only [Instrumentation.diagnostic, h.file, h.shape.line]
  funext id
  simp only [Instrumentation.complaints, Rule.complaints, hdiagnostic, h.shape.kind,
    h.touchesSuppressed, h.complaint?]

end Fixed

theorem Rule.complaints_of_ne_call (hr : r ≠ .call) : r.complaints s id = [] := by
  cases r with
  | call => exact absurd rfl hr
  | terminator | binary | assignment | compound | declarator | returning | body => rfl

theorem complaints_of_handles (hr : r.handles (s.tree.kind id) = true)
    (hrows : r = .call → s.touchesSuppressed id = false) : s.complaints id = r.complaints s id := by
  by_cases hcall : r = .call
  · subst hcall
    exact if_pos ⟨eq_of_beq hr, hrows rfl⟩
  · rw [Rule.complaints_of_ne_call hcall]
    refine if_neg fun h => hcall (handles_unique hr ?_)
    rw [h.1]
    rfl

theorem apply_diagnostics {changed : Bool} (h : Yields (r.apply id) s changed s') :
    s'.diagnostics = s.diagnostics ++ r.complaints s id := by
  by_cases hbody : r = .body
  · subst hbody
    have hchange : ∀ {result u}, Yields (Rule.body.change? id) s result u →
        u.diagnostics = s.diagnostics := by
      intro result u h
      rcases bodyChange_ok h with ⟨_, _, _, _, rfl⟩ | ⟨_, _, hb⟩
      · rfl
      · rw [hb.state]
    rw [Rule.complaints_of_ne_call (by decide), List.append_nil]
    rcases apply_ok h with ⟨-, h⟩ | ⟨-, _, u, h, -, hs⟩
    · exact hchange h
    · have hu := hchange h
      rw [hs]
      exact hu
  · rcases apply_ok h with ⟨-, h⟩ | ⟨-, change, u, h, -, hs⟩
    · rw [(change_none hbody h).2]
    · obtain ⟨hdraw, -, -⟩ := change_ok hbody h (hostsIn_true s id)
      have hnone : r.complaints s id = [] := by
        by_cases hcall : r = .call
        · subst hcall
          exact (callChange_some h).2
        · exact Rule.complaints_of_ne_call hcall
      rw [hs, hnone, hdraw.same, List.append_nil]

theorem visit_diagnostics (h : Yields (visit Rule.all id) s () s') :
    s'.diagnostics = s.diagnostics ++ s.complaints id := by
  have hidle : s' = s → s.complaints id = [] → s'.diagnostics = s.diagnostics ++ s.complaints id := by
    intro hs hnone
    rw [hs, hnone, List.append_nil]
  replace h := Yields.get_bind_iff.1 h
  split at h
  · next hnone =>
    refine hidle (Yields.pure_iff.1 h).2 (if_neg fun hcall => ?_)
    have hno := List.find?_eq_none.1 hnone .call (by decide)
    rw [hcall.1] at hno
    exact hno rfl
  · next r hr =>
    have hhandles : r.handles (s.tree.kind id) = true := by simpa using List.find?_some hr
    split at h
    · next hrows =>
      refine hidle (Yields.pure_iff.1 h).2 (if_neg fun hcall => ?_)
      simp [hcall.2] at hrows
    · next hrows =>
      obtain ⟨changed, happly⟩ := Yields.discard_iff.1 h
      rw [apply_diagnostics happly, complaints_of_handles hhandles]
      rintro rfl
      simpa [Rule.appliesToSuppressed] using hrows

theorem ne_body_of_operation (hr : r ∈ Rule.operations) : r ≠ .body := by
  rintro rfl
  simp [Rule.operations] at hr

theorem visit_operation (hr : r ∈ Rule.operations) (hhandles : r.handles (s.tree.kind id) = true)
    (hrows : s.touchesSuppressed id = false) (hv : Yields (visit Rule.all id) s () s') :
    r.Declines s id ∧ s'.tree = s.tree ∨ (r = .call → ¬ r.Declines s id) ∧
      ∃ drawn rep, Rewrites s drawn id r rep ∧ s.tree.Replaces id rep s'.tree := by
  have hbody := ne_body_of_operation hr
  obtain ⟨changed, happly⟩ := visit_applies hv hhandles (.inr hrows)
  rcases apply_ok happly with ⟨-, h⟩ | ⟨-, change, u, h, hreplaces, -⟩
  · obtain ⟨hdeclines, hs⟩ := change_none hbody h
    exact .inl ⟨hdeclines, by rw [hs]⟩
  · obtain ⟨hdraw, hnode, hform⟩ := change_ok hbody h (hostsIn_true s id)
    rw [hnode, hdraw.tree] at hreplaces
    refine .inr ⟨?_, _, change.replacement, hform, hreplaces⟩
    rintro rfl
    exact (callChange_some h).1

def Instrumentation.Rewritten (s : Instrumentation) (r : Rule) (d : NodeId) : Prop :=
  ∃ rep, (s.tree.node d).replacement = some rep ∧ Rewrites s (fun _ => True) d r rep

def Operated (s₀ s : Instrumentation) (r : Rule) (d : NodeId) : Prop :=
  r.Declines s₀ d ∧ (s.tree.node d).replacement = none ∨
    (r = .call → ¬ r.Declines s₀ d) ∧ s.Rewritten r d

/-- How far a pass that has visited the nodes in `done` has come with the operations among them. -/
structure Operating (s₀ : Instrumentation) (done : List NodeId) (s : Instrumentation) : Prop where
  passed : Passed s₀ done s
  diagnostics : s.diagnostics = s₀.diagnostics ++ done.flatMap s₀.complaints
  operated : ∀ d ∈ done, ∀ r ∈ Rule.operations, r.handles (s₀.tree.kind d) = true →
    s₀.touchesSuppressed d = false → Operated s₀ s r d

theorem ne_block_of_handles {kind : Kind} (hhandles : r.handles kind = true) :
    kind ≠ .statementBlock := by
  rintro rfl
  cases r <;> cases hhandles

theorem Operated.later (hw : s.tree.WellFormed) (h : Operated s₀ s r d) (hr : r ∈ Rule.operations)
    (hk : KeepsBelow s s' d)
    (hsame : (s'.tree.node d).replacement = (s.tree.node d).replacement) : Operated s₀ s' r d := by
  rcases h with ⟨hdeclines, hnone⟩ | ⟨hnot, rep, hrep, hform⟩
  · exact .inl ⟨hdeclines, hsame.trans hnone⟩
  · exact .inr ⟨hnot, rep, hsame.trans hrep, hform.later hw hk hr fun _ _ => trivial⟩

theorem Operating.start (hfresh : s₀.tree.IsFresh) : Operating s₀ [] s₀ where
  passed := .start hfresh
  diagnostics := (List.append_nil _).symm
  operated _ hd := absurd hd List.not_mem_nil

theorem Operating.visit (hw : s₀.tree.WellFormed) (hfresh : s₀.tree.IsFresh)
    (h : Operating s₀ done s) (hnot : ∀ f ∈ done, ¬ s₀.tree.Below f id)
    (hv : Yields (visit Rule.all id) s () s') : Operating s₀ (done ++ [id]) s' := by
  have hfixed := h.passed.visited.fixed
  have hws := h.passed.visited.wellFormed hw
  have hform := visit_ok hv (hostsIn_true s id)
  refine ⟨h.passed.visit hw hfresh hnot hv, ?_, fun d hd r hr hhandles hrows => ?_⟩
  · rw [visit_diagnostics hv, h.diagnostics, hfixed.complaints, List.flatMap_append,
      List.append_assoc, List.flatMap_singleton]
  · rcases List.mem_append.1 hd with hd | hd
    · -- No later visit comes below the node.
      obtain ⟨hk, hsame⟩ := hform.keepsBelow hws
        (fun hbelow => hnot d hd (hfixed.shape.symm.below hbelow))
        (hfixed.shape.kind ▸ ne_block_of_handles hhandles)
      exact (h.operated d hd r hr hhandles hrows).later hws hr hk hsame
    · obtain rfl := List.mem_singleton.1 hd
      rw [← hfixed.shape.kind] at hhandles
      rw [← hfixed.touchesSuppressed] at hrows
      have hbare := h.passed.bare_above hnot .refl
      unfold Operated
      rw [← hfixed.declines]
      rcases visit_operation hr hhandles hrows hv with ⟨hdeclines, htree⟩ | ⟨hno, _, rep, hrep, hreplaces⟩
      · exact .inl ⟨hdeclines, by rw [htree, hbare]⟩
      · have hk : KeepsBelow s s' d := hreplaces.keepsBelow hform.fixed fun o _ hlt hbelow =>
          Nat.not_le_of_lt hlt (hws.le_of_below hbelow)
        exact .inr ⟨hno, rep, hreplaces.at_ (lt_size_of_handles hhandles),
          hrep.later hws hk hr fun _ _ => trivial⟩

theorem pass_operates (hw : s₀.tree.WellFormed) (hfresh : s₀.tree.IsFresh)
    (h : Yields (pass Rule.all) s₀ () s) : Operating s₀ s₀.agenda s := by
  refine visitAll_induction (Q := Operating s₀) (.start hfresh) (fun hagenda hQ hv => ?_)
    (Yields.get_bind_iff.1 h)
  exact hQ.visit hw hfresh (not_below_of_agenda hw hagenda) hv

namespace SyntaxTree

/-- A comment or name ends a block behind its brace, and what is moved out of the block breaks off
before the last byte of it. -/
structure BreaksOff (t : SyntaxTree) (b c : NodeId) : Prop where
  child : c ∈ t.children b
  leaf : t.IsLeaf c
  last : (t.node c).stop = (t.node b).stop
  rest : (t.bodyParts b).2 = t.textBetween b (t.bodyCut b) (t.node c).start ++
    slice t.source (t.node c).start (t.bodyStop b)

variable (hw : t.WellFormed) (hb : t.kind b = .statementBlock)
include hw hb

theorem bodyCut_le_of_last (hc : c ∈ t.children b) (hlast : (t.node b).stop ≤ (t.node c).stop) :
    t.bodyCut b ≤ (t.node c).start := by
  rcases t.bodyCut_cases b with hcut | ⟨d, hd, hkind, hcut⟩
  · rw [hcut]
    exact (hw.closes hb hc).1
  · have hleaf : ¬ t.IsLeaf d := fun h => by simpa [hkind] using h.2
    have hd := (hw.closes hb hd).2.resolve_right hleaf
    rcases hw.bodyCut_between hb hc with h | h
    · rw [hcut] at h
      exact absurd (Nat.lt_of_le_of_lt (Nat.le_trans hlast h) hd) (Nat.lt_irrefl _)
    · exact h

theorem breaksOff (hc : c ∈ t.children b) (hlast : (t.node b).stop ≤ (t.node c).stop) :
    t.BreaksOff b c := by
  have hproper := hw.proper hc
  have hnested := (hw.nested hc).2
  have hcut := bodyCut_le_of_last hw hb hc hlast
  have hstop : (t.node c).start ≤ t.bodyStop b := by
    rw [bodyStop]
    omega
  refine ⟨hc, (hw.closes hb hc).2.resolve_left (Nat.not_lt_of_le hlast),
    Nat.le_antisymm hnested hlast, ?_⟩
  -- Whatever ends before the last byte of the block ends before its last child.
  have hbetween : t.childrenBetween b (t.bodyCut b) (t.bodyStop b) =
      t.childrenBetween b (t.bodyCut b) (t.node c).start := by
    refine List.filter_congr fun d hd => ?_
    have hiff : (t.node d).stop ≤ t.bodyStop b ↔ (t.node d).stop ≤ (t.node c).start := by
      constructor
      · intro hle
        rcases hw.siblings hc hd with h | h
        · rw [bodyStop] at hle
          omega
        · exact h.2
      · exact fun hle => Nat.le_trans hle hstop
    simp only [hiff]
  have hrest : t.splice t.text (t.bodyCut b) (t.bodyStop b)
      (t.childrenBetween b (t.bodyCut b) (t.node c).start ++ []) = _ :=
    splice_append hcut hstop (fun d hd => (mem_between.1 hd).2.2) fun d hd => absurd hd List.not_mem_nil
  rw [List.append_nil] at hrest
  change t.splice t.text (t.bodyCut b) (t.bodyStop b)
    (t.childrenBetween b (t.bodyCut b) (t.bodyStop b)) = _
  rw [hbetween]
  exact hrest

theorem breaksOff_iff : (∃ c, t.BreaksOff b c) ↔
    ∃ c ∈ t.children b, (t.node b).stop ≤ (t.node c).stop := by
  constructor
  · rintro ⟨c, h⟩
    exact ⟨c, h.child, Nat.le_of_eq h.last.symm⟩
  · rintro ⟨c, hc, hlast⟩
    exact ⟨c, breaksOff hw hb hc hlast⟩

end SyntaxTree

structure Instrumentation.Eligible (s : Instrumentation) (d : NodeId) : Prop where
  reached : s.tree.Reached d
  rows : s.touchesSuppressed d = false

def Instrumentation.ChecksOperands (s : Instrumentation) (d : NodeId) (operator : String)
    (left right : NodeId) : Prop :=
  ∃ lhs rhs leftName rightName, OperandStub s (fun _ => True) left lhs ∧
    OperandStub s (fun _ => True) right rhs ∧
    (s.tree.node d).replacement = some (.expression (.sequence
      ((s.held left lhs leftName).preamble ++ (s.held right rhs rightName).preamble ++
        [s.arithmeticCheck d operator leftName rightName (s.held left lhs leftName).origin
          (s.held right rhs rightName).origin])))

structure Covered (s₀ s : Instrumentation) : Prop where
  binary : ∀ {d left right operator}, s₀.Eligible d → s₀.tree.kind d = .binaryExpression →
    (s₀.tree.node d).operator = some operator → operator ∈ checkedOperators →
    s₀.tree.child? d "left" = some left → s₀.tree.child? d "right" = some right →
    s.ChecksOperands d operator left right
  assignment : ∀ {d left right}, s₀.Eligible d → s₀.tree.kind d = .assignmentExpression →
    s₀.tree.child? d "left" = some left → s₀.tree.child? d "right" = some right →
    s₀.tree.isTarget left = true → keepsInferredName s₀.tree left right = false →
    s.Rewritten .assignment d
  compound : ∀ {d left right token operator}, s₀.Eligible d →
    s₀.tree.kind d = .augmentedAssignmentExpression → (s₀.tree.node d).operator = some token →
    compoundOperator? token = some operator → operator ∉ logicalOperators →
    s₀.tree.child? d "left" = some left → s₀.tree.child? d "right" = some right →
    s₀.tree.isTarget left = true → s.Rewritten .compound d
  call : ∀ {d callee arguments}, s₀.Eligible d → s₀.tree.kind d = .callExpression →
    s₀.tree.child? d "function" = some callee → s₀.tree.child? d "arguments" = some arguments →
    s₀.complaints d = [] ∧ s.Rewritten .call d ∨
      (s.tree.node d).replacement = none ∧
        ((∃ complaint, s₀.complaints d = [s₀.diagnostic d complaint]) ∨
          s₀.complaints d = [] ∧ isDirectEval s₀.tree callee = true)
  /-- A body announces its frame and leaves it; but where a comment ends the body behind its brace, what
  leaves the frame becomes part of the comment, up to the last byte, which is a character of its own. -/
  body : ∀ {f b}, s₀.Eligible f → (s₀.tree.kind f).IsPlainFunction →
    s₀.tree.child? f "body" = some b → isBoundary s₀.tree.source (s₀.tree.bodyStop b) = true ∧
      ∃ k, s₀.scopes.scopeOf? f = some k ∧ Framed s₀ s f k b ∧
        ((∃ c, s.tree.BreaksOff b c) ↔
          ∃ c ∈ s₀.tree.children b, (s₀.tree.node b).stop ≤ (s₀.tree.node c).stop)
  diagnostics : ∃ order : List NodeId, order.Nodup ∧ (∀ d, d ∈ order ↔ s₀.tree.Reached d) ∧
    s.diagnostics = order.flatMap s₀.complaints

namespace Started

variable (h : Started s₀) (hpass : Yields (pass Rule.all) s₀ () s)
include h hpass

theorem operated (hd : s₀.Eligible d) (hr : r ∈ Rule.operations)
    (hhandles : r.handles (s₀.tree.kind d) = true) : Operated s₀ s r d :=
  (pass_operates h.wellFormed h.fresh hpass).operated d (h.mem_agenda_iff.2 hd.reached) r hr hhandles
    hd.rows

theorem rewritten (hd : s₀.Eligible d) (hr : r ∈ Rule.operations)
    (hhandles : r.handles (s₀.tree.kind d) = true) (hno : ¬ r.Declines s₀ d) : s.Rewritten r d := by
  rcases h.operated hpass hd hr hhandles with ⟨hdeclines, -⟩ | ⟨-, hrewritten⟩
  · exact absurd hdeclines hno
  · exact hrewritten

theorem checksOperands {left right : NodeId} {operator : String} (hd : s₀.Eligible d)
    (hkind : s₀.tree.kind d = .binaryExpression) (hoperator : (s₀.tree.node d).operator = some operator)
    (hchecked : operator ∈ checkedOperators) (hleft : s₀.tree.child? d "left" = some left)
    (hright : s₀.tree.child? d "right" = some right) : s.ChecksOperands d operator left right := by
  have hshape := (pass_passed h.wellFormed h.fresh hpass).visited.fixed.shape
  obtain ⟨rep, hrep, hform⟩ : s.Rewritten .binary d := by
    refine h.rewritten hpass hd (by decide) (by rw [hkind]; rfl) fun hdeclines => ?_
    have hno := hdeclines left right hleft hright
    rw [hoperator, Option.getD_some] at hno
    exact absurd (List.contains_iff_mem.2 hchecked) (Bool.eq_false_iff.1 hno)
  rw [← hshape.operator] at hoperator
  rw [← hshape.child?] at hleft hright
  cases hform with
  | membership hin =>
    rw [hoperator, Option.getD_some] at hin
    subst hin
    exact absurd hchecked (by decide)
  | binary hop _ hl hr hlhs hrhs =>
    rw [hoperator, Option.getD_some] at hop
    subst hop
    obtain rfl := Option.some.inj (hleft.symm.trans hl)
    obtain rfl := Option.some.inj (hright.symm.trans hr)
    exact ⟨_, _, _, _, hlhs, hrhs, hrep⟩

theorem covered_call {callee arguments : NodeId} (hd : s₀.Eligible d)
    (hkind : s₀.tree.kind d = .callExpression) (hcallee : s₀.tree.child? d "function" = some callee)
    (harguments : s₀.tree.child? d "arguments" = some arguments) :
    s₀.complaints d = [] ∧ s.Rewritten .call d ∨
      (s.tree.node d).replacement = none ∧
        ((∃ complaint, s₀.complaints d = [s₀.diagnostic d complaint]) ∨
          s₀.complaints d = [] ∧ isDirectEval s₀.tree callee = true) := by
  have hcomplaints : s₀.complaints d = Rule.call.complaints s₀ d := if_pos ⟨hkind, hd.rows⟩
  rw [hcomplaints, Rule.complaints]
  rcases h.operated hpass hd (r := .call) (by decide) (by rw [hkind]; rfl) with
    ⟨hdeclines, hnone⟩ | ⟨hno, hrewritten⟩
  · refine .inr ⟨hnone, ?_⟩
    cases hcomplaint : s₀.complaint? d with
    | some complaint => exact .inl ⟨complaint, rfl⟩
    | none =>
      refine .inr ⟨rfl, (hdeclines callee arguments hcallee harguments).resolve_left ?_⟩
      simp [hcomplaint]
  · refine .inl ⟨?_, hrewritten⟩
    cases hcomplaint : s₀.complaint? d with
    | none => rfl
    | some complaint =>
      refine absurd (fun _ _ _ _ => .inl ?_) (hno rfl)
      rw [hcomplaint]
      rfl

theorem covered (hbodies : s₀.tree.HasBodies) (hk : Keyed s₀) : Covered s₀ s where
  binary hd hkind hoperator hchecked hleft hright :=
    h.checksOperands hpass hd hkind hoperator hchecked hleft hright
  assignment {d left right} hd hkind hleft hright htarget hkeeps := by
    refine h.rewritten hpass hd (by decide) (by rw [hkind]; rfl) fun hdeclines => ?_
    rcases hdeclines left right hleft hright with e | e
    · rw [e] at hkeeps
      cases hkeeps
    · exact absurd htarget (Bool.eq_false_iff.1 e)
  compound {d left right token operator} hd hkind htoken hoperator hlogical hleft hright htarget := by
    refine h.rewritten hpass hd (by decide) (by rw [hkind]; rfl) fun hdeclines => ?_
    rcases hdeclines operator left right (by rw [htoken]; exact hoperator) hleft hright with e | e
    · exact hlogical (List.contains_iff_mem.1 e)
    · exact absurd htarget (Bool.eq_false_iff.1 e)
  call hd hkind hcallee harguments := h.covered_call hpass hd hkind hcallee harguments
  body {f b} hf hplain hbody := by
    have hp := pass_passed h.wellFormed h.fresh hpass
    have hshape := hp.visited.fixed.shape
    have hblock := h.wellFormed.block hplain hbody
    obtain ⟨k, hb⟩ := h.bodyOf hf.reached hplain hbody
    have hagenda := h.mem_agenda_iff.2 hf.reached
    have hcut := cut_of_pass h.wellFormed h.fits h.fresh hbodies hk hpass (by decide) hagenda hb
      ((h.isInstrumented_iff hb).2 hf.rows)
    refine ⟨hcut, k, hb.scope, h.framed hpass hagenda hb hf.rows, ?_⟩
    rw [SyntaxTree.breaksOff_iff (hp.visited.wellFormed h.wellFormed) (by rw [hshape.kind, hblock]),
      hshape.children]
    simp only [hshape.stop]
  diagnostics := by
    refine ⟨s₀.agenda, ?_, fun d => h.mem_agenda_iff, ?_⟩
    · have hpairwise : s₀.agenda.Pairwise fun a b => ¬ s₀.tree.Below a b :=
        SyntaxTree.postOrder_pairwise h.wellFormed.linked
      refine List.Pairwise.imp (fun {a b} hnot e => hnot ?_) hpairwise
      rw [e]
      exact .refl
    · rw [(pass_operates h.wellFormed h.fresh hpass).diagnostics, h.silent, List.nil_append]

end Started

/-- A pass that ends leaves out nothing that it could instrument, and complains of every call that it
leaves alone but the direct ones of `eval`. What keeps a pass from its end is a body to be replaced with
its last byte inside a character. -/
theorem pass_covers {tree : SyntaxTree} (hw : tree.WellFormed) (hfresh : tree.IsFresh)
    (hbodies : tree.HasBodies) (suppression : Suppression) (hook file : String) :
    ∃ scopes, ScopeTable.analyze tree = .ok scopes ∧
      let s₀ := Instrumentation.start tree scopes suppression hook file
      (∀ s, Yields (pass Rule.all) s₀ () s → Covered s₀ s) ∧
      ∀ halt, (∃ s, Fails (pass Rule.all) s₀ halt s) ↔
        ∃ f b, HaltsAt s₀ Rule.all f b ∧ halt = .insideCharacter (tree.bodyStop b) := by
  obtain ⟨scopes, hscopes⟩ := ScopeTable.analyze_succeeds tree
  refine ⟨scopes, hscopes, fun s hpass => ?_, fun halt =>
    start_fails_iff hw hfresh hbodies hscopes suppression hook file Rule.all⟩
  have hkeyed := (start_enrolled tree scopes suppression hook file).keyed
  obtain ⟨htree, -, -, -⟩ := start_same tree scopes suppression hook file
  exact (started hw hfresh hscopes suppression hook file).covered hpass (by rwa [htree]) hkeyed

def commentBehind (comment : String) : Concrete :=
  let stop := 33 + comment.utf8ByteSize
  .named "program" 0 (stop + 1) none [
    .named "lexical_declaration" 0 stop none [
      .mark "let" 0 3 (some "kind"),
      .named "variable_declarator" 4 stop none [
        .named "identifier" 4 5 (some "name") [],
        .named "function_expression" 8 stop (some "value") [
          .named "formal_parameters" 17 20 (some "parameters") [.named "identifier" 18 19 none []],
          .named "statement_block" 21 stop (some "body") [
            .named "expression_statement" 25 30 none [
              .named "call_expression" 25 29 none [
                .named "identifier" 25 26 (some "function") [],
                .named "arguments" 26 29 (some "arguments") [.named "identifier" 27 28 none []]]],
            .named "comment" 33 stop none []]]]]]

def commentBehindText (comment : String) : List Char :=
  ("let w = function (p) \x7b\n  f(p);\n\x7d " ++ comment ++ "\n").toList

def trailingComment : SyntaxTree := .ofConcrete (commentBehindText "// c") (commentBehind "// c")

theorem pass_covers_trailingComment :
    trailingComment.WellFormed ∧ trailingComment.IsFresh ∧ trailingComment.HasBodies ∧ ∃ scopes s k,
      ScopeTable.analyze trailingComment = .ok scopes ∧
      Yields (pass Rule.all) (.start trailingComment scopes ⟨[]⟩ "__rt" "t.js") () s ∧
      Covered (.start trailingComment scopes ⟨[]⟩ "__rt" "t.js") s ∧
      Framed (.start trailingComment scopes ⟨[]⟩ "__rt" "t.js") s 4 k 7 ∧ ∃ c, s.tree.BreaksOff 7 c := by
  have hw : trailingComment.WellFormed := by decide +kernel
  have hfresh : trailingComment.IsFresh := SyntaxTree.isFresh_ofConcrete _ _
  have hbodies : trailingComment.HasBodies := by decide +kernel
  have hreached : trailingComment.Reached 4 := (SyntaxTree.reached_iff hw).2 (by decide +kernel)
  have hrows : trailingComment.touchesRows 4 (Suppression.isSuppressed ⟨[]⟩) = false := by
    decide +kernel
  have hplain : (trailingComment.kind 4).IsPlainFunction := .inr (by decide +kernel)
  have hbody : trailingComment.child? 4 "body" = some 7 := by decide +kernel
  have hlast : ∃ c ∈ trailingComment.children 7,
      (trailingComment.node 7).stop ≤ (trailingComment.node c).stop := by decide +kernel
  obtain ⟨scopes, hscopes, hcovers, -⟩ := pass_covers hw hfresh hbodies ⟨[]⟩ "__rt" "t.js"
  obtain ⟨s, -, hpass, -⟩ := run_succeeds hw hfresh hbodies hscopes ⟨[]⟩ "__rt" "t.js" "" Rule.all
    (by decide +kernel)
  have hcovered := hcovers s hpass
  obtain ⟨htree, -, hsuppression, -⟩ := start_same trailingComment scopes ⟨[]⟩ "__rt" "t.js"
  refine ⟨hw, hfresh, hbodies, scopes, s, ?_⟩
  generalize Instrumentation.start trailingComment scopes ⟨[]⟩ "__rt" "t.js" = s₀ at *
  rw [← htree] at hreached hrows hplain hbody hlast
  rw [← hsuppression] at hrows
  obtain ⟨-, k, -, hframed, hbreaks⟩ := hcovered.body ⟨hreached, hrows⟩ hplain hbody
  exact ⟨k, hscopes, hpass, hcovered, hframed, hbreaks.2 hlast⟩

-- The last of the two bytes of `é` is taken for the brace.
example : (match instrument "t.js" (commentBehindText "// é") (commentBehind "// é")
      { linkage := .preexisting } with
    | .ok _ => none
    | .error halt => some halt) = some (.insideCharacter 37) := by
  decide +kernel

end CoercionTrace
