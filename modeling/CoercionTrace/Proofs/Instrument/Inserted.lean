import CoercionTrace.Proofs.Instrument.Success
import CoercionTrace.Proofs.Instrument.Suppressed
import CoercionTrace.Proofs.Syntax.Prologue

/-!
# Headers are insertions

A run takes bodies and the program apart and puts generated code between the parts. Main statement:
nothing is lost of them, and the first part holds the prologue unless an HTML comment stands in it
(`headers_inserted`).
-/

namespace CoercionTrace

open Instrumentation InstrumentM

structure SyntaxTree.HeadersInserted (t : SyntaxTree) : Prop where
  framed : ∀ {b directives header rest leave}, (t.node b).replacement =
      some (.framedBody directives header rest leave) → ∃ first,
    t.TakenApart t.isPlainString b (t.bodyStart b) (t.bodyCut b) (t.bodyStop b) first rest
      (t.lacksSemicolon b) ∧ header.enter.spliced = [] ∧ leave.spliced = [] ∧
    t.text b = "\x7b" ++ first ++ (if t.lacksSemicolon b then ";" else "") ++ header.print ++
      " try \x7b" ++ rest ++ "\x7d finally \x7b " ++ leave.print ++ "; \x7d\x7d"
  host : ∀ {b directives temporaries rest}, (t.node b).replacement =
      some (.hostBody directives temporaries rest) → ∃ first,
    t.TakenApart t.isPlainString b (t.bodyStart b) (t.bodyCut b) (t.bodyStop b) first rest
      (t.lacksSemicolon b) ∧
    t.text b = "\x7b" ++ first ++ (if t.lacksSemicolon b then ";" else "") ++ " " ++
      declareAll temporaries ++ rest ++ "\x7d"
  program : ∀ {d before header gap rest}, (t.node d).replacement =
      some (.program before header gap rest) → d = SyntaxTree.root ∧
    t.TakenApart t.isProgramHead SyntaxTree.root (t.node SyntaxTree.root).start t.insertionPoint.1
      (t.node SyntaxTree.root).stop before rest (header.afterDirective && header.unterminated) ∧
    t.text d = before ++ header.text gap ++ rest

namespace Finished

variable {s₀ s : Instrumentation} {t : SyntaxTree} {linkage : String} {b c : NodeId}

theorem leaf_bare (hw : s₀.tree.WellFormed) {done : List NodeId} (hp : Passed s₀ done s)
    (h : Finished s linkage t) (hleaf : t.IsLeaf c) : (t.node c).replacement = none := by
  have hshape := hp.visited.fixed.shape.trans h.shape
  have hleaf : s₀.tree.IsLeaf c := by
    rw [SyntaxTree.IsLeaf, ← hshape.children, ← hshape.kind]
    exact hleaf
  refine Option.eq_none_iff_forall_ne_some.2 fun rep hrep => ?_
  rcases h.replaced (hp.visited.wellFormed hw) hrep with hrep | ⟨rfl, -⟩
  · rcases (hp.replaced c rep hrep).isReplaceable hw with hblock | ⟨r, -, hhandles⟩
    · exact SyntaxTree.not_leaf_of_block .refl hblock hleaf
    · exact not_leaf_of_handles hhandles hleaf
  · have hkind := hleaf.2
    rw [hw.program] at hkind
    exact absurd hkind (by decide)

theorem program_of_linkage (hw : s.tree.WellFormed) (h : Finished s linkage t)
    (hlinkage : linkage.isEmpty = false) : ∃ before gap rest, (t.node SyntaxTree.root).replacement =
      some (.program before (s.programHeader linkage) gap rest) := by
  cases h with
  | bare hempty => simp [ProgramHeader.parts, programHeader, hlinkage] at hempty
  | headed _ hr => exact ⟨_, _, _, hr.at_ hw.root_lt⟩

theorem headersInserted (hw : s₀.tree.WellFormed) (hfresh : s₀.tree.IsFresh)
    (hp : Passed s₀ s₀.agenda s) (h : Finished s linkage t) : t.HeadersInserted := by
  have hws := hp.visited.wellFormed hw
  have hshape := hp.visited.fixed.shape.trans h.shape
  have hwt := hshape.wellFormed hw
  have hsettled := h.settled hws (hp.visited.takesFromBelow hw hfresh) hp.settled
  have hfit := h.hostsFit hw hp
  have hsize : ∀ {b}, t.kind b = .statementBlock → b < t.size := fun hb =>
    SyntaxTree.lt_size_of_kind (by simp [hb])
  have htaken : ∀ {b}, t.kind b = .statementBlock → _ := fun hb =>
    SyntaxTree.takenApart_body hwt hb fun c => h.leaf_bare hw hp
  refine {
    framed := fun {b directives header rest leave} hr => ?_
    host := fun {b directives temporaries rest} hr => ?_
    program := fun {d before header gap rest} hr => ?_ }
  · have hblock : t.kind b = .statementBlock := by
      rw [hshape.kind]
      rcases h.replaced hws hr with hs | ⟨-, _, _, _, e⟩
      · cases hp.replaced b _ hs with
        | construct _ _ _ _ hc => cases hc
        | framed _ hb => exact hw.block hb.kind hb.child
      · cases e
    obtain ⟨rfl, rfl, henter, hleave⟩ := hsettled b _ hr
    refine ⟨_, htaken hblock, henter, hleave, ?_⟩
    rw [SyntaxTree.text_of_some (hsize hblock) hr, Replacement.print, SyntaxTree.bodyParts_fst,
      ← String.append_assoc]
  · have hblock := hfit.body hr
    obtain ⟨rfl, rfl⟩ := hsettled b _ hr
    refine ⟨_, htaken hblock, ?_⟩
    rw [SyntaxTree.text_of_some (hsize hblock) hr, Replacement.print, SyntaxTree.bodyParts_fst,
      ← String.append_assoc]
  · obtain rfl := hfit.program hr
    have hheader : header.afterDirective = t.insertionPoint.2 ∧
        header.unterminated = !endsWithSemicolon before := by
      -- The header was made of the tree that the pass left, where the root was bare.
      cases h with
      | bare => cases (hp.root_bare hw).symm.trans hr
      | headed hcurrent hreplaces =>
        cases (hreplaces.at_ hws.root_lt).symm.trans hr
        rw [hreplaces.shape.insertionPoint, hcurrent.1]
        exact ⟨rfl, rfl⟩
    obtain ⟨rfl, rfl⟩ := hsettled SyntaxTree.root _ hr
    refine ⟨rfl, ?_, ?_⟩
    · rw [hheader.1, hheader.2]
      exact SyntaxTree.takenApart_program hwt
    · rw [SyntaxTree.text_of_some hwt.root_lt hr, Replacement.print, ProgramHeader.text]
      simp only [String.append_assoc]

end Finished

/-- Whatever a run puts into bodies and the program goes between the two parts of their text. -/
theorem headers_inserted {tree : SyntaxTree} {scopes : ScopeTable} {suppression : Suppression}
    {hook file linkage : String} {s s' : Instrumentation} (hw : tree.WellFormed) (hfresh : tree.IsFresh)
    (hpass : Yields (pass Rule.all) (.start tree scopes suppression hook file) () s)
    (hfinish : Yields (finish linkage) s () s') : s'.tree.HeadersInserted := by
  obtain ⟨htree, -, -, -⟩ := start_same tree scopes suppression hook file
  generalize Instrumentation.start tree scopes suppression hook file = s₀ at *
  subst htree
  exact (finish_ok hfinish).1.headersInserted hw hfresh (pass_passed hw hfresh hpass)

def htmlCommentAhead : SyntaxTree :=
  .ofConcrete "<!-- html\n\"use strict\";\nx + y;\n".toList
    (.named "program" 0 31 none [
      .named "html_comment" 0 9 none [],
      .named "expression_statement" 10 23 none [
        .named "string" 10 22 none [.named "string_fragment" 11 21 none []]],
      .named "expression_statement" 24 30 none [
        .named "binary_expression" 24 29 none [
          .named "identifier" 24 25 (some "left") [],
          .mark "+" 26 27 (some "operator"),
          .named "identifier" 28 29 (some "right") []]]])

theorem headers_inserted_htmlCommentAhead :
    htmlCommentAhead.WellFormed ∧ htmlCommentAhead.IsFresh ∧ ∃ scopes s s',
      Yields (pass Rule.all) (.start htmlCommentAhead scopes ⟨[]⟩ "__rt" "t.js") () s ∧
      Yields (finish "var __rt;") s () s' ∧ s'.tree.HeadersInserted ∧
      s'.tree.Interrupts s'.tree.isProgramHead SyntaxTree.root 1 ∧
      2 ∈ s'.tree.prologue s'.tree.isProgramHead SyntaxTree.root ∧
      ∃ header gap rest, (s'.tree.node SyntaxTree.root).replacement =
          some (.program "" header gap rest) ∧
        s'.tree.text SyntaxTree.root = header.text gap ++ rest := by
  have hw : htmlCommentAhead.WellFormed := by decide +kernel
  have hfresh : htmlCommentAhead.IsFresh := SyntaxTree.isFresh_ofConcrete _ _
  obtain ⟨scopes, hscopes⟩ := ScopeTable.analyze_succeeds htmlCommentAhead
  obtain ⟨s, s', hpass, hfinish⟩ := run_succeeds hw hfresh (by decide +kernel) hscopes ⟨[]⟩ "__rt"
    "t.js" "var __rt;" Rule.all (by decide +kernel)
  have hinserted := headers_inserted hw hfresh hpass hfinish
  refine ⟨hw, hfresh, scopes, s, s', hpass, hfinish, hinserted, ?_⟩
  obtain ⟨htree, -, -, -⟩ := start_same htmlCommentAhead scopes ⟨[]⟩ "__rt" "t.js"
  have hfinished := (finish_ok hfinish).1
  have hp := pass_passed (htree.symm ▸ hw) (htree.symm ▸ hfresh) hpass
  have hshape : htmlCommentAhead.SameShape s'.tree := by
    have hpassed := hp.visited.fixed.shape
    rw [htree] at hpassed
    exact hpassed.trans hfinished.shape
  have hws := hp.visited.wellFormed (htree.symm ▸ hw)
  obtain ⟨before, gap, rest, hprogram⟩ := hfinished.program_of_linkage hws (by decide)
  obtain ⟨-, htaken, htext⟩ := hinserted.program hprogram
  have hmem : 2 ∈ s'.tree.prologue s'.tree.isProgramHead SyntaxTree.root := by
    rw [hshape.prologue, hshape.isProgramHead]
    decide +kernel
  refine ⟨⟨?_, 2, hmem, .inl ⟨?_, by decide⟩⟩, hmem, ?_⟩
  · rw [hshape.kind]
    decide +kernel
  · rw [hshape.children]
    decide +kernel
  · have hcut : (s'.tree.node SyntaxTree.root).start = 0 ∧ s'.tree.insertionPoint.1 = 0 ∧
        s'.tree.childrenBetween SyntaxTree.root 0 0 = [] := by
      rw [hshape.start, hshape.insertionPoint, hshape.childrenBetween]
      decide +kernel
    have hbefore : before = "" := by
      rw [htaken.before, hcut.1, hcut.2.1]
      change s'.tree.splice _ 0 0 (s'.tree.childrenBetween SyntaxTree.root 0 0) = ""
      rw [hcut.2.2]
      exact slice_self _ _
    subst hbefore
    exact ⟨_, gap, rest, hprogram, by rw [htext, String.empty_append]⟩

end CoercionTrace
