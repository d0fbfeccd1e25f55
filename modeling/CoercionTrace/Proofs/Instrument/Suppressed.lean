import CoercionTrace.Proofs.Instrument.Finish
import CoercionTrace.Proofs.Instrument.Start
import CoercionTrace.Proofs.Syntax.TreeEdits

/-!
# Suppressed rows

Main statement: an instrumented program is the program with edits that leave suppressed rows alone,
unless a body that takes declarations ends, behind its brace, on such a row (`instrument_edits`).
-/

namespace CoercionTrace

open Instrumentation InstrumentM

def Instrumentation.suppressedAt (s : Instrumentation) (x : Nat) : Bool :=
  s.suppression.isSuppressed (position s.tree.source x).1

inductive Permitted (s : Instrumentation) : Edit → Prop
  | change {start stop : Nat} {text : String} : start < stop →
      (∀ x, start ≤ x → x < stop → s.suppressedAt x = false) → Permitted s ⟨start, stop, text⟩
  | header {header : ProgramHeader} {gap : Bool} :
      header.afterDirective = s.tree.insertionPoint.2 →
      Permitted s ⟨s.tree.insertionPoint.1, s.tree.insertionPoint.1, header.text gap⟩
  /-- A declaration behind the directives of a function that is not instrumented; a semicolon only
  follows a directive. -/
  | declaration {f b : NodeId} {k : ScopeId} {temporaries : List String} {semicolon : Bool} :
      BodyOf s f k b → s.isInstrumented k = false →
      (semicolon = true → s.tree.bodyStart b < s.tree.bodyCut b) →
      Permitted s ⟨s.tree.bodyCut b, s.tree.bodyCut b,
        (if semicolon then ";" else "") ++ " " ++ declareAll temporaries⟩

/-- A program with edits, of which all are permitted unless they replace what ends a body behind its
brace. -/
structure Edited (s : Instrumentation) (t : SyntaxTree) (edits : List Edit) : Prop where
  within : EditsWithin 0 (SyntaxTree.byteLength s.tree.source) edits
  text : t.render = applyEdits s.tree.source 0 (SyntaxTree.byteLength s.tree.source) edits
  overwritten : ∀ b, t.Overwrites b → ∃ f k, BodyOf s f k b ∧ s.isInstrumented k = false
  permitted : (∀ e ∈ edits, Permitted s e) ↔
    ∀ b, t.Overwrites b → s.suppressedAt (s.tree.bodyStop b) = false
  kept : (∀ e ∈ edits, Permitted s e) →
    (charsOn s.suppression.isSuppressed 0 s.tree.source).Sublist t.render.toList

variable {s₀ s : Instrumentation} {t : SyntaxTree} {linkage : String} {d b id : NodeId} {e : Edit}

theorem unsuppressed_of_untouched (hw : s.tree.WellFormed) (hid : id < s.tree.size)
    (h : s.touchesSuppressed id = false) {x : Nat} (hstart : (s.tree.node id).start ≤ x)
    (hstop : x ≤ (s.tree.node id).stop) : s.suppressedAt x = false := by
  obtain ⟨hstartRow, hendRow⟩ := hw.rows hid
  have hfirst := hstartRow ▸ position_mono hstart s.tree.source
  have hlast := hendRow ▸ position_mono hstop s.tree.source
  refine Bool.eq_false_iff.2 fun hrow => Bool.eq_false_iff.1 h (List.any_eq_true.2 ?_)
  exact ⟨_, List.mem_range'_1.2 ⟨hfirst, by omega⟩, hrow⟩

theorem Permitted.of_untouched (hw : s.tree.WellFormed) (hid : id < s.tree.size)
    (h : s.touchesSuppressed id = false) (hd : s.tree.Below id d)
    (hproper : (s.tree.node d).start < (s.tree.node d).stop) (text : String) :
    Permitted s ⟨(s.tree.node d).start, (s.tree.node d).stop, text⟩ := by
  obtain ⟨hstart, hstop⟩ := hw.inside_of_below hd
  refine .change hproper fun x hx hx' => unsuppressed_of_untouched hw hid h ?_ ?_
  · exact Nat.le_trans hstart hx
  · exact Nat.le_trans (Nat.le_of_lt hx') hstop

theorem Permitted.unsuppressed (h : Permitted s e) {x : Nat} (hstart : e.start ≤ x)
    (hstop : x < e.stop) : s.suppressedAt x = false := by
  cases h with
  | change _ hrows => exact hrows x hstart hstop
  | header => exact absurd hstop (Nat.not_lt_of_le hstart)
  | declaration => exact absurd hstop (Nat.not_lt_of_le hstart)

section

variable (hw : s₀.tree.WellFormed) (hp : Passed s₀ s₀.agenda s) (ht : Finished s linkage t)
include hw hp ht

theorem replacedBy_of_host {directives rest : String} {temporaries : List String}
    (h : (t.node b).replacement = some (.hostBody directives temporaries rest)) :
    s₀.tree.Below SyntaxTree.root b ∧ ∃ f k, BodyOf s₀ f k b ∧ s₀.isInstrumented k = false := by
  rcases ht.replaced (hp.visited.wellFormed hw) h with hs | ⟨-, _, _, _, e⟩
  · cases hp.replaced b _ hs with
    | construct _ _ _ _ hc => cases hc
    | host hf hb hi =>
      have hroot := ((SyntaxTree.mem_postOrder hw.linked).1 hf).1
      exact ⟨hroot.trans (.of_mem (SyntaxTree.child?_mem hb.child)), _, _, hb, hi⟩
  · cases e

theorem Finished.hostsFit : t.HostsFit where
  body h := by
    obtain ⟨-, f, k, hb, -⟩ := replacedBy_of_host hw hp ht h
    rw [ht.shape.kind, hp.visited.fixed.shape.kind]
    exact hw.block hb.kind hb.child
  program h := by
    rcases ht.replaced (hp.visited.wellFormed hw) h with hs | ⟨hroot, -⟩
    · cases hp.replaced _ _ hs with
      | construct _ _ _ _ hc => cases hc
    · exact hroot

theorem permitted_of_replaced (hf : s₀.scopes.Fits s₀.tree) (hu : Unsuppressed s₀)
    {rep : Replacement} (h : (t.node d).replacement = some rep) (hhost : rep.isHost = false)
    (text : String) : Permitted s₀ ⟨(s₀.tree.node d).start, (s₀.tree.node d).stop, text⟩ := by
  rcases ht.replaced (hp.visited.wellFormed hw) h with hs | ⟨-, _, _, _, rfl⟩
  · cases hp.replaced d rep hs with
    | @construct r _ hd _ hhandles huntouched =>
      have hbelow := ((SyntaxTree.mem_postOrder hw.linked).1 hd).1
      have hsize := hw.lt_size_of_below hbelow hw.root_lt
      refine .of_untouched hw hsize huntouched .refl ?_ text
      rcases hbelow.eq_or_mem with rfl | ⟨p, hmem, -⟩
      · rw [hw.program] at hhandles
        cases r <;> cases hhandles
      · exact hw.proper hmem
    | @framed f k _ _ _ _ hb hi =>
      have hmem := SyntaxTree.child?_mem hb.child
      have hfunction := hu k hi
      rw [(hf.scope hb.scope).2.2.1] at hfunction
      refine .of_untouched hw ?_ hfunction (.of_mem hmem) (hw.proper hmem) text
      exact Nat.lt_trans (hw.child hmem).1 (hw.child hmem).2.1
    | host => cases hhost
  · cases hhost

theorem permitted_or_brace (hf : s₀.scopes.Fits s₀.tree) (hu : Unsuppressed s₀) (he : t.EditOf e) :
    Permitted s₀ e ∨ ∃ b, t.Overwrites b ∧
      e = ⟨s₀.tree.bodyStop b, (s₀.tree.node b).stop, "\x7d"⟩ := by
  have hshape := hp.visited.fixed.shape.trans ht.shape
  cases he with
  | @whole d r hr hhost =>
    rw [hshape.start, hshape.stop]
    exact .inl (permitted_of_replaced hw hp ht hf hu hr hhost _)
  | @declaration b _ _ temporaries hr =>
    obtain ⟨-, f, k, hb, hi⟩ := replacedBy_of_host hw hp ht hr
    rw [hshape.bodyCut]
    refine .inl (.declaration hb hi fun hlacks => ?_)
    rw [← hshape.bodyStart, ← hshape.bodyCut]
    exact of_decide_eq_true (Bool.and_eq_true_iff.1 hlacks).1
  | @brace b hover =>
    rw [hshape.bodyStop, hshape.stop]
    exact .inr ⟨b, hover, rfl⟩
  | @header before rest header gap hr =>
    have hheader : header.afterDirective = s₀.tree.insertionPoint.2 := by
      rcases ht.replaced (hp.visited.wellFormed hw) hr with hs | ⟨-, _, _, _, e⟩
      · cases hp.replaced _ _ hs with
        | construct _ _ _ _ hc => cases hc
      · cases e
        rw [← hp.visited.fixed.shape.insertionPoint]
        rfl
    rw [hshape.insertionPoint]
    exact .inl (.header hheader)

theorem edited (hfresh : s₀.tree.IsFresh) (hf : s₀.scopes.Fits s₀.tree) (hu : Unsuppressed s₀) :
    Edited s₀ t t.edits := by
  have hws := hp.visited.wellFormed hw
  have hwt := ht.shape.wellFormed hws
  have hshape := hp.visited.fixed.shape.trans ht.shape
  have hfit := ht.hostsFit hw hp
  have hsettled := ht.settled hws (hp.visited.takesFromBelow hw hfresh) hp.settled
  obtain ⟨hwithin, htext⟩ := t.render_edits hwt hfit hsettled
  rw [hshape.source] at hwithin htext
  refine {
    within := hwithin
    text := htext
    overwritten := fun b hover => ?_
    permitted := ⟨fun hall b hover => ?_, fun hrows e he => ?_⟩
    kept := fun hall => ?_ }
  · obtain ⟨⟨_, _, _, hr⟩, -⟩ := hover
    exact (replacedBy_of_host hw hp ht hr).2
  · obtain ⟨⟨_, _, _, hr⟩, -⟩ := id hover
    have hroot := hshape.below (replacedBy_of_host hw hp ht hr).1
    obtain ⟨e, he, hstart, hstop⟩ :=
      SyntaxTree.exists_edit_of_overwrites hwt hfit hwt.root_lt (Nat.sub_le _ _) hroot hover
    rw [hshape.bodyStop] at hstart hstop
    exact (hall e he).unsuppressed hstart hstop
  · rcases permitted_or_brace hw hp ht hf hu (SyntaxTree.editOf_of_mem hfit he) with
      hpermitted | ⟨b, hover, rfl⟩
    · exact hpermitted
    · obtain ⟨⟨_, _, _, hr⟩, -⟩ := id hover
      have hopens := (hwt.opens (hfit.body hr)).1
      rw [hshape.start, hshape.stop] at hopens
      have hlt : s₀.tree.bodyStop b < (s₀.tree.node b).stop := by
        rw [SyntaxTree.bodyStop]
        omega
      refine .change hlt fun x hstart hstop => ?_
      have hx : x = s₀.tree.bodyStop b := by
        rw [SyntaxTree.bodyStop] at hstart ⊢
        omega
      exact hx ▸ hrows b hover
  · rw [htext, ← charsOnFrom_all (Nat.le_refl 0) (Nat.le_of_eq (Nat.zero_add _))]
    exact hwithin.charsOn_sublist fun e he x hstart hstop => (hall e he).unsuppressed hstart hstop

end

theorem instrument_ok {file : String} {source : List Char} {cst : Concrete}
    {options : InstrumentOptions} {out : Instrumented} (h : instrument file source cst options = .ok out) :
    ∃ suppression diagnostics scopes s s', Suppression.scan file source = .ok (suppression, diagnostics) ∧
      ScopeTable.analyze (.ofConcrete source cst) = .ok scopes ∧
      Yields (pass Rule.all)
        (.start (.ofConcrete source cst) scopes suppression options.hookName file) () s ∧
      Yields (finish options.linkageText) s () s' ∧ out.code = s'.tree.render := by
  obtain ⟨-, -, h⟩ := exists_ok_of_bind h
  obtain ⟨⟨suppression, diagnostics⟩, hscan, h⟩ := exists_ok_of_bind h
  obtain ⟨tree, hparse, h⟩ := exists_ok_of_bind h
  obtain ⟨scopes, hscopes, h⟩ := exists_ok_of_bind h
  replace hscan := ok_of_mapError hscan
  replace hparse := ok_of_mapError hparse
  replace hscopes := ok_of_mapError hscopes
  have htree : tree = .ofConcrete source cst := by
    rw [SyntaxTree.parse] at hparse
    split at hparse
    · cases hparse
    · exact (Except.ok.inj hparse).symm
  subst htree
  obtain ⟨_, hrun, h⟩ := exists_ok_of_bind h
  have hrun : Yields (do pass Rule.all; finish options.linkageText)
      (.start (.ofConcrete source cst) scopes suppression options.hookName file) () _ :=
    Prod.ext hrun rfl
  obtain ⟨_, s, hpass, hfinish⟩ := Yields.bind_iff.1 hrun
  cases h
  exact ⟨suppression, diagnostics, scopes, s, _, hscan, hscopes, hpass, hfinish, rfl⟩

theorem instrument_edits {file : String} {source : List Char} {cst : Concrete}
    {options : InstrumentOptions} {out : Instrumented}
    (hw : (SyntaxTree.ofConcrete source cst).WellFormed)
    (h : instrument file source cst options = .ok out) :
    ∃ suppression diagnostics scopes t edits,
      Suppression.scan file source = .ok (suppression, diagnostics) ∧
      ScopeTable.analyze (.ofConcrete source cst) = .ok scopes ∧ out.code = t.render ∧
      Edited (.start (.ofConcrete source cst) scopes suppression options.hookName file) t edits := by
  obtain ⟨suppression, diagnostics, scopes, s, s', hscan, hscopes, hpass, hfinish, hcode⟩ :=
    instrument_ok h
  refine ⟨suppression, diagnostics, scopes, s'.tree, s'.tree.edits, hscan, hscopes, hcode, ?_⟩
  have hu := start_unsuppressed (.ofConcrete source cst) scopes suppression options.hookName file
  obtain ⟨htree, hscopes', -, -⟩ :=
    start_same (.ofConcrete source cst) scopes suppression options.hookName file
  generalize Instrumentation.start (.ofConcrete source cst) scopes suppression options.hookName file =
    s₀ at *
  have hw : s₀.tree.WellFormed := htree ▸ hw
  have hfresh : s₀.tree.IsFresh := htree ▸ SyntaxTree.isFresh_ofConcrete source cst
  have hf : s₀.scopes.Fits s₀.tree := by
    rw [htree, hscopes']
    exact ScopeTable.analyze_fits hscopes
  exact edited hw (pass_passed hw hfresh hpass) (finish_ok hfinish).1 hfresh hf hu

def commentBehindBody : List Char :=
  "let w = function (p) \x7b\n  p * 2; // JSane: ignore\n\x7d // c\n".toList

def commentBehindBodyTree : Concrete :=
  .named "program" 0 56 none [
    .named "lexical_declaration" 0 55 none [
      .mark "let" 0 3 (some "kind"),
      .named "variable_declarator" 4 55 none [
        .named "identifier" 4 5 (some "name") [],
        .named "function_expression" 8 55 (some "value") [
          .named "formal_parameters" 17 20 (some "parameters") [.named "identifier" 18 19 none []],
          .named "statement_block" 21 55 (some "body") [
            .named "expression_statement" 25 31 none [
              .named "binary_expression" 25 30 none [
                .named "identifier" 25 26 (some "left") [],
                .mark "*" 27 28 (some "operator"),
                .named "number" 29 30 (some "right") []]],
            .named "comment" 32 48 none [],
            .named "comment" 51 55 none []]]]]]

def commentBehindBodyCode : String :=
  "let w = function (p) \x7b var $$t0, $$t1;\n  ($$t0 = p, $$t1 = 2, " ++
    "__rt.arithmeticCheck($$t0 * $$t1, $$t0, $$t1, \"*\", \"t.js:2\", null, null, null, null)); " ++
    "// JSane: ignore\n\x7d // \x7d\n"

theorem instrument_edits_commentBehindBody :
    (SyntaxTree.ofConcrete commentBehindBody commentBehindBodyTree).WellFormed ∧
    ∃ out suppression diagnostics scopes t edits,
      instrument "t.js" commentBehindBody commentBehindBodyTree { linkage := .preexisting } =
        .ok out ∧
      Suppression.scan "t.js" commentBehindBody = .ok (suppression, diagnostics) ∧
      suppression.isSuppressed 2 = true ∧ out.code = commentBehindBodyCode ∧ out.code = t.render ∧
      Edited (.start (.ofConcrete commentBehindBody commentBehindBodyTree) scopes suppression
        "__rt" "t.js") t edits ∧
      ∃ e ∈ edits, ¬ Permitted (.start (.ofConcrete commentBehindBody commentBehindBodyTree) scopes
        suppression "__rt" "t.js") e := by
  have hw : (SyntaxTree.ofConcrete commentBehindBody commentBehindBodyTree).WellFormed := by
    decide +kernel
  have hout : (instrument "t.js" commentBehindBody commentBehindBodyTree
      { linkage := .preexisting }).toOption.map Instrumented.code = some commentBehindBodyCode := by
    decide +kernel
  have hrows : (Suppression.scan "t.js" commentBehindBody).toOption.map Prod.fst =
      some ⟨[false, false, true, false]⟩ := by decide +kernel
  cases hrun : instrument "t.js" commentBehindBody commentBehindBodyTree { linkage := .preexisting } with
  | error e =>
    rw [hrun] at hout
    cases hout
  | ok out =>
    obtain ⟨suppression, diagnostics, scopes, t, edits, hscan, -, hcode, hedited⟩ :=
      instrument_edits hw hrun
    rw [hrun] at hout
    rw [hscan] at hrows
    have hout : out.code = commentBehindBodyCode := Option.some.inj hout
    obtain rfl : suppression = ⟨[false, false, true, false]⟩ := Option.some.inj hrows
    refine ⟨hw, out, _, diagnostics, scopes, t, edits, rfl, hscan, rfl, hout, hcode, hedited, ?_⟩
    by_contra hall
    have hkept := hedited.kept fun e he => by_contra fun hno => hall ⟨e, he, hno⟩
    obtain ⟨htree, -, hsuppression, -⟩ := start_same
      (.ofConcrete commentBehindBody commentBehindBodyTree) scopes ⟨[false, false, true, false]⟩
      "__rt" "t.js"
    rw [htree, hsuppression, ← hcode, hout] at hkept
    exact absurd hkept (by decide +kernel)

end CoercionTrace
