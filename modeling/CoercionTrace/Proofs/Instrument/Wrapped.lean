import CoercionTrace.Proofs.Instrument.Reached

/-!
# Declarations in wrapped bodies

A function may declare the same name by `var` and by a function declaration among the statements of
its body, a block may not. Main statement: the rows of a function alone decide whether its body is
moved into a block, and the block then declares a name both ways exactly if the body does
(`pass_wraps_body`).
-/

namespace CoercionTrace

open Instrumentation InstrumentM

def Kind.declaresFunction : Kind → Bool
  | functionDeclaration | generatorFunctionDeclaration => true
  | _ => false

namespace SyntaxTree

def declaredFunctions (t : SyntaxTree) (statements : List NodeId) : List String :=
  (statements.filter fun c => (t.kind c).declaresFunction).flatMap t.ownName

def ownVarNames (t : SyntaxTree) (id : NodeId) : List String :=
  match t.kind id with
  | .variableDeclaration =>
    ((t.children id).filter fun c => t.kind c = .variableDeclarator).flatMap (t.fieldNames · "name")
  | .forInStatement => if (t.node id).keyword = some "var" then t.fieldNames id "left" else []
  | _ => []

def keepsVars (t : SyntaxTree) (id : NodeId) : Bool :=
  (t.kind id).isFunctionLike || t.kind id == .classExpression || t.kind id == .classDeclaration ||
    t.kind id == .expressionStatement || t.kind id == .comment

def varNamesWithin (t : SyntaxTree) : Nat → NodeId → List String
  | 0, _ => []
  | depth + 1, id =>
    if t.keepsVars id then []
    else t.ownVarNames id ++ (t.children id).flatMap (varNamesWithin t depth)

/-- The names declared by `var` at and below a node, outside nested functions and classes. -/
def varNames (t : SyntaxTree) (id : NodeId) : List String := t.varNamesWithin t.size id

/-- The name is declared by a function declaration among the statements, and by `var` at or below one
of them. -/
structure Clashes (t : SyntaxTree) (statements : List NodeId) (name : String) : Prop where
  asFunction : name ∈ t.declaredFunctions statements
  asVariable : name ∈ statements.flatMap t.varNames

theorem clashes_iff {t : SyntaxTree} {statements : List NodeId} {name : String} :
    t.Clashes statements name ↔
      name ∈ t.declaredFunctions statements ∧ name ∈ statements.flatMap t.varNames :=
  ⟨fun h => ⟨h.asFunction, h.asVariable⟩, fun h => ⟨h.1, h.2⟩⟩

instance (t : SyntaxTree) (statements : List NodeId) (name : String) :
    Decidable (t.Clashes statements name) := decidable_of_iff _ clashes_iff.symm

variable {t : SyntaxTree} {b c : NodeId} {name : String}

theorem varNames_of_keepsVars (h : t.keepsVars c = true) : t.varNames c = [] := by
  unfold varNames
  cases t.size with
  | zero => rfl
  | succ depth => exact if_pos h

theorem varNames_of_isLeaf (h : t.IsLeaf c) : t.varNames c = [] := by
  obtain ⟨hchildren, hkind⟩ := h
  have hown : t.ownVarNames c = [] := by
    simp only [List.mem_cons, List.not_mem_nil, or_false] at hkind
    rcases hkind with e | e | e <;> simp [ownVarNames, e]
  unfold varNames
  cases t.size with
  | zero => rfl
  | succ depth => simp [varNamesWithin, hown, hchildren]

theorem directivesEnd_le {statements : List NodeId} {start : Nat}
    (hordered : statements.Pairwise fun a b => (t.node a).stop ≤ (t.node b).start)
    (hstart : ∀ c ∈ statements, start ≤ (t.node c).start) :
    ∀ c ∈ statements, t.kind c = .expressionStatement ∨
      t.directivesEnd start statements ≤ (t.node c).start := by
  induction statements generalizing start with
  | nil => exact fun _ h => absurd h List.not_mem_nil
  | cons first rest ih =>
    obtain ⟨hbehind, hrest⟩ := List.pairwise_cons.1 hordered
    rw [directivesEnd]
    split
    · next hdirective =>
      intro c hc
      rcases List.mem_cons.1 hc with rfl | hc
      · exact .inl (by simpa using (Bool.and_eq_true_iff.1 hdirective).1)
      · exact ih hrest hbehind c hc
    · exact fun c hc => .inr (hstart c hc)

def movedStatements (t : SyntaxTree) (b : NodeId) : List NodeId :=
  t.childrenBetween b (t.bodyCut b) (t.bodyStop b)

theorem mem_movedStatements (hw : t.WellFormed) (hb : t.kind b = .statementBlock)
    (hc : c ∈ t.children b) (hleaf : ¬ t.IsLeaf c) (hcomment : t.kind c ≠ .comment)
    (hdirective : t.kind c ≠ .expressionStatement) : c ∈ t.movedStatements b := by
  have hbefore : (t.significantChildren b).Pairwise fun a b => (t.node a).stop ≤ (t.node b).start :=
    (hw.children_before b).sublist List.filter_sublist
  have hstart : ∀ d ∈ t.significantChildren b, t.bodyStart b ≤ (t.node d).start :=
    fun d hd => (hw.closes hb (mem_of_significant hd)).1
  have hcut := directivesEnd_le hbefore hstart c (List.mem_filter.2 ⟨hc, decide_eq_true hcomment⟩)
  have hstop := (hw.closes hb hc).2.resolve_right hleaf
  exact mem_between.2 ⟨hc, hcut.resolve_left hdirective, Nat.le_sub_one_of_lt hstop⟩

theorem clashes_movedStatements (hw : t.WellFormed) (hb : t.kind b = .statementBlock) :
    t.Clashes (t.movedStatements b) name ↔ t.Clashes (t.children b) name := by
  have hsub : ∀ c, c ∈ t.movedStatements b → c ∈ t.children b := fun c hc => (mem_between.1 hc).1
  constructor
  · rintro ⟨hfunction, hvar⟩
    obtain ⟨c, hc, hname⟩ := List.mem_flatMap.1 hfunction
    obtain ⟨d, hd, hvar⟩ := List.mem_flatMap.1 hvar
    obtain ⟨hc, hkind⟩ := List.mem_filter.1 hc
    exact ⟨List.mem_flatMap.2 ⟨c, List.mem_filter.2 ⟨hsub c hc, hkind⟩, hname⟩,
      List.mem_flatMap.2 ⟨d, hsub d hd, hvar⟩⟩
  · rintro ⟨hfunction, hvar⟩
    obtain ⟨c, hc, hname⟩ := List.mem_flatMap.1 hfunction
    obtain ⟨d, hd, hvar⟩ := List.mem_flatMap.1 hvar
    obtain ⟨hc, hkind⟩ := List.mem_filter.1 hc
    -- what declares a function or a variable is no directive and no comment, so it moves
    have hmoved : c ∈ t.movedStatements b := by
      apply mem_movedStatements hw hb hc
      · rintro ⟨-, hleaf⟩
        simp only [List.mem_cons, List.not_mem_nil, or_false] at hleaf
        rcases hleaf with e | e | e <;> rw [e] at hkind <;> cases hkind
      · intro e
        rw [e] at hkind
        cases hkind
      · intro e
        rw [e] at hkind
        cases hkind
    have hkeeps : t.keepsVars d ≠ true := by
      intro h
      rw [varNames_of_keepsVars h] at hvar
      cases hvar
    have hdmoved : d ∈ t.movedStatements b := by
      apply mem_movedStatements hw hb hd
      · intro hleaf
        rw [varNames_of_isLeaf hleaf] at hvar
        cases hvar
      · exact fun e => hkeeps (by simp [keepsVars, e])
      · exact fun e => hkeeps (by simp [keepsVars, e])
    exact ⟨List.mem_flatMap.2 ⟨c, List.mem_filter.2 ⟨hmoved, hkind⟩, hname⟩,
      List.mem_flatMap.2 ⟨d, hdmoved, hvar⟩⟩

end SyntaxTree

/-- Whatever a function declares, its body is moved into a block unless a suppressed row touches the
function; and a name that the body declares both as a function and by `var`, the block does, too. -/
theorem pass_wraps_body {tree : SyntaxTree} {scopes : ScopeTable} {suppression : Suppression}
    {hook file : String} {s : Instrumentation} {f body : NodeId} (hw : tree.WellFormed)
    (hfresh : tree.IsFresh) (hscopes : ScopeTable.analyze tree = .ok scopes)
    (hpass : Yields (pass Rule.all) (.start tree scopes suppression hook file) () s)
    (hf : tree.Reached f) (hplain : (tree.kind f).IsPlainFunction)
    (hbody : tree.child? f "body" = some body) :
    ((∃ directives header rest leave, (s.tree.node body).replacement =
        some (.framedBody directives header rest leave)) ↔
      tree.touchesRows f suppression.isSuppressed = false) ∧
    (∀ directives header rest leave, (s.tree.node body).replacement =
        some (.framedBody directives header rest leave) →
      rest = tree.splice s.tree.text (tree.bodyCut body) (tree.bodyStop body)
        (tree.movedStatements body)) ∧
    ∀ name, tree.Clashes (tree.movedStatements body) name ↔ tree.Clashes (tree.children body) name := by
  have h := started hw hfresh hscopes suppression hook file
  obtain ⟨htree, -, hsuppression, -⟩ := start_same tree scopes suppression hook file
  have hrows : (Instrumentation.start tree scopes suppression hook file).touchesSuppressed f =
      tree.touchesRows f suppression.isSuppressed := by
    rw [Instrumentation.touchesSuppressed, htree, hsuppression]
  rw [← hrows]
  generalize Instrumentation.start tree scopes suppression hook file = s₀ at *
  subst htree
  obtain ⟨k, hb⟩ := h.bodyOf hf hplain hbody
  refine ⟨h.framed_iff hpass (h.mem_agenda_iff.2 hf) hb, fun directives header rest leave hrep => ?_,
    fun name => SyntaxTree.clashes_movedStatements hw (hw.block hplain hbody)⟩
  have hp := pass_passed hw hfresh hpass
  have hshape := hp.visited.fixed.shape
  obtain ⟨-, hrest, -⟩ := hp.settled body _ hrep
  rw [hrest, SyntaxTree.movedStatements, ← hshape.bodyCut, ← hshape.bodyStop, ← hshape.childrenBetween,
    ← hshape.slices]
  rfl

def sameName : SyntaxTree :=
  .ofConcrete
    "function f() \x7b\n  var g;\n  function g() \x7b\n  \x7d\n\x7d\n".toList
    (.named "program" 0 47 none [
      .named "function_declaration" 0 46 none [
        .named "identifier" 9 10 (some "name") [],
        .named "formal_parameters" 10 12 (some "parameters") [],
        .named "statement_block" 13 46 (some "body") [
          .named "variable_declaration" 17 23 none [
            .named "variable_declarator" 21 22 none [.named "identifier" 21 22 (some "name") []]],
          .named "function_declaration" 26 44 none [
            .named "identifier" 35 36 (some "name") [],
            .named "formal_parameters" 36 38 (some "parameters") [],
            .named "statement_block" 39 44 (some "body") []]]]])

theorem pass_wraps_body_sameName :
    sameName.WellFormed ∧ sameName.IsFresh ∧ sameName.Reached 1 ∧
      (sameName.kind 1).IsPlainFunction ∧ sameName.child? 1 "body" = some 4 ∧ ∃ scopes s,
        ScopeTable.analyze sameName = .ok scopes ∧
        Yields (pass Rule.all) (.start sameName scopes ⟨[]⟩ "__rt" "t.js") () s ∧
        (∃ directives header rest leave, (s.tree.node 4).replacement =
          some (.framedBody directives header rest leave)) ∧
        sameName.movedStatements 4 = [5, 8] ∧ sameName.Clashes (sameName.movedStatements 4) "g" := by
  have hw : sameName.WellFormed := by decide +kernel
  have hfresh : sameName.IsFresh := SyntaxTree.isFresh_ofConcrete _ _
  have hf : sameName.Reached 1 := (SyntaxTree.reached_iff hw).2 (by decide +kernel)
  have hplain : (sameName.kind 1).IsPlainFunction := .inl (by decide +kernel)
  have hbody : sameName.child? 1 "body" = some 4 := by decide +kernel
  obtain ⟨scopes, hscopes⟩ := ScopeTable.analyze_succeeds sameName
  obtain ⟨s, -, hpass, -⟩ := run_succeeds hw hfresh (by decide +kernel) hscopes ⟨[]⟩ "__rt" "t.js" ""
    Rule.all (by decide +kernel)
  obtain ⟨hframed, -, hclashes⟩ := pass_wraps_body hw hfresh hscopes hpass hf hplain hbody
  exact ⟨hw, hfresh, hf, hplain, hbody, scopes, s, hscopes, hpass, hframed.2 (by decide +kernel),
    by decide +kernel, (hclashes "g").2 (by decide +kernel)⟩

end CoercionTrace
