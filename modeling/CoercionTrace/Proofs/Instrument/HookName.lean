import CoercionTrace.Proofs.Instrument.Success
import CoercionTrace.Proofs.Names

/-!
# The name of the hook variable

Validation looks at the letters of the name and at nothing else, and generated names are kept apart
from the program, not from the options. Main statement: the output leaves the hook variable alone
unless its name is reserved or is that of a generated variable, and validation excludes neither
(`instrumentation_sparesHook_iff`).
-/

namespace CoercionTrace

open Instrumentation InstrumentM

/-- The words that no program may declare, whatever surrounds them. Words that are reserved in some places
only, such as `await`, `yield` and those of strict mode, are names elsewhere and not listed. -/
def reservedWords : List String :=
  ["break", "case", "catch", "class", "const", "continue", "debugger", "default", "delete", "do",
    "else", "enum", "export", "extends", "false", "finally", "for", "function", "if", "import", "in",
    "instanceof", "new", "null", "return", "super", "switch", "this", "throw", "true", "try", "typeof",
    "var", "void", "while", "with"]

theorem isHookName_nameOf (text : List Char) (use : NameUse) (i : Nat) :
    isHookName ((NameSupply.forProgram text).nameOf use i).toList = true := by
  obtain ⟨rest, hrest⟩ := NameSupply.nameOf_dollars text use i
  have hall : ∀ c ∈ ((NameSupply.forProgram text).nameOf use i).toList,
      isNameStart c = true ∨ c.isDigit = true := by
    intro c hc
    rw [NameSupply.nameOf_toList, List.mem_append, List.mem_append] at hc
    rcases hc with (hc | hc) | hc
    · obtain rfl := List.eq_of_mem_replicate hc
      exact .inl rfl
    · have hstem : use.stem.toList.all isNameStart = true := by cases use <;> rfl
      exact .inl (List.all_eq_true.1 hstem c hc)
    · exact .inr (Nat.isDigit_of_mem_toDigits (by decide) (by decide) hc)
  rw [← hrest] at hall ⊢
  simp only [List.cons_append, List.nil_append, isHookName, Bool.and_eq_true, List.all_eq_true,
    Bool.or_eq_true] at hall ⊢
  exact ⟨rfl, fun c hc => hall c (List.mem_cons_of_mem _ hc)⟩

namespace InstrumentOptions

variable {o : InstrumentOptions} {name : String}

theorem isHookName_of_validate (h : o.validate = .ok ()) : isHookName o.hookName.toList = true := by
  unfold validate at h
  split at h
  · cases h
  · next hname => simpa using hname

theorem validate_hookName (h : o.validate = .ok ()) (hname : isHookName name.toList = true) :
    { o with hookName := name }.validate = .ok () := by
  unfold validate at h ⊢
  rw [isHookName_of_validate h] at h
  rw [hname]
  exact h

end InstrumentOptions

theorem isHookName_reserved (h : name ∈ reservedWords) : isHookName name.toList = true := by
  revert h name
  decide

variable {s₀ s s' : Instrumentation} {drawn : List (Option ScopeId × String)} {t : SyntaxTree}
  {linkage name : String}

/-- The variables that a pass generates for what it visits: the variables that keep the calls of
functions, made before, and the temporaries that it draws. -/
inductive Generated (s₀ s : Instrumentation) : String → Prop
  | traceId {f body : NodeId} {k : ScopeId} {v : String} : f ∈ s₀.agenda → BodyOf s₀ f k body →
      s₀.traceVariable? k = some v → Generated s₀ s v
  | temporary {i : Nat} : s₀.names.next ≤ i → i < s.names.next →
      Generated s₀ s (s₀.names.nameOf .temporary i)

theorem Generated.numbered (hv : TraceVariables s₀) (hnames : s₀.names.next ≤ s.names.next)
    (h : Generated s₀ s name) : ∃ use, ∃ i < s.names.next, name = s₀.names.nameOf use i := by
  cases h with
  | traceId _ _ hk =>
    obtain ⟨-, i, hi, rfl⟩ := hv.made _ _ hk
    exact ⟨.traceId, i, Nat.lt_of_lt_of_le hi hnames, rfl⟩
  | temporary _ hi => exact ⟨.temporary, _, hi, rfl⟩

theorem Kept.generated_of_drawn {host : Option ScopeId} (hk : Kept s₀ s₀.agenda drawn s)
    (h : name ∈ drawnFor drawn host) : Generated s₀ s name := by
  have hname : name ∈ drawn.map Prod.snd := List.mem_map_of_mem (mem_drawnFor.1 h)
  rw [hk.numbered] at hname
  obtain ⟨i, hi, rfl⟩ := List.mem_map.1 hname
  obtain ⟨hle, hlt⟩ := List.mem_range'_1.1 hi
  refine .temporary hle ?_
  rw [hk.names]
  exact hlt

section

variable (hw : s₀.tree.WellFormed) (hp : Passed s₀ s₀.agenda s) (hk : Kept s₀ s₀.agenda drawn s)
  (ht : Finished s linkage t)
include hw hp hk ht

theorem declared_of_generated (hv : TraceVariables s₀) (h : Generated s₀ s name) :
    ∃ d use value, .declared use name value ∈ t.parts d := by
  cases h with
  | traceId hf hb hname =>
    exact ⟨_, _, _, ((ht.declares (hk.body _ hf _ _ hb)).traceId (hv.made _ _ hname).1 hname).1⟩
  | @temporary i hle hlt =>
    rw [hk.names] at hlt
    have hname : s₀.names.nameOf .temporary i ∈ drawn.map Prod.snd := by
      rw [hk.numbered]
      exact List.mem_map_of_mem (List.mem_range'_1.2 ⟨hle, hlt⟩)
    obtain ⟨⟨host, name⟩, hm, rfl⟩ := List.mem_map.1 hname
    cases host with
    | none =>
      refine ⟨_, _, _, (ht.declares_pending (hp.visited.wellFormed hw) ?_).1⟩
      rw [opened_none hk]
      exact mem_drawnFor.2 hm
    | some k =>
      obtain ⟨f, hf, body, hb⟩ := hk.hosts k _ hm
      exact ⟨_, _, _, ((ht.declares (hk.body f hf k body hb)).temporary (mem_drawnFor.2 hm)).1⟩

theorem generated_of_declared {d : NodeId} {use : NameUse} {value : Option Code}
    (h : .declared use name value ∈ t.parts d) : Generated s₀ s name := by
  have hname : name ∈ namesOf (t.parts d) := List.mem_filterMap.2 ⟨_, h, rfl⟩
  cases hr : (t.node d).replacement with
  | none =>
    rw [SyntaxTree.parts, hr] at hname
    simp [SyntaxTree.ownParts] at hname
  | some rep =>
    rw [SyntaxTree.parts, hr] at hname
    dsimp only at hname
    rw [rep.namesOf_parts] at hname
    rcases ht.replaced (hp.visited.wellFormed hw) hr with hs | ⟨-, before, gap, rest, rfl⟩
    · by_cases hc : rep.IsConstruct
      · cases hc <;> cases hname
      · obtain ⟨f, hf, k, hb, hsublist⟩ := hk.named d rep hs hc
        rcases List.mem_append.1 (hsublist.subset hname) with hm | hm
        · exact .traceId hf hb (Option.mem_toList.1 hm)
        · exact hk.generated_of_drawn hm
    · have hdrawn : name ∈ drawnFor drawn none := by
        rw [← opened_none hk]
        exact hname
      exact hk.generated_of_drawn hdrawn

end

/-- A program may declare the hook variable, and generated code declares and assigns others. -/
structure SparesHook (hook : String) (t : SyntaxTree) : Prop where
  identifier : isHookName hook.toList = true
  declarable : hook ∉ reservedWords
  undeclared : ∀ d use value, .declared use hook value ∉ t.parts d
  unused : ∀ d use, .used use hook ∉ t.parts d

theorem start_dollars (tree : SyntaxTree) (scopes : ScopeTable) (suppression : Suppression)
    (hook file : String) : (start tree scopes suppression hook file).names.dollars =
      (NameSupply.forProgram tree.source).dollars := by
  refine start_induction tree scopes suppression hook file
    (Q := fun s => s.names.dollars = (NameSupply.forProgram tree.source).dollars) rfl ?_
  intro s id h
  unfold Instrumentation.enroll
  dsimp only
  split
  · exact h
  · split <;> exact h

/-- Where the hook variable is not left alone, its name is reserved or generated: it begins with two
dollar signs, does not occur in the program, and passes validation. -/
theorem instrumentation_sparesHook_iff {tree : SyntaxTree} {scopes : ScopeTable}
    {suppression : Suppression} {options : InstrumentOptions} {file : String}
    (hvalid : options.validate = .ok ()) (hw : tree.WellFormed) (hfresh : tree.IsFresh)
    (hscopes : ScopeTable.analyze tree = .ok scopes)
    (hpass : Yields (pass Rule.all) (.start tree scopes suppression options.hookName file) () s)
    (hfinish : Yields (finish options.linkageText) s () s') :
    let s₀ := Instrumentation.start tree scopes suppression options.hookName file
    (SparesHook options.hookName s'.tree ↔
      options.hookName ∉ reservedWords ∧ ¬ Generated s₀ s options.hookName) ∧
    (∀ name, Generated s₀ s name → ['$', '$'] <+: name.toList ∧ ¬ name.toList <:+: tree.source ∧
      ∃ use, ∃ i < s.names.next, name = (NameSupply.forProgram tree.source).nameOf use i) ∧
    ∀ name, name ∈ reservedWords ∨ Generated s₀ s name →
      { options with hookName := name }.validate = .ok () := by
  intro s₀
  have hv : TraceVariables s₀ := start_traceVariables tree scopes suppression options.hookName file
  have hdollars : s₀.names.dollars = (NameSupply.forProgram tree.source).dollars :=
    start_dollars tree scopes suppression options.hookName file
  obtain ⟨htree, hscopes', -, htemporaries⟩ :=
    start_same tree scopes suppression options.hookName file
  change s₀.tree = tree at htree
  change s₀.scopes = scopes at hscopes'
  change s₀.temporaries = .empty at htemporaries
  change Yields (pass Rule.all) s₀ () s at hpass
  clear_value s₀
  subst htree
  have hf : s₀.scopes.Fits s₀.tree := by
    rw [hscopes']
    exact ScopeTable.analyze_fits hscopes
  have hempty : ∀ host, s₀.pending host = [] := by
    intro host
    rw [pending, htemporaries]
    rfl
  have hp := pass_passed hw hfresh hpass
  obtain ⟨drawn, hk⟩ := pass_kept hw hfresh hf hempty hpass
  have ht := (finish_ok hfinish).1
  have hnumbered : ∀ name, Generated s₀ s name →
      ∃ use, ∃ i < s.names.next, name = (NameSupply.forProgram s₀.tree.source).nameOf use i := by
    intro name h
    obtain ⟨use, i, hi, rfl⟩ := h.numbered hv (by rw [hk.names]; exact Nat.le_add_right _ _)
    exact ⟨use, i, hi, NameSupply.nameOf_eq hdollars use i⟩
  refine ⟨⟨fun h => ⟨h.declarable, fun hgenerated => ?_⟩, fun h => ?_⟩, fun name h => ?_,
    fun name h => ?_⟩
  · -- what is generated is declared somewhere, and what is used is declared around the use
    obtain ⟨d, use, value, hd⟩ := declared_of_generated hw hp hk ht hv hgenerated
    exact h.undeclared d use value hd
  · obtain ⟨hreserved, hgenerated⟩ := h
    have hundeclared : ∀ d use value, .declared use options.hookName value ∉ s'.tree.parts d :=
      fun d use value hd => hgenerated (generated_of_declared hw hp hk ht hd)
    refine ⟨InstrumentOptions.isHookName_of_validate hvalid, hreserved, hundeclared, ?_⟩
    intro d use hd
    have hroot := ((SyntaxTree.mem_postOrder hw.linked).1 (entitled_of_used hw hp hk ht hd).2.1).1
    obtain ⟨b, value, -, -, -, hb, -⟩ := declared_of_used hw hf hp hk hv ht
      ((hp.visited.fixed.shape.trans ht.shape).below hroot) hd
    exact hundeclared b use value hb
  · obtain ⟨use, i, hi, rfl⟩ := hnumbered name h
    exact ⟨NameSupply.nameOf_dollars _ _ _, NameSupply.nameOf_not_infix _ _ _, use, i, hi, rfl⟩
  · refine InstrumentOptions.validate_hookName hvalid ?_
    rcases h with h | h
    · exact isHookName_reserved h
    · obtain ⟨use, i, -, rfl⟩ := hnumbered name h
      exact isHookName_nameOf _ _ _

def bareSum : SyntaxTree :=
  .ofConcrete "a + b".toList
    (.named "program" 0 5 none [
      .named "expression_statement" 0 5 none [
        .named "binary_expression" 0 5 none [
          .named "identifier" 0 1 (some "left") [],
          .mark "+" 2 3 (some "operator"),
          .named "identifier" 4 5 (some "right") []]]])

theorem instrumentation_sparesHook_iff_bareSum :
    let options : InstrumentOptions := { hookName := "$$t0", linkage := .preexisting }
    options.validate = .ok () ∧ bareSum.WellFormed ∧ bareSum.IsFresh ∧ ∃ scopes s s',
      ScopeTable.analyze bareSum = .ok scopes ∧
      Yields (pass Rule.all) (.start bareSum scopes {} "$$t0" "t.js") () s ∧
      Yields (finish "") s () s' ∧ ¬ SparesHook "$$t0" s'.tree := by
  intro options
  have hvalid : options.validate = .ok () := by decide +kernel
  have hw : bareSum.WellFormed := by decide +kernel
  have hfresh : bareSum.IsFresh := SyntaxTree.isFresh_ofConcrete _ _
  let scopes := (ScopeTable.analyze bareSum).toOption.getD {}
  have hscopes : ScopeTable.analyze bareSum = .ok scopes := ok_of_toBool {} (by decide +kernel)
  let s₀ := start bareSum scopes {} "$$t0" "t.js"
  have hpass : Yields (pass Rule.all) s₀ () (s₀.afterPass Rule.all).2 :=
    .of_toBool (by decide +kernel)
  obtain ⟨_, s', hfinish⟩ : Succeeds (finish "") (s₀.afterPass Rule.all).2 :=
    ⟨_, _, .of_toBool (by decide +kernel)⟩
  refine ⟨hvalid, hw, hfresh, scopes, _, s', hscopes, hpass, hfinish, fun h => ?_⟩
  have hname : s₀.names.nameOf .temporary 0 = "$$t0" := by decide +kernel
  have hgenerated : Generated s₀ (s₀.afterPass Rule.all).2 (s₀.names.nameOf .temporary 0) :=
    .temporary (by decide +kernel) (by decide +kernel)
  rw [hname] at hgenerated
  exact ((instrumentation_sparesHook_iff hvalid hw hfresh hscopes hpass hfinish).1.1 h).2 hgenerated

end CoercionTrace
