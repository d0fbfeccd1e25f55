import CoercionTrace.Proofs.Instrument.Ledger
import CoercionTrace.Proofs.Instrument.Start
import CoercionTrace.Proofs.Text.Literal

/-!
# Keys of variables

Whoever writes or reads a variable works out by itself under which scope and slot the monitor keeps
the variable's history. Main statement: all of them arrive at the same key, in the frame where it
means the same thing, and share it with no other variable of that frame (`keys_consistent`).
-/

namespace CoercionTrace

namespace Instrumentation

/-- The texts of scope and slot by which generated code names where an identifier's value is kept. -/
def key? (s : Instrumentation) (id : NodeId) : Except InstrumentError (String × String) :=
  (s.identifierOrigin id).map fun origin => (origin.scope.print, origin.slot.print)

def StandsFor (s : Instrumentation) (id : NodeId) (k : ScopeId) (name : String) : Prop :=
  ∃ here, s.scopes.resolution? id = some (.declared k name here)

def own? (s : Instrumentation) (id : NodeId) : Option ScopeId :=
  (s.scopes.scopePath s.tree id).head?

end Instrumentation

open Instrumentation Text

def untracedKey : String × String := ("null", "null")

inductive VariableKey (s : Instrumentation) (k : ScopeId) (name : String) : String × String → Prop
  | untraced : s.isInstrumented k = false → VariableKey s k name untracedKey
  | frame : s.isInstrumented k = true → (s.scopes.scope k).isClosedOver name = false →
      VariableKey s k name ("null", Quoted.script name)
  | call {v : String} : s.isInstrumented k = true → s.traceVariable? k = some v →
      VariableKey s k name (v, Quoted.script name)

inductive UsedBy (t : SyntaxTree) (c id : NodeId) : Prop
  | operand {o : NodeId} : OperandOf t c o → id = t.unwrap o → UsedBy t c id
  | name : t.child? c "name" = some id → UsedBy t c id

structure ConsistentKeys (s : Instrumentation) : Prop where
  total : ∀ id, ∃ key, s.key? id = .ok key
  same : ∀ {id id' k name}, s.StandsFor id k name → s.StandsFor id' k name → s.key? id = s.key? id'
  /-- A key without a scope is that of a variable that no nested function reads. -/
  frame : ∀ {id k name slot}, s.StandsFor id k name → s.key? id = .ok ("null", slot) →
    slot ≠ "null" → slot = Quoted.script name ∧ s.isInstrumented k = true ∧
      ∀ id', s.StandsFor id' k name → s.own? id' = some k
  /-- It is evaluated in the frame of the variable's function. -/
  evaluated : ∀ {id k name slot c r}, s.StandsFor id k name → s.key? id = .ok ("null", slot) →
    slot ≠ "null" → s.tree.WellFormed → r ≠ Rule.body → r.handles (s.tree.kind c) = true →
    UsedBy s.tree c id → s.host? c = some k
  /-- A variable that keeps a call is used for variables of the function that was called. -/
  call : ∀ {id k k' name v slot}, s.StandsFor id k name → s.traceVariable? k' = some v →
    s.key? id = .ok (v, slot) → k = k' ∧ slot = Quoted.script name ∧
      ∃ f ∈ s.tree.ancestors id, s.scopes.scopeOf? f = some k
  distinct : ∀ {id id' k k' name name' key}, s.StandsFor id k name → s.StandsFor id' k' name' →
    (k, name) ≠ (k', name') → s.key? id = .ok key → s.key? id' = .ok key → key ≠ untracedKey →
    k ≠ k' ∧ (s.scopes.scope k).node ≠ (s.scopes.scope k').node ∧ key = ("null", Quoted.script name)
  untraced : ∀ {id k name}, s.StandsFor id k name →
    (s.scopes.scope k).kind = .passthrough ∨ s.isInstrumented k = false →
    s.key? id = .ok untracedKey
  global : ∀ {id}, (∀ k name, ¬ s.StandsFor id k name) →
    s.key? id = .ok (s.hook, Quoted.script (s.tree.rawSource id))
  /-- It shares its key with a variable only if the hook object is named like one of the texts that
  stand for the variable's scope. -/
  apart : ∀ {id id' k name key}, (∀ k name, ¬ s.StandsFor id k name) → s.StandsFor id' k name →
    s.key? id = .ok key → s.key? id' = .ok key → s.hook = "null" ∨ s.traceVariable? k = some s.hook

variable {s s₀ : Instrumentation} {id o c : NodeId} {k : ScopeId} {name : String}
  {key : String × String}

section

variable (hr : s.scopes.Resolved s.tree) (he : Enrolled s)
include hr he

theorem key_of_standsFor (h : s.StandsFor id k name) :
    ∃ key, s.key? id = .ok key ∧ VariableKey s k name key := by
  obtain ⟨here, hid⟩ := h
  obtain ⟨hname, -⟩ := ScopeTable.lookup_eq_declared (hr.found hid).symm
  rw [key?, identifierOrigin, hid, Option.getD_some, ← hname]
  dsimp only
  cases hk : s.isInstrumented k with
  | false => exact ⟨_, rfl, .untraced hk⟩
  | true =>
    cases hclosed : (s.scopes.scope k).isClosedOver name with
    | false => exact ⟨_, rfl, .frame hk hclosed⟩
    | true =>
      obtain ⟨v, hv⟩ := he.kept k hk (ScopeTable.hasClosedOver_of_isClosedOver hclosed)
      exact ⟨(v, Quoted.script name), by rw [hv]; rfl, .call hk hv⟩

end

theorem identifierOrigin_congr {id' : NodeId} (hr : s.scopes.Resolved s.tree)
    (h : s.StandsFor id k name) (h' : s.StandsFor id' k name) :
    s.identifierOrigin id = s.identifierOrigin id' := by
  obtain ⟨here, hid⟩ := h
  obtain ⟨here', hid'⟩ := h'
  obtain ⟨hname, -⟩ := ScopeTable.lookup_eq_declared (hr.found hid).symm
  obtain ⟨hname', -⟩ := ScopeTable.lookup_eq_declared (hr.found hid').symm
  simp only [identifierOrigin, hid, hid', Option.getD_some, ← hname, ← hname']

theorem key_of_global (h : ∀ k name, ¬ s.StandsFor id k name) :
    s.key? id = .ok (s.hook, Quoted.script (s.tree.rawSource id)) := by
  have hglobal : (s.scopes.resolution? id).getD .global = .global := by
    cases hid : s.scopes.resolution? id with
    | none => rfl
    | some r =>
      cases r with
      | global => rfl
      | declared k name here => exact absurd ⟨here, hid⟩ (h k name)
  rw [key?, identifierOrigin, hglobal]
  rfl

theorem script_ne_null (name : String) : Quoted.script name ≠ "null" :=
  Quoted.script_ne (by decide)

theorem nameOf_traceId_ne_null (names : NameSupply) (i : Nat) : names.nameOf .traceId i ≠ "null" := by
  intro h
  have hlist := congrArg String.toList h
  simp only [NameSupply.nameOf, NameSupply.stem, NameUse.stem, String.toList_append,
    String.toList_ofList] at hlist
  cases hd : names.dollars <;> simp [hd, List.replicate_succ] at hlist

theorem VariableKey.of_null {slot : String} (h : VariableKey s k name ("null", slot))
    (hslot : slot ≠ "null") (hv : ∀ k v, s.traceVariable? k = some v → v ≠ "null") :
    slot = Quoted.script name ∧ s.isInstrumented k = true ∧
      (s.scopes.scope k).isClosedOver name = false := by
  generalize hkey : (("null", slot) : String × String) = key at h
  cases h with
  | untraced => exact absurd (Prod.mk.inj hkey).2 hslot
  | frame hk hclosed => exact ⟨(Prod.mk.inj hkey).2, hk, hclosed⟩
  | call _ htrace => exact absurd (Prod.mk.inj hkey).1.symm (hv k _ htrace)

theorem own_of_not_closedOver (hr : s.scopes.Resolved s.tree) (h : s.StandsFor id k name)
    (hclosed : (s.scopes.scope k).isClosedOver name = false) : s.own? id = some k := by
  obtain ⟨here, hid⟩ := h
  cases here with
  | false => exact absurd (hr.marked hid) (by simp [hclosed])
  | true =>
    obtain ⟨-, -, -, hhead⟩ := ScopeTable.lookup_eq_declared (hr.found hid).symm
    simpa [own?] using hhead.symm

theorem OperandOf.lt {t : SyntaxTree} (hw : t.WellFormed) (h : OperandOf t c o) : c < o := by
  cases h with
  | field _ ho => exact (hw.child (SyntaxTree.child?_mem ho)).1
  | argument ha _ ho =>
    exact Nat.lt_trans (hw.child (SyntaxTree.child?_mem ha)).1
      (hw.child (SyntaxTree.mem_of_significant ho)).1
  | returned ho => exact (hw.child (SyntaxTree.mem_of_significant ho)).1

theorem UsedBy.parent {t : SyntaxTree} (hw : t.WellFormed) (h : UsedBy t c id) :
    t.Path c id ∧ ∃ p, (p = c ∨ t.kind p ∈ SyntaxTree.passing) ∧ id ∈ t.children p := by
  have hpath : t.Path c id := by
    cases h with
    | operand ho e => exact e ▸ ho.path.unwrap
    | name hn => exact .of_mem (SyntaxTree.child?_mem hn)
  have hlt : c < id := by
    cases h with
    | operand ho e => exact e ▸ Nat.lt_of_lt_of_le (ho.lt hw) (hw.le_of_below (t.below_unwrap _))
    | name hn => exact (hw.child (SyntaxTree.child?_mem hn)).1
  refine ⟨hpath, ?_⟩
  cases hpath with
  | refl => exact absurd hlt (Nat.lt_irrefl _)
  | child _ hp hc => exact ⟨_, hp, hc⟩

theorem UsedBy.own (hw : s.tree.WellFormed) (hf : s.scopes.Fits s.tree) {r : Rule} (hr : r ≠ .body)
    (hhandles : r.handles (s.tree.kind c) = true) (h : UsedBy s.tree c id) :
    s.own? id = s.host? c := by
  obtain ⟨hpath, p, hp, hmem⟩ := h.parent hw
  have hc : (s.tree.kind c).isFunctionLike = false ∧ (s.tree.kind c).isDeclaration = false := by
    cases hkind : s.tree.kind c <;> rw [hkind] at hhandles <;> cases r <;>
      simp_all [Rule.handles, Kind.isTerminable, Kind.isFunctionLike, Kind.isDeclaration]
  have hdeclaration : (s.tree.kind p).isDeclaration = false := by
    rcases hp with rfl | hp
    · exact hc.2
    · simp only [SyntaxTree.passing, List.mem_cons, List.not_mem_nil, or_false] at hp
      rcases hp with e | e | e | e <;> rw [e] <;> rfl
  have hname : s.tree.isDeclarationName id = false := by
    simp [SyntaxTree.isDeclarationName, (hw.child hmem).2.2, hdeclaration]
  rw [own?, ScopeTable.scopePath, SyntaxTree.lookupPath, hname, List.head?_filterMap]
  exact host_of_path hw hf hc.1 hpath

section

variable (hr : s.scopes.Resolved s.tree) (hf : s.scopes.Fits s.tree) (he : Enrolled s)
  (hv : ∀ k v, s.traceVariable? k = some v → v ≠ "null")
  (hunique : ∀ k k' v, s.traceVariable? k = some v → s.traceVariable? k' = some v → k = k')

section

include hr he

theorem variableKey_of_key (h : s.StandsFor id k name) (hkey : s.key? id = .ok key) :
    VariableKey s k name key := by
  obtain ⟨key', hkey', hform⟩ := key_of_standsFor hr he h
  cases hkey.symm.trans hkey'
  exact hform

theorem hook_of_shared {id' : NodeId} (h : ∀ k name, ¬ s.StandsFor id k name)
    (h' : s.StandsFor id' k name) (hkey : s.key? id = .ok key) (hkey' : s.key? id' = .ok key) :
    s.hook = "null" ∨ s.traceVariable? k = some s.hook := by
  have hglobal := (Except.ok.inj (hkey.symm.trans (key_of_global h))).symm
  have hform := variableKey_of_key hr he h' hkey'
  rw [← hglobal] at hform
  generalize hpair : (s.hook, Quoted.script (s.tree.rawSource id)) = key at hform
  cases hform with
  | untraced => exact absurd (Prod.mk.inj hpair).2 (script_ne_null _)
  | frame => exact .inl (Prod.mk.inj hpair).1
  | call _ hk => exact .inr ((Prod.mk.inj hpair).1 ▸ hk)

include hv

theorem frame_of_key {slot : String} (h : s.StandsFor id k name)
    (hkey : s.key? id = .ok ("null", slot)) (hslot : slot ≠ "null") :
    slot = Quoted.script name ∧ s.isInstrumented k = true ∧
      ∀ id', s.StandsFor id' k name → s.own? id' = some k := by
  obtain ⟨hname, hk, hclosed⟩ := (variableKey_of_key hr he h hkey).of_null hslot hv
  exact ⟨hname, hk, fun id' h' => own_of_not_closedOver hr h' hclosed⟩

include hunique

theorem call_of_key {k' : ScopeId} {v slot : String} (h : s.StandsFor id k name)
    (hk' : s.traceVariable? k' = some v) (hkey : s.key? id = .ok (v, slot)) :
    k = k' ∧ slot = Quoted.script name := by
  have hform := variableKey_of_key hr he h hkey
  generalize hpair : (v, slot) = key at hform
  cases hform with
  | untraced => exact absurd (Prod.mk.inj hpair).1 (hv k' v hk')
  | frame => exact absurd (Prod.mk.inj hpair).1 (hv k' v hk')
  | call _ hk =>
    obtain ⟨rfl, rfl⟩ := Prod.mk.inj hpair
    exact ⟨hunique k k' v hk hk', rfl⟩

theorem distinct_of_key {id' : NodeId} {k' : ScopeId} {name' : String} (h : s.StandsFor id k name)
    (h' : s.StandsFor id' k' name') (hne : (k, name) ≠ (k', name')) (hkey : s.key? id = .ok key)
    (hkey' : s.key? id' = .ok key) (htraced : key ≠ untracedKey) :
    k ≠ k' ∧ key = ("null", Quoted.script name) := by
  cases variableKey_of_key hr he h hkey with
  | untraced => exact absurd rfl htraced
  | frame =>
    -- Both are kept in the frame where they are read, under their names.
    obtain ⟨hname, -⟩ := frame_of_key hr he hv h' hkey' (script_ne_null name)
    refine ⟨fun hk => hne ?_, rfl⟩
    rw [hk, Quoted.script_injective hname]
  | call _ hk =>
    -- The scope of the key tells the function, its slot the name.
    obtain ⟨rfl, hname⟩ := call_of_key hr he hv hunique h' hk hkey'
    exact absurd (by rw [Quoted.script_injective hname]) hne

end

include hr hf he hv hunique

theorem consistentKeys : ConsistentKeys s where
  total id := by
    obtain ⟨origin, ho⟩ := he.keyed id
    exact ⟨_, by rw [key?, ho]; rfl⟩
  same h h' := by rw [key?, key?, identifierOrigin_congr hr h h']
  frame h hkey hslot := frame_of_key hr he hv h hkey hslot
  evaluated {id k name slot c r} h hkey hslot hw hrule hhandles hused := by
    obtain ⟨-, -, hown⟩ := frame_of_key hr he hv h hkey hslot
    exact (hused.own hw hf hrule hhandles).symm.trans (hown id h)
  call h hk' hkey := by
    obtain ⟨hk, hslot⟩ := call_of_key hr he hv hunique h hk' hkey
    obtain ⟨here, hid⟩ := h
    exact ⟨hk, hslot, hf.resolved hid⟩
  distinct {id id' k k' name name' key} h h' hne hkey hkey' htraced := by
    obtain ⟨hk, hframe⟩ := distinct_of_key hr he hv hunique h h' hne hkey hkey' htraced
    refine ⟨hk, fun hnode => hk ?_, hframe⟩
    obtain ⟨here, hid⟩ := h
    obtain ⟨here', hid'⟩ := h'
    obtain ⟨f, -, hfk⟩ := hf.resolved hid
    obtain ⟨f', -, hfk'⟩ := hf.resolved hid'
    have hff : f = f' := (hf.scope hfk).2.2.1.symm.trans (hnode.trans (hf.scope hfk').2.2.1)
    exact Option.some.inj (hfk.symm.trans (hff ▸ hfk'))
  untraced {id k name} h hk := by
    have hbare : s.isInstrumented k = false := by
      refine hk.elim (fun hkind => Bool.eq_false_iff.2 fun hi => ?_) fun hi => hi
      cases (he.plain k hi).symm.trans hkind
    obtain ⟨key, hkey, hform⟩ := key_of_standsFor hr he h
    cases hform with
    | untraced => exact hkey
    | frame hi => exact absurd (hi.symm.trans hbare) (by simp)
    | call hi => exact absurd (hi.symm.trans hbare) (by simp)
  global h := key_of_global h
  apart h h' hkey hkey' := hook_of_shared hr he h h' hkey hkey'

end

theorem keys_consistent {tree : SyntaxTree} {scopes : ScopeTable} {suppression : Suppression}
    {hook file : String} (hscopes : ScopeTable.analyze tree = .ok scopes)
    (h : Visited (.start tree scopes suppression hook file) s) : ConsistentKeys s := by
  have hv := start_traceVariables tree scopes suppression hook file
  have he := start_enrolled tree scopes suppression hook file
  obtain ⟨htree, hscopes', -, -⟩ := start_same tree scopes suppression hook file
  have hfixed := h.fixed
  have hr : s.scopes.Resolved s.tree := by
    rw [hfixed.scopes, hscopes']
    exact (ScopeTable.analyze_resolved hscopes).sameShape (htree ▸ hfixed.shape)
  have hf : s.scopes.Fits s.tree := by
    refine hfixed.fits ?_
    rw [htree, hscopes']
    exact ScopeTable.analyze_fits hscopes
  refine consistentKeys hr hf ⟨?_, ?_⟩ ?_ ?_
  · rw [hfixed.isInstrumented, hfixed.scopes]
    exact he.plain
  · rw [hfixed.isInstrumented, hfixed.scopes, hfixed.traceVariable?]
    exact he.kept
  · rw [hfixed.traceVariable?]
    intro k v hk
    obtain ⟨-, i, -, rfl⟩ := hv.made k v hk
    exact nameOf_traceId_ne_null _ i
  · rw [hfixed.traceVariable?]
    exact hv.distinct

/-- The program `function f(p) { p; return function () { return p; }; }` and another function with a
`p` of its own. -/
def sameNames : SyntaxTree :=
  .ofConcrete
    "function f(p) \x7b p; return function () \x7b return p; \x7d; \x7d\nfunction g(p) \x7b p; \x7d".toList
    (.named "program" 0 75 none [
      .named "function_declaration" 0 54 none [
        .named "identifier" 9 10 (some "name") [],
        .named "formal_parameters" 10 13 (some "parameters") [.named "identifier" 11 12 none []],
        .named "statement_block" 14 54 (some "body") [
          .named "expression_statement" 16 18 none [.named "identifier" 16 17 none []],
          .named "return_statement" 19 52 none [
            .named "function_expression" 26 51 none [
              .named "formal_parameters" 35 37 (some "parameters") [],
              .named "statement_block" 38 51 (some "body") [
                .named "return_statement" 40 49 none [.named "identifier" 47 48 none []]]]]]],
      .named "function_declaration" 55 75 none [
        .named "identifier" 64 65 (some "name") [],
        .named "formal_parameters" 65 68 (some "parameters") [.named "identifier" 66 67 none []],
        .named "statement_block" 69 75 (some "body") [
          .named "expression_statement" 71 73 none [.named "identifier" 71 72 none []]]]])

theorem keys_consistent_sameNames : sameNames.WellFormed ∧ ∃ scopes s,
    ScopeTable.analyze sameNames = .ok scopes ∧
    Visited (.start sameNames scopes {} "__rt" "t.js") s ∧ ConsistentKeys s ∧
      [7, 13, 20].map (fun id => (s.key? id).toOption) =
        [some ("$$ft0", "\"p\""), some ("$$ft0", "\"p\""), some ("null", "\"p\"")] := by
  let scopes := (ScopeTable.analyze sameNames).toOption.getD {}
  have hscopes : ScopeTable.analyze sameNames = .ok scopes := ok_of_toBool {} (by decide +kernel)
  exact ⟨by decide +kernel, scopes, _, hscopes, .start, keys_consistent hscopes .start,
    by decide +kernel⟩

end CoercionTrace
