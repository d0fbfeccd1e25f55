import CoercionTrace.Proofs.Scope.Collection
import CoercionTrace.Proofs.Scope.Resolution

/-!
# Lexical resolution

What an identifier stands for is decided by the scopes around it alone, so that identifiers may be
resolved in any order and as often as one likes. Main statement: every resolution is lexical, and
the variables marked as closed over are those that some resolved identifier reads across a function
(`resolution_lexical`).
-/

namespace CoercionTrace

/-- Where the way outwards to the scope of an identifier begins: at the node around it, or at the
node around the declaration that it names. -/
inductive SyntaxTree.StartsAt (t : SyntaxTree) (id : NodeId) : NodeId → Prop
  | declaration {d s : NodeId} : (t.node id).field = some "name" → t.parent id = some d →
      (t.kind d).isDeclaration = true → t.parent d = some s → StartsAt t id s
  | here {s : NodeId} : t.parent id = some s →
      ((t.node id).field = some "name" → (t.kind s).isDeclaration = false) → StartsAt t id s

namespace ScopeTable

def Encloses (t : ScopeTable) (tree : SyntaxTree) (k : ScopeId) (id : NodeId) : Prop :=
  k < t.scopes.size ∧ ∃ s, tree.StartsAt id s ∧ tree.Below (t.scope k).node s

/-- What an identifier stands for: the variable of its name in the innermost scope that declares it,
which is `here` if no other scope lies further in. -/
inductive Denotes (t : ScopeTable) (tree : SyntaxTree) (id : NodeId) : Resolution → Prop
  | declared {k : ScopeId} {here : Bool} : t.Encloses tree k id →
      tree.rawSource id ∈ (t.scope k).names →
      (∀ j, t.Encloses tree j id → tree.rawSource id ∈ (t.scope j).names →
        tree.Below (t.scope j).node (t.scope k).node) →
      (here = true ↔ ∀ j, t.Encloses tree j id → tree.Below (t.scope j).node (t.scope k).node) →
      Denotes t tree id (.declared k (tree.rawSource id) here)
  | global : (∀ j, t.Encloses tree j id → tree.rawSource id ∉ (t.scope j).names) →
      Denotes t tree id .global

def resolveEach (t : ScopeTable) (tree : SyntaxTree) (ids : List NodeId) :
    Except InstrumentError ScopeTable :=
  ids.foldlM (fun t id => (t.resolve tree id).map (·.2)) t

variable {t t' t₀ : ScopeTable} {tree : SyntaxTree} {ids done : List NodeId} {f id : NodeId}
  {j k : ScopeId} {name : String} {r : Resolution}

theorem mem_lookupPath_iff (hw : tree.WellFormed) :
    f ∈ tree.lookupPath id ↔ ∃ s, tree.StartsAt id s ∧ tree.Below f s := by
  rw [SyntaxTree.lookupPath, SyntaxTree.isDeclarationName]
  cases hp : tree.parent id with
  | none =>
    have hstart : ∀ s, ¬ tree.StartsAt id s := by
      rintro s (⟨-, hd, -, -⟩ | ⟨hs, -⟩)
      · cases hp.symm.trans hd
      · cases hp.symm.trans hs
    simp [SyntaxTree.ancestors_of_none hp, hstart]
  | some p =>
    split
    · next hdeclares =>
      simp only [Option.map_some, Option.getD_some, Bool.and_eq_true, beq_iff_eq] at hdeclares
      rw [SyntaxTree.ancestors_of_mem hw.linked (hw.mem hp), List.drop_one, List.tail_cons,
        SyntaxTree.mem_ancestors_iff_parent hw.linked]
      refine exists_congr fun s => and_congr_left' ⟨.declaration hdeclares.1 hp hdeclares.2, ?_⟩
      rintro (⟨-, hd, -, hs⟩ | ⟨hs, hnot⟩)
      · cases hp.symm.trans hd
        exact hs
      · cases hp.symm.trans hs
        cases (hnot hdeclares.1).symm.trans hdeclares.2
    · next hdeclares =>
      simp only [Option.map_some, Option.getD_some, Bool.and_eq_true, beq_iff_eq, not_and,
        Bool.not_eq_true] at hdeclares
      rw [SyntaxTree.mem_ancestors_iff_parent hw.linked]
      refine exists_congr fun s => and_congr_left' ⟨fun hs => ?_, ?_⟩
      · cases hp.symm.trans hs
        exact .here hs hdeclares
      · rintro (⟨hname, hd, hk, -⟩ | ⟨hs, -⟩)
        · cases hp.symm.trans hd
          cases (hdeclares hname).symm.trans hk
        · exact hs

theorem encloses_iff (hw : tree.WellFormed) :
    t.Encloses tree k id ↔ k < t.scopes.size ∧ (t.scope k).node ∈ tree.lookupPath id := by
  rw [Encloses, mem_lookupPath_iff hw]

theorem lookupPath_pairwise (hw : tree.WellFormed) (id : NodeId) :
    (tree.lookupPath id).Pairwise fun a b => tree.Below b a := by
  rw [SyntaxTree.lookupPath]
  split
  · exact (SyntaxTree.ancestors_pairwise hw.linked id).sublist (List.drop_sublist _ _)
  · exact SyntaxTree.ancestors_pairwise hw.linked id

theorem Opened.scopePath_head?_iff (h : t.Opened tree done) (hw : tree.WellFormed)
    (hk : t.Encloses tree k id) : (t.scopePath tree id).head? = some k ↔
      ∀ j, t.Encloses tree j id → tree.Below (t.scope j).node (t.scope k).node := by
  rw [scopePath, h.head?_iff hw (lookupPath_pairwise hw id), and_iff_right ((encloses_iff hw).1 hk)]
  refine forall_congr' fun j => ?_
  rw [encloses_iff hw]
  exact ⟨fun hall hj => hall hj.1 hj.2, fun hall hlt hin => hall ⟨hlt, hin⟩⟩

theorem Opened.find?_declares_iff (h : t.Opened tree done) (hw : tree.WellFormed) :
    (t.scopePath tree id).find? (fun s => (t.scope s).declares name) = some k ↔
      (t.Encloses tree k id ∧ name ∈ (t.scope k).names) ∧
        ∀ j, t.Encloses tree j id → name ∈ (t.scope j).names →
          tree.Below (t.scope j).node (t.scope k).node := by
  rw [scopePath, h.find?_iff hw (lookupPath_pairwise hw id)]
  refine and_congr ?_ (forall_congr' fun j => ?_)
  · rw [encloses_iff hw, Scope.mem_names_iff, and_assoc]
  · rw [encloses_iff hw, Scope.mem_names_iff]
    exact ⟨fun hall hj => hall hj.1 hj.2, fun hall hlt hin => hall ⟨hlt, hin⟩⟩

theorem Opened.denotes_iff (h : t.Opened tree done) (hw : tree.WellFormed) :
    t.Denotes tree id r ↔ r = t.lookup tree id := by
  rw [lookup]
  constructor
  · intro hr
    cases hr with
    | @declared k here hk hname hall hhere =>
      have hfind := (h.find?_declares_iff hw).2 ⟨⟨hk, hname⟩, hall⟩
      have hfirst : here = ((t.scopePath tree id).head? == some k) := by
        rw [Bool.eq_iff_iff, beq_iff_eq, h.scopePath_head?_iff hw hk]
        exact hhere
      simp only [hfind, hfirst]
    | global hnone =>
      cases hfind : (t.scopePath tree id).find? fun s => (t.scope s).declares (tree.rawSource id) with
      | none => rfl
      | some k =>
        obtain ⟨⟨hk, hname⟩, -⟩ := (h.find?_declares_iff hw).1 hfind
        exact absurd hname (hnone k hk)
  · rintro rfl
    cases hfind : (t.scopePath tree id).find? fun s => (t.scope s).declares (tree.rawSource id) with
    | none =>
      refine .global fun j hj hname => ?_
      have hpath : j ∈ t.scopePath tree id := h.mem_scopes_iff.2 ((encloses_iff hw).1 hj)
      exact List.find?_eq_none.1 hfind j hpath (Scope.mem_names_iff.1 hname)
    | some k =>
      obtain ⟨⟨hk, hname⟩, hall⟩ := (h.find?_declares_iff hw).1 hfind
      refine .declared hk hname hall ?_
      rw [beq_iff_eq, h.scopePath_head?_iff hw hk]

theorem isClosedOver_declareAll (names : List String) (s : Scope) (name : String) :
    (names.foldl Scope.declare s).isClosedOver name = s.isClosedOver name := by
  induction names generalizing s with
  | nil => rfl
  | cons head rest ih =>
    rw [List.foldl_cons, ih, Scope.declare]
    split
    · rfl
    · next hnew =>
      rw [Scope.isClosedOver, Scope.isClosedOver, Table.find?_insert]
      split
      · next e =>
        subst e
        have hnone : s.declared.find? head = none := by
          simpa [Scope.declares, Table.contains] using hnew
        rw [hnone]
        rfl
      · rfl

theorem Opened.isClosedOver (h : t.Opened tree done) : (t.scope k).isClosedOver name = false := by
  by_cases hk : k < t.scopes.size
  · rw [h.entry_of_lt hk, isClosedOver_declareAll]
    rfl
  · rw [scope, Array.getD_eq_getD_getElem?, Array.getElem?_eq_none (Nat.le_of_not_lt hk)]
    rfl

structure ResolvedFrom (t t₀ : ScopeTable) (tree : SyntaxTree) (ids : List NodeId) : Prop where
  collected : t.collected = true
  lookup : ∀ id, t.lookup tree id = t₀.lookup tree id
  resolution : ∀ {id r}, t.resolution? id = some r ↔ id ∈ ids ∧ r = t₀.lookup tree id
  closedOver : ∀ {k name}, (t.scope k).isClosedOver name = true ↔
    ∃ id ∈ ids, t₀.lookup tree id = .declared k name false

theorem ResolvedFrom.congr {ids' : List NodeId} (h : t.ResolvedFrom t₀ tree ids)
    (hids : ∀ id, id ∈ ids' ↔ id ∈ ids) : t.ResolvedFrom t₀ tree ids' where
  collected := h.collected
  lookup := h.lookup
  resolution {id r} := by rw [h.resolution, hids]
  closedOver {k name} := by simp only [h.closedOver, hids]

theorem ResolvedFrom.resolve (h : t.ResolvedFrom t₀ tree ids) (id : NodeId) :
    ∃ t', t.resolve tree id = .ok (t₀.lookup tree id, t') ∧ t'.ResolvedFrom t₀ tree (ids ++ [id]) := by
  rw [ScopeTable.resolve, h.collected]
  cases hknown : t.resolution? id with
  | some r =>
    obtain ⟨hmem, rfl⟩ := h.resolution.1 hknown
    refine ⟨t, rfl, h.congr fun i => ?_⟩
    rw [List.mem_append, List.mem_singleton, or_iff_left_of_imp]
    rintro rfl
    exact hmem
  | none =>
    obtain ⟨-, -, hbyNode, hreferences⟩ := t.note_same id (t.lookup tree id)
    obtain ⟨hdeclares, hclosed⟩ := note_lookup t tree id
    refine ⟨t.note id (t.lookup tree id), by rw [h.lookup]; rfl,
      (collected_note _ _ _).trans h.collected, fun i => ?_, fun {i r} => ?_, fun {k name} => ?_⟩
    · rw [lookup_congr hbyNode hdeclares, h.lookup]
    · rw [resolution?, hreferences, Table.find?_insert, List.mem_append, List.mem_singleton]
      split
      · next e =>
        subst e
        rw [Option.some.injEq, h.lookup]
        exact ⟨fun hr => ⟨.inr rfl, hr.symm⟩, fun hr => hr.2.symm⟩
      · next hne => rw [or_iff_left (Ne.symm hne), ← h.resolution, resolution?]
    · rw [hclosed, h.closedOver, h.lookup]
      simp [or_and_right, exists_or]

theorem ResolvedFrom.resolveEach (h : t.ResolvedFrom t₀ tree done) (ids : List NodeId) :
    ∃ t', t.resolveEach tree ids = .ok t' ∧ t'.ResolvedFrom t₀ tree (done ++ ids) := by
  induction ids generalizing t done with
  | nil => exact ⟨t, rfl, by rwa [List.append_nil]⟩
  | cons id rest ih =>
    obtain ⟨t', hresolve, h'⟩ := h.resolve id
    obtain ⟨t'', hrest, h''⟩ := ih h'
    rw [← List.append_cons] at h''
    refine ⟨t'', ?_, h''⟩
    rw [ScopeTable.resolveEach, List.foldlM_cons, hresolve]
    exact hrest

theorem resolvedFrom_collect (hw : tree.WellFormed) :
    (({} : ScopeTable).collect tree).ResolvedFrom (({} : ScopeTable).collect tree) tree [] where
  collected := rfl
  lookup _ := rfl
  resolution {id r} := by
    have hnone : (({} : ScopeTable).collect tree).resolution? id = none := resolution?_collect id
    simp [hnone]
  closedOver {k name} := by simp [(opened_collect hw).isClosedOver]

structure Reflects (t t₀ : ScopeTable) (tree : SyntaxTree) (ids : List NodeId) : Prop where
  answers : ∀ id, ∃ r t', t.resolve tree id = .ok (r, t') ∧ ∀ r', t₀.Denotes tree id r' ↔ r' = r
  resolution : ∀ id r, t.resolution? id = some r ↔ id ∈ ids ∧ t₀.Denotes tree id r
  closedOver : ∀ k name, (t.scope k).isClosedOver name = true ↔
    ∃ id ∈ ids, t₀.Denotes tree id (.declared k name false)
  hasClosedOver : ∀ k, t.hasClosedOver k = true ↔
    ∃ name, ∃ id ∈ ids, t₀.Denotes tree id (.declared k name false)

theorem hasClosedOver_iff : t.hasClosedOver k = true ↔
    ∃ name, (t.scope k).isClosedOver name = true := by
  refine ⟨fun h => ?_, fun ⟨name, h⟩ => hasClosedOver_of_isClosedOver h⟩
  have hne : (t.scope k).closedOver ≠ [] := by simpa [hasClosedOver] using h
  obtain ⟨name, hname⟩ := List.exists_mem_of_ne_nil _ hne
  exact ⟨name, Scope.mem_closedOver_iff.1 hname⟩

theorem ResolvedFrom.reflects (h : t.ResolvedFrom t₀ tree ids) (h₀ : t₀.Opened tree done)
    (hw : tree.WellFormed) : t.Reflects t₀ tree ids := by
  have hclosed : ∀ k name, (t.scope k).isClosedOver name = true ↔
      ∃ id ∈ ids, t₀.Denotes tree id (.declared k name false) := by
    intro k name
    rw [h.closedOver]
    refine exists_congr fun id => and_congr_right' ?_
    rw [h₀.denotes_iff hw, eq_comm]
  refine ⟨fun id => ?_, fun id r => ?_, hclosed, fun k => ?_⟩
  · obtain ⟨t', hresolve, -⟩ := h.resolve id
    exact ⟨_, t', hresolve, fun r' => h₀.denotes_iff hw⟩
  · rw [h.resolution, h₀.denotes_iff hw]
  · rw [hasClosedOver_iff]
    exact exists_congr (hclosed k)

/-- Identifiers may be resolved in any order and repeatedly: what each stands for is fixed by the
scopes around it, and a variable is closed over if one that was resolved reads it across a function. -/
theorem resolution_lexical (hw : tree.WellFormed) : let t₀ := ({} : ScopeTable).collect tree
    (∀ ids, ∃ t, t₀.resolveEach tree ids = .ok t ∧ t.Reflects t₀ tree ids) ∧
    (∀ ids ids' t t', (∀ id, id ∈ ids ↔ id ∈ ids') →
      t₀.resolveEach tree ids = .ok t → t₀.resolveEach tree ids' = .ok t' →
      (∀ id, t.resolution? id = t'.resolution? id) ∧
      (∀ k name, (t.scope k).isClosedOver name = (t'.scope k).isClosedOver name) ∧
      ∀ k, t.hasClosedOver k = t'.hasClosedOver k) ∧
    ∃ t, t₀.resolveAll tree = .ok t ∧
      (∀ k name, (t.scope k).isClosedOver name = true ↔ ∃ id, tree.Below SyntaxTree.root id ∧
        (tree.kind id = .identifier ∨ tree.kind id = .shorthandPropertyIdentifier) ∧
        t₀.Denotes tree id (.declared k name false)) ∧
      ∀ k, t.hasClosedOver k = true ↔ ∃ name, (t.scope k).isClosedOver name = true := by
  intro t₀
  have h₀ : t₀.Opened tree tree.functions := opened_collect hw
  have hresolved : ∀ ids, ∃ t, t₀.resolveEach tree ids = .ok t ∧ t.ResolvedFrom t₀ tree ids := fun ids =>
    (resolvedFrom_collect hw).resolveEach ids
  -- a table that results is known by the identifiers resolved, whatever their order
  refine ⟨fun ids => ?_, fun ids ids' t t' hids ht ht' => ?_, ?_⟩
  · obtain ⟨t, ht, h⟩ := hresolved ids
    exact ⟨t, ht, h.reflects h₀ hw⟩
  · obtain ⟨u, hu, h⟩ := hresolved ids
    cases hu.symm.trans ht
    obtain ⟨u', hu', h'⟩ := hresolved ids'
    cases hu'.symm.trans ht'
    have h' := h'.congr hids
    have hclosed : ∀ k name, (t.scope k).isClosedOver name = (t'.scope k).isClosedOver name := by
      intro k name
      rw [Bool.eq_iff_iff, h.closedOver, h'.closedOver]
    refine ⟨fun id => Option.ext fun r => ?_, hclosed, fun k => ?_⟩
    · rw [h.resolution, h'.resolution]
    · rw [Bool.eq_iff_iff, hasClosedOver_iff, hasClosedOver_iff]
      exact exists_congr fun name => by rw [hclosed]
  · obtain ⟨t, ht, h⟩ := hresolved (identifiers tree)
    refine ⟨t, ht, fun k name => ?_, fun k => hasClosedOver_iff⟩
    rw [(h.reflects h₀ hw).closedOver]
    refine exists_congr fun id => ?_
    rw [identifiers, List.mem_filter, ← and_assoc]
    refine and_congr_left' (and_congr ⟨SyntaxTree.below_of_preOrderWithin, SyntaxTree.mem_preOrder hw.linked⟩ ?_)
    simp

def innerRead : SyntaxTree :=
  .ofConcrete "function f() \x7bvar a; function g() \x7ba\x7d\x7d".toList <|
    .named "program" 0 38 none [
      .named "function_declaration" 0 38 none [
        .named "identifier" 9 10 (some "name") [],
        .named "formal_parameters" 10 12 (some "parameters") [],
        .named "statement_block" 13 38 (some "body") [
          .named "variable_declaration" 14 20 none [
            .named "variable_declarator" 18 19 none [.named "identifier" 18 19 (some "name") []]],
          .named "function_declaration" 21 37 none [
            .named "identifier" 30 31 (some "name") [],
            .named "formal_parameters" 31 33 (some "parameters") [],
            .named "statement_block" 34 37 (some "body") [
              .named "expression_statement" 35 36 none [.named "identifier" 35 36 none []]]]]]]

theorem resolution_lexical_innerRead : innerRead.WellFormed ∧
    ∃ t, (({} : ScopeTable).collect innerRead).resolveEach innerRead [13, 7, 13, 9] = .ok t ∧
      t.Reflects (({} : ScopeTable).collect innerRead) innerRead [13, 7, 13, 9] ∧
      t.hasClosedOver 0 = true := by
  have hw : innerRead.WellFormed := by decide +kernel
  obtain ⟨t, ht, h⟩ := (resolution_lexical hw).1 [13, 7, 13, 9]
  have hread : (({} : ScopeTable).collect innerRead).Denotes innerRead 13 (.declared 0 "a" false) :=
    ((opened_collect hw).denotes_iff hw).2 (by decide +kernel)
  exact ⟨hw, t, ht, h, (h.hasClosedOver 0).2 ⟨"a", 13, List.mem_cons_self, hread⟩⟩

end ScopeTable

end CoercionTrace
