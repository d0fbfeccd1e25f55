import CoercionTrace.Proofs.Scope.Analysis
import CoercionTrace.Proofs.Syntax.Update

/-!
# Resolved identifiers

The resolutions that a table holds do not go out of date: entering another one marks variables, but
declares none. Main statements: every tree can be analysed (`analyze_succeeds`), and afterwards an
identifier stands for what looking it up finds, and whatever is read across a function is marked as
closed over (`analyze_resolved`).
-/

namespace CoercionTrace

theorem Scope.mem_closedOver_iff {s : Scope} {name : String} :
    name ∈ s.closedOver ↔ s.isClosedOver name = true := by
  constructor
  · intro h
    obtain ⟨e, he, rfl⟩ := List.mem_map.1 h
    obtain ⟨he, hmarked⟩ := List.mem_filter.1 he
    rw [isClosedOver, Table.find?, Table.lookup_of_mem s.declared.nodup he]
    exact hmarked
  · intro h
    rw [isClosedOver, Option.getD_eq_iff] at h
    have hmem := Table.mem_of_lookup (h.resolve_right (by simp))
    exact List.mem_map.2 ⟨(name, true), List.mem_filter.2 ⟨hmem, rfl⟩, rfl⟩

namespace ScopeTable

variable {t t' : ScopeTable} {tree : SyntaxTree} {id : NodeId} {k k' : ScopeId} {name : String}

theorem hasClosedOver_of_isClosedOver (h : (t.scope k).isClosedOver name = true) :
    t.hasClosedOver k = true := by
  have hne := List.ne_nil_of_mem (Scope.mem_closedOver_iff.2 h)
  simpa [hasClosedOver] using hne

theorem lookup_eq_declared {here : Bool} (h : t.lookup tree id = .declared k name here) :
    name = tree.rawSource id ∧ (t.scope k).declares name = true ∧ k ∈ t.scopePath tree id ∧
      here = ((t.scopePath tree id).head? == some k) := by
  rw [lookup] at h
  split at h
  · cases h
  · next s hs =>
    cases h
    have hdeclares : (t.scope k).declares (tree.rawSource id) = true := by
      simpa using List.find?_some hs
    exact ⟨rfl, hdeclares, List.mem_of_find?_eq_some hs, rfl⟩

theorem lookup_congr (hbyNode : t'.byNode = t.byNode)
    (h : ∀ k name, (t'.scope k).declares name = (t.scope k).declares name) :
    t'.lookup tree id = t.lookup tree id := by
  have hscope : t'.scopeOf? = t.scopeOf? := by
    funext node
    rw [scopeOf?, scopeOf?, hbyNode]
  have hpath : t'.scopePath tree id = t.scopePath tree id := by rw [scopePath, scopePath, hscope]
  simp only [lookup, hpath, h]

theorem lookup_sameShape {tree' : SyntaxTree} (h : tree.SameShape tree') :
    t.lookup tree' id = t.lookup tree id := by
  have hname : tree'.isDeclarationName id = tree.isDeclarationName id := by
    simp only [SyntaxTree.isDeclarationName, h.field, h.parent, h.kind]
  have hpath : t.scopePath tree' id = t.scopePath tree id := by
    simp only [scopePath, SyntaxTree.lookupPath, hname, h.ancestors]
  simp only [lookup, hpath, h.rawSource]

theorem lt_size_of_declares (h : (t.scope k).declares name = true) : k < t.scopes.size := by
  refine Nat.lt_of_not_le fun hle => ?_
  rw [scope, Array.getD_eq_getD_getElem?, Array.getElem?_eq_none hle] at h
  cases h

theorem scope_markClosedOver (hk : k < t.scopes.size) :
    (t.markClosedOver k name).scope k' = if k = k' then
      { t.scope k with declared := (t.scope k).declared.insert name true } else t.scope k' := by
  simp only [scope, markClosedOver, Array.getD_eq_getD_getElem?, Array.getElem?_modify]
  split
  · next e =>
    subst e
    simp [Array.getElem?_eq_getElem hk]
  · rfl

theorem declares_markClosedOver (h : (t.scope k).declares name = true) (k' : ScopeId)
    (name' : String) :
    ((t.markClosedOver k name).scope k').declares name' = (t.scope k').declares name' := by
  rw [scope_markClosedOver (lt_size_of_declares h)]
  split
  · next e =>
    subst e
    simp only [Scope.declares, Table.contains, Table.find?_insert]
    split
    · next e =>
      subst e
      exact h.symm
    · rfl
  · rfl

theorem isClosedOver_markClosedOver (hk : k < t.scopes.size) (k' : ScopeId) (name' : String) :
    ((t.markClosedOver k name).scope k').isClosedOver name' =
      if k = k' ∧ name = name' then true else (t.scope k').isClosedOver name' := by
  rw [scope_markClosedOver hk]
  by_cases e : k = k'
  · subst e
    simp only [if_true, true_and, Scope.isClosedOver, Table.find?_insert]
    split <;> rfl
  · simp [e]

/-- What a table holds of identifiers is what looking them up finds, and variables that are read
across a function are marked. -/
structure Resolved (t : ScopeTable) (tree : SyntaxTree) : Prop where
  found : ∀ {id r}, t.resolution? id = some r → r = t.lookup tree id
  marked : ∀ {id k name}, t.resolution? id = some (.declared k name false) →
    (t.scope k).isClosedOver name = true

theorem Resolved.sameShape {tree' : SyntaxTree} (h : t.Resolved tree) (ht : tree.SameShape tree') :
    t.Resolved tree' :=
  ⟨fun hr => (h.found hr).trans (lookup_sameShape ht).symm, h.marked⟩

/-- Entering what a lookup finds declares nothing, and marks no more than what is read across a
function. -/
theorem note_lookup (t : ScopeTable) (tree : SyntaxTree) (id : NodeId) :
    (∀ k name, ((t.note id (t.lookup tree id)).scope k).declares name = (t.scope k).declares name) ∧
      ∀ k name, ((t.note id (t.lookup tree id)).scope k).isClosedOver name = true ↔
        (t.scope k).isClosedOver name = true ∨ t.lookup tree id = .declared k name false := by
  unfold note
  split
  · next k name hfound =>
    obtain ⟨-, hdeclares, -, -⟩ := lookup_eq_declared hfound
    have hk := lt_size_of_declares hdeclares
    refine ⟨declares_markClosedOver hdeclares, fun k' name' => ?_⟩
    have hmarked : ((t.markClosedOver k name).scope k').isClosedOver name' = true ↔
        (t.scope k').isClosedOver name' = true ∨ (k = k' ∧ name = name') := by
      rw [isClosedOver_markClosedOver hk]
      split <;> simp_all
    refine hmarked.trans (or_congr_right ?_)
    rw [hfound, Resolution.declared.injEq]
    exact ⟨fun ⟨e, e'⟩ => ⟨e, e', rfl⟩, fun ⟨e, e', _⟩ => ⟨e, e'⟩⟩
  · next hother =>
    exact ⟨fun _ _ => rfl, fun k name => (or_iff_left (hother k name)).symm⟩

theorem Resolved.note (h : t.Resolved tree) (id : NodeId) :
    (t.note id (t.lookup tree id)).Resolved tree := by
  obtain ⟨-, -, hbyNode, hreferences⟩ := t.note_same id (t.lookup tree id)
  obtain ⟨hdeclares, hmarks⟩ := note_lookup t tree id
  refine ⟨fun {i r} hi => ?_, fun {i k name} hi => ?_⟩
  · rw [lookup_congr hbyNode hdeclares]
    rw [resolution?, hreferences, Table.find?_insert] at hi
    split at hi
    · next e =>
      subst e
      exact (Option.some.inj hi).symm
    · exact h.found hi
  · rw [resolution?, hreferences, Table.find?_insert] at hi
    split at hi
    · exact (hmarks k name).2 (.inr (Option.some.inj hi))
    · exact (hmarks k name).2 (.inl (h.marked hi))

theorem collected_note (t : ScopeTable) (id : NodeId) (r : Resolution) :
    (t.note id r).collected = t.collected := by
  unfold ScopeTable.note
  dsimp only
  split <;> rfl

theorem Resolved.resolve (h : t.Resolved tree) (hc : t.collected = true) (id : NodeId) :
    ∃ r t', t.resolve tree id = .ok (r, t') ∧ t'.Resolved tree ∧ t'.collected = true := by
  rw [ScopeTable.resolve, hc]
  cases t.resolution? id with
  | some r => exact ⟨r, t, rfl, h, hc⟩
  | none => exact ⟨_, _, rfl, h.note id, (collected_note _ _ _).trans hc⟩

theorem resolution?_collect (id : NodeId) :
    (({} : ScopeTable).collect tree).resolution? id = none := by
  have key : ∀ {functions : List NodeId} {t : ScopeTable}, (∀ i, t.resolution? i = none) →
      ∀ i, (functions.foldl (fun t id => t.openScope tree id) t).resolution? i = none := by
    intro functions
    induction functions with
    | nil => exact fun h => h
    | cons id rest ih => exact fun h => ih h
  exact key (fun _ => rfl) id

theorem resolved_collect : (({} : ScopeTable).collect tree).Resolved tree where
  found {id r} h := by
    rw [resolution?_collect] at h
    cases h
  marked {id k name} h := by
    rw [resolution?_collect] at h
    cases h

theorem analyze_ok (tree : SyntaxTree) : ∃ t, analyze tree = .ok t ∧ t.Resolved tree := by
  have key : ∀ {nodes : List NodeId} {t : ScopeTable}, t.Resolved tree → t.collected = true →
      ∃ t', nodes.foldlM (fun t id => (t.resolve tree id).map (·.2)) t = .ok t' ∧
        t'.Resolved tree := by
    intro nodes
    induction nodes with
    | nil => exact fun h _ => ⟨_, rfl, h⟩
    | cons id rest ih =>
      intro t h hc
      obtain ⟨r, t', hr, h', hc'⟩ := h.resolve hc id
      obtain ⟨t'', hrest, h''⟩ := ih h' hc'
      refine ⟨t'', ?_, h''⟩
      rw [List.foldlM_cons, hr]
      exact hrest
  exact key resolved_collect rfl

theorem analyze_succeeds (tree : SyntaxTree) : ∃ t, analyze tree = .ok t := by
  obtain ⟨t, ht, -⟩ := analyze_ok tree
  exact ⟨t, ht⟩

theorem analyze_resolved (h : analyze tree = .ok t) : t.Resolved tree := by
  obtain ⟨t', ht', hresolved⟩ := analyze_ok tree
  cases h.symm.trans ht'
  exact hresolved

end ScopeTable

end CoercionTrace
