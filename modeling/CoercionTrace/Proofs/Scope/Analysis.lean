import CoercionTrace.Scope.Resolve
import CoercionTrace.Proofs.Syntax.Traversal

/-!
# Analysed scopes

Main statement: after the analysis of a tree every scope belongs to the function-like node that it
is kept for, and a declared variable to a scope around the identifier (`analyze_fits`).
-/

namespace CoercionTrace

namespace ScopeTable

structure Fits (t : ScopeTable) (tree : SyntaxTree) : Prop where
  scope : ∀ {f k}, t.scopeOf? f = some k → (tree.kind f).isFunctionLike = true ∧
    k < t.scopes.size ∧ (t.scope k).node = f ∧ (t.scope k).kind = tree.scopeKind f
  resolved : ∀ {id k name here}, t.resolution? id = some (.declared k name here) →
    ∃ f ∈ tree.ancestors id, t.scopeOf? f = some k

variable {t t' : ScopeTable} {tree : SyntaxTree}

theorem Fits.scope_injective (h : t.Fits tree) {f g : NodeId} {k : ScopeId}
    (hf : t.scopeOf? f = some k) (hg : t.scopeOf? g = some k) : f = g :=
  (h.scope hf).2.2.1.symm.trans (h.scope hg).2.2.1

theorem declareAll_same (names : List String) (s : Scope) :
    (names.foldl Scope.declare s).node = s.node ∧ (names.foldl Scope.declare s).kind = s.kind ∧
      (names.foldl Scope.declare s).parent = s.parent := by
  induction names generalizing s with
  | nil => exact ⟨rfl, rfl, rfl⟩
  | cons name rest ih =>
    have hdeclare : (s.declare name).node = s.node ∧ (s.declare name).kind = s.kind ∧
        (s.declare name).parent = s.parent := by
      rw [Scope.declare]
      split <;> exact ⟨rfl, rfl, rfl⟩
    obtain ⟨hnode, hkind, hparent⟩ := ih (s.declare name)
    rw [List.foldl_cons, hnode, hkind, hparent]
    exact hdeclare

theorem openScope_fits {id : NodeId} (hid : (tree.kind id).isFunctionLike = true)
    (hnone : ∀ i, t.resolution? i = none) (h : t.Fits tree) :
    (t.openScope tree id).Fits tree ∧ ∀ i, (t.openScope tree id).resolution? i = none := by
  refine ⟨⟨fun {f k} hf => ?_, fun {i k name here} hi => ?_⟩, hnone⟩
  · rw [scopeOf?, openScope, Table.find?_insert] at hf
    have hsize : (t.openScope tree id).scopes.size = t.scopes.size + 1 := by
      simp [openScope]
    split at hf
    · next e =>
      subst e
      cases hf
      obtain ⟨hnode, hkind, -⟩ := declareAll_same (tree.functionNames id)
        { node := id, kind := tree.scopeKind id, parent := t.enclosing? tree id }
      refine ⟨hid, hsize ▸ Nat.lt_succ_self _, ?_, ?_⟩
      · simp only [ScopeTable.scope, openScope, Array.getD_eq_getD_getElem?, Array.getElem?_push_size]
        exact hnode
      · simp only [ScopeTable.scope, openScope, Array.getD_eq_getD_getElem?, Array.getElem?_push_size]
        exact hkind
    · obtain ⟨hlike, hlt, hnode, hkind⟩ := h.scope hf
      have hold : (t.openScope tree id).scope k = t.scope k := by
        simp only [ScopeTable.scope, openScope, Array.getD_eq_getD_getElem?, Array.getElem?_push,
          if_neg (Nat.ne_of_lt hlt)]
      exact ⟨hlike, hsize ▸ Nat.lt_succ_of_lt hlt, hold ▸ hnode, hold ▸ hkind⟩
  · have hnone' := hnone i
    rw [resolution?] at hi hnone'
    exact absurd (hnone'.symm.trans hi) (by simp)

theorem collect_fits : (({} : ScopeTable).collect tree).Fits tree := by
  have key : ∀ {functions : List NodeId} {t : ScopeTable},
      (∀ id ∈ functions, (tree.kind id).isFunctionLike = true) → t.Fits tree →
      (∀ i, t.resolution? i = none) →
      (functions.foldl (fun t id => t.openScope tree id) t).Fits tree := by
    intro functions
    induction functions with
    | nil => exact fun _ h _ => h
    | cons id rest ih =>
      intro t hlike h hnone
      obtain ⟨h', hnone'⟩ := openScope_fits (hlike id List.mem_cons_self) hnone h
      exact ih (fun i hi => hlike i (List.mem_cons_of_mem _ hi)) h' hnone'
  have hstart : ({} : ScopeTable).Fits tree := ⟨fun hf => (by cases hf), fun hi => (by cases hi)⟩
  obtain ⟨hscope, hresolved⟩ := key (fun id hid => (List.mem_filter.1 hid).2) hstart fun _ => rfl
  exact ⟨hscope, hresolved⟩

theorem markClosedOver_scope (t : ScopeTable) (k k' : ScopeId) (name : String) :
    ((t.markClosedOver k name).scope k').node = (t.scope k').node ∧
      ((t.markClosedOver k name).scope k').kind = (t.scope k').kind := by
  simp only [ScopeTable.scope, markClosedOver, Array.getD_eq_getD_getElem?, Array.getElem?_modify]
  split
  · cases t.scopes[k']? <;> exact ⟨rfl, rfl⟩
  · exact ⟨rfl, rfl⟩

theorem lookup_declared {id : NodeId} {k : ScopeId} {name : String} {here : Bool}
    (h : t.lookup tree id = .declared k name here) :
    ∃ f ∈ tree.ancestors id, t.scopeOf? f = some k := by
  rw [lookup] at h
  split at h
  · cases h
  · next s hs =>
    cases h
    obtain ⟨f, hf, hk⟩ := List.mem_filterMap.1 (List.mem_of_find?_eq_some hs)
    refine ⟨f, ?_, hk⟩
    rw [SyntaxTree.lookupPath] at hf
    split at hf
    · exact List.mem_of_mem_drop hf
    · exact hf

theorem note_same (t : ScopeTable) (id : NodeId) (r : Resolution) :
    (∀ k, ((t.note id r).scope k).node = (t.scope k).node ∧
      ((t.note id r).scope k).kind = (t.scope k).kind) ∧
    (t.note id r).scopes.size = t.scopes.size ∧ (t.note id r).byNode = t.byNode ∧
    (t.note id r).references = t.references.insert id r := by
  unfold note
  dsimp only
  split
  · exact ⟨fun k => t.markClosedOver_scope _ k _, by simp [markClosedOver], rfl, rfl⟩
  · exact ⟨fun k => ⟨rfl, rfl⟩, rfl, rfl, rfl⟩

theorem note_fits {id : NodeId} (h : t.Fits tree) : (t.note id (t.lookup tree id)).Fits tree := by
  obtain ⟨hscopes, hsize, hbyNode, hreferences⟩ := t.note_same id (t.lookup tree id)
  refine ⟨fun {f k} hf => ?_, fun {i k name here} hi => ?_⟩
  · rw [scopeOf?, hbyNode] at hf
    rw [(hscopes k).1, (hscopes k).2, hsize]
    exact h.scope hf
  · simp only [scopeOf?, hbyNode]
    rw [resolution?, hreferences, Table.find?_insert] at hi
    split at hi
    · next e =>
      subst e
      exact lookup_declared (Option.some.inj hi)
    · exact h.resolved hi

theorem resolve_fits {id : NodeId} {r : Resolution} (h : t.Fits tree)
    (hr : t.resolve tree id = .ok (r, t')) : t'.Fits tree := by
  rw [resolve] at hr
  split at hr
  · cases hr
  · split at hr
    · cases hr
      exact h
    · cases hr
      exact note_fits h

theorem analyze_fits (h : analyze tree = .ok t) : t.Fits tree := by
  have key : ∀ {nodes : List NodeId} {t t' : ScopeTable}, t.Fits tree →
      nodes.foldlM (fun t id => (t.resolve tree id).map (·.2)) t = .ok t' → t'.Fits tree := by
    intro nodes
    induction nodes with
    | nil =>
      intro t t' ht h
      cases h
      exact ht
    | cons id rest ih =>
      intro t t' ht h
      rw [List.foldlM_cons] at h
      cases hr : t.resolve tree id with
      | error e =>
        rw [hr] at h
        cases h
      | ok p =>
        rw [hr] at h
        exact ih (resolve_fits ht hr) h
  exact key collect_fits h

theorem scopeOf_openScope {f id : NodeId} (h : f = id ∨ ∃ k, t.scopeOf? f = some k) :
    ∃ k, (t.openScope tree id).scopeOf? f = some k := by
  rw [scopeOf?, openScope, Table.find?_insert]
  split
  · exact ⟨_, rfl⟩
  · next hne => exact h.resolve_left fun e => hne e.symm

theorem scopeOf_collect {f : NodeId} (hf : f ∈ tree.preOrder)
    (hlike : (tree.kind f).isFunctionLike = true) :
    ∃ k, (({} : ScopeTable).collect tree).scopeOf? f = some k := by
  have key : ∀ {functions : List NodeId} {t : ScopeTable},
      f ∈ functions ∨ (∃ k, t.scopeOf? f = some k) →
      ∃ k, (functions.foldl (fun t id => t.openScope tree id) t).scopeOf? f = some k := by
    intro functions
    induction functions with
    | nil => exact fun h => h.resolve_left List.not_mem_nil
    | cons id rest ih =>
      intro t h
      apply ih
      rcases h with h | h
      · exact (List.mem_cons.1 h).symm.imp_right fun e => scopeOf_openScope (.inl e)
      · exact .inr (scopeOf_openScope (.inr h))
  exact key (.inl (List.mem_filter.2 ⟨hf, hlike⟩))

theorem resolve_byNode {id : NodeId} {r : Resolution} (h : t.resolve tree id = .ok (r, t')) :
    t'.byNode = t.byNode := by
  rw [resolve] at h
  split at h
  · cases h
  · split at h
    · cases h
      rfl
    · cases h
      exact (note_same _ _ _).2.2.1

theorem analyze_opens (hw : tree.WellFormed) (h : analyze tree = .ok t) {f : NodeId}
    (hf : tree.Below SyntaxTree.root f) (hlike : (tree.kind f).isFunctionLike = true) :
    ∃ k, t.scopeOf? f = some k := by
  have key : ∀ {nodes : List NodeId} {t t' : ScopeTable},
      nodes.foldlM (fun t id => (t.resolve tree id).map (·.2)) t = .ok t' →
      t'.byNode = t.byNode := by
    intro nodes
    induction nodes with
    | nil =>
      intro t t' h
      cases h
      rfl
    | cons id rest ih =>
      intro t t' h
      rw [List.foldlM_cons] at h
      cases hr : t.resolve tree id with
      | error e =>
        rw [hr] at h
        cases h
      | ok p =>
        rw [hr] at h
        exact (ih h).trans (resolve_byNode hr)
  obtain ⟨k, hk⟩ := scopeOf_collect (SyntaxTree.mem_preOrder hw.linked hf) hlike
  refine ⟨k, ?_⟩
  rw [scopeOf?, key h]
  exact hk

end ScopeTable

end CoercionTrace
