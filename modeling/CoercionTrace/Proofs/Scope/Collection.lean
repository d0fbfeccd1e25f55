import CoercionTrace.Proofs.Scope.Analysis
import CoercionTrace.Proofs.Scope.Bindings
import Mathlib.Data.List.Basic

/-!
# Collected scopes

What a table holds once the scopes of a tree have been collected. Main statement: every function
has one scope, numbered in the order of the text, which knows the scope around it, its kind, and the
names that the function declares (`collect_complete`); only a parameter that is called `undefined`
escapes it.
-/

namespace CoercionTrace

def SyntaxTree.FunctionAround (t : SyntaxTree) (g f : NodeId) : Prop :=
  (t.kind g).isFunctionLike = true ∧ t.Below g f ∧ g ≠ f

def SyntaxTree.NearestFunction (t : SyntaxTree) (g f : NodeId) : Prop :=
  t.FunctionAround g f ∧ ∀ h, t.FunctionAround h f → t.Below h g

def SyntaxTree.functions (t : SyntaxTree) : List NodeId :=
  t.preOrder.filter fun id => (t.kind id).isFunctionLike

namespace Scope

theorem mem_names_iff {s : Scope} {name : String} : name ∈ s.names ↔ s.declares name = true := by
  constructor
  · intro h
    obtain ⟨e, he, rfl⟩ := List.mem_map.1 h
    rw [declares, Table.contains, Table.find?, Table.lookup_of_mem s.declared.nodup he]
    rfl
  · intro h
    obtain ⟨marked, hfound⟩ := Option.isSome_iff_exists.1 h
    exact List.mem_map.2 ⟨(name, marked), Table.mem_of_lookup hfound, rfl⟩

theorem mem_names_declareAll (names : List String) (s : Scope) (name : String) :
    name ∈ (names.foldl declare s).names ↔ name ∈ s.names ∨ name ∈ names := by
  induction names generalizing s with
  | nil => simp
  | cons head rest ih =>
    have hdeclare : name ∈ (s.declare head).names ↔ name ∈ s.names ∨ name = head := by
      rw [declare]
      split
      · next h =>
        refine ⟨.inl, ?_⟩
        rintro (hname | rfl)
        · exact hname
        · exact mem_names_iff.2 h
      · next h =>
        have hnew : head ∉ s.declared.keys := mt mem_names_iff.1 h
        rw [names, names, Table.keys_insert, if_neg hnew, List.mem_append, List.mem_singleton]
    rw [List.foldl_cons, ih, hdeclare, List.mem_cons, or_assoc]

end Scope

namespace ScopeTable

variable {t : ScopeTable} {tree : SyntaxTree} {done : List NodeId} {f g id : NodeId} {k j : ScopeId}

structure Opened (t : ScopeTable) (tree : SyntaxTree) (done : List NodeId) : Prop where
  size : t.scopes.size = done.length
  opened : ∀ {f k}, t.scopeOf? f = some k ↔ done[k]? = some f
  entry : ∀ {f k}, done[k]? = some f → t.scope k = (tree.functionNames f).foldl Scope.declare
    { node := f, kind := tree.scopeKind f, parent := t.enclosing? tree f }

theorem enclosing?_eq_head? (t : ScopeTable) (tree : SyntaxTree) (id : NodeId) :
    t.enclosing? tree id = ((tree.ancestors id).filterMap t.scopeOf?).head? :=
  List.head?_filterMap.symm

theorem enclosing?_openScope (h : id ∉ tree.ancestors f) :
    (t.openScope tree id).enclosing? tree f = t.enclosing? tree f := by
  rw [enclosing?_eq_head?, enclosing?_eq_head?]
  congr 1
  refine List.filterMap_congr fun a ha => ?_
  have hne : id ≠ a := fun e => h (e ▸ ha)
  rw [scopeOf?, openScope, Table.find?_insert, if_neg hne, scopeOf?]

theorem Opened.openScope (h : t.Opened tree done) (hnew : id ∉ done)
    (haround : ∀ f ∈ done ++ [id], id ∉ tree.ancestors f) :
    (t.openScope tree id).Opened tree (done ++ [id]) := by
  have hconcat : ∀ {f k}, (done ++ [id])[k]? = some f ↔
      done[k]? = some f ∨ (k = t.scopes.size ∧ f = id) := by
    rw [h.size]
    grind
  refine ⟨by simp [ScopeTable.openScope, h.size], fun {f k} => ?_, fun {f k} hf => ?_⟩
  · rw [hconcat, ← h.opened, scopeOf?, ScopeTable.openScope, Table.find?_insert]
    split
    · next e =>
      subst e
      have hnone : ¬ t.scopeOf? id = some k := fun hk => hnew (List.mem_of_getElem? (h.opened.1 hk))
      simp [hnone, eq_comm]
    · next hne => simp [scopeOf?, Ne.symm hne]
  · rw [enclosing?_openScope (haround f (List.mem_of_getElem? hf))]
    rcases hconcat.1 hf with hold | ⟨rfl, rfl⟩
    · obtain ⟨hlt, -⟩ := List.getElem?_eq_some_iff.1 hold
      rw [← h.entry hold]
      simp only [scope, ScopeTable.openScope, Array.getD_eq_getD_getElem?, Array.getElem?_push,
        if_neg (Nat.ne_of_lt (h.size ▸ hlt))]
    · simp only [scope, ScopeTable.openScope, Array.getD_eq_getD_getElem?, Array.getElem?_push_size,
        Option.getD_some]

theorem functions_pairwise (hw : tree.WellFormed) :
    tree.functions.Pairwise fun a b => a ≠ b ∧ b ∉ tree.ancestors a := by
  refine ((SyntaxTree.preOrder_pairwise hw).filter _).imp fun {a b} ⟨hne, h⟩ => ⟨hne, fun hb => ?_⟩
  obtain ⟨hbelow, hlt⟩ := SyntaxTree.below_of_mem_ancestors hw.linked hb
  rcases h with h | h
  · exact Nat.not_le_of_lt hlt (hw.le_of_below h)
  · rcases hbelow.eq_or_mem with rfl | ⟨p, hp, -⟩
    · exact hne rfl
    · exact Nat.not_le_of_lt (hw.proper hp) (Nat.le_trans h (hw.inside_of_below hbelow).1)

theorem opened_collect (hw : tree.WellFormed) :
    (({} : ScopeTable).collect tree).Opened tree tree.functions := by
  have key : ∀ {rest done : List NodeId} {t : ScopeTable}, t.Opened tree done →
      (done ++ rest).Pairwise (fun a b => a ≠ b ∧ b ∉ tree.ancestors a) →
      (rest.foldl (fun t id => t.openScope tree id) t).Opened tree (done ++ rest) := by
    intro rest
    induction rest with
    | nil =>
      intro done t h _
      rwa [List.append_nil]
    | cons id rest ih =>
      intro done t h hpairs
      rw [List.append_cons] at hpairs ⊢
      have hid : ∀ f ∈ done, f ≠ id ∧ id ∉ tree.ancestors f := fun f hf =>
        (List.pairwise_append.1 (List.pairwise_append.1 hpairs).1).2.2 f hf id List.mem_cons_self
      refine ih (h.openScope (fun hmem => (hid id hmem).1 rfl) fun f hf => ?_) hpairs
      rcases List.mem_append.1 hf with hf | hf
      · exact (hid f hf).2
      · obtain rfl := List.mem_singleton.1 hf
        exact fun hself => Nat.lt_irrefl _ (SyntaxTree.below_of_mem_ancestors hw.linked hself).2
  have hstart : ({} : ScopeTable).Opened tree [] := ⟨rfl, fun {f k} => by simp [scopeOf?], by simp⟩
  obtain ⟨hsize, hopened, hentry⟩ := key hstart (functions_pairwise hw)
  exact ⟨hsize, hopened, hentry⟩

theorem mem_functions_iff (hw : tree.WellFormed) : f ∈ tree.functions ↔
    tree.Below SyntaxTree.root f ∧ (tree.kind f).isFunctionLike = true := by
  rw [SyntaxTree.functions, List.mem_filter]
  exact and_congr_left' ⟨SyntaxTree.below_of_preOrderWithin, SyntaxTree.mem_preOrder hw.linked⟩

theorem Opened.scopeOf_iff (h : t.Opened tree done) :
    t.scopeOf? f = some k ↔ k < t.scopes.size ∧ (t.scope k).node = f := by
  rw [h.opened, h.size]
  constructor
  · intro hk
    obtain ⟨hlt, -⟩ := List.getElem?_eq_some_iff.1 hk
    refine ⟨hlt, ?_⟩
    rw [h.entry hk]
    exact (declareAll_same _ _).1
  · rintro ⟨hlt, rfl⟩
    have hk := List.getElem?_eq_getElem hlt
    rw [h.entry hk, (declareAll_same _ _).1]
    exact hk

theorem Opened.mem_scopes_iff (h : t.Opened tree done) {nodes : List NodeId} :
    k ∈ nodes.filterMap t.scopeOf? ↔ k < t.scopes.size ∧ (t.scope k).node ∈ nodes := by
  rw [List.mem_filterMap]
  constructor
  · rintro ⟨a, ha, hk⟩
    obtain ⟨hlt, rfl⟩ := h.scopeOf_iff.1 hk
    exact ⟨hlt, ha⟩
  · rintro ⟨hlt, ha⟩
    exact ⟨_, ha, h.scopeOf_iff.2 ⟨hlt, rfl⟩⟩

theorem rel_of_find? {α : Type} {R : α → α → Prop} {l : List α} {p : α → Bool} {a b : α}
    (hl : l.Pairwise R) (ha : l.find? p = some a) (hb : b ∈ l) (hp : p b = true) : a = b ∨ R a b := by
  obtain ⟨-, before, behind, rfl, hbefore⟩ := List.find?_eq_some_iff_append.1 ha
  rcases List.mem_append.1 hb with hb | hb
  · have hfails := hbefore b hb
    simp [hp] at hfails
  · rcases List.mem_cons.1 hb with rfl | hb
    · exact .inl rfl
    · exact .inr ((List.pairwise_cons.1 (List.pairwise_append.1 hl).2.1).1 b hb)

/-- Among scopes that are listed from the inside out, the first with a property is the innermost one
that has it. -/
theorem Opened.find?_iff (h : t.Opened tree done) (hw : tree.WellFormed) {nodes : List NodeId}
    (hnodes : nodes.Pairwise fun a b => tree.Below b a) {p : ScopeId → Bool} :
    (nodes.filterMap t.scopeOf?).find? p = some k ↔
      (k < t.scopes.size ∧ (t.scope k).node ∈ nodes ∧ p k = true) ∧
        ∀ j < t.scopes.size, (t.scope j).node ∈ nodes → p j = true →
          tree.Below (t.scope j).node (t.scope k).node := by
  have hpairs : (nodes.filterMap t.scopeOf?).Pairwise fun i j =>
      tree.Below (t.scope j).node (t.scope i).node := by
    refine hnodes.filterMap _ fun a b hab i hi j hj => ?_
    rw [(h.scopeOf_iff.1 hi).2, (h.scopeOf_iff.1 hj).2]
    exact hab
  have hfirst : ∀ {i}, (nodes.filterMap t.scopeOf?).find? p = some i → ∀ j < t.scopes.size,
      (t.scope j).node ∈ nodes → p j = true → tree.Below (t.scope j).node (t.scope i).node := by
    intro i hi j hlt hj hp
    rcases rel_of_find? hpairs hi (h.mem_scopes_iff.2 ⟨hlt, hj⟩) hp with rfl | hbelow
    · exact .refl
    · exact hbelow
  constructor
  · intro hk
    obtain ⟨hlt, hin⟩ := h.mem_scopes_iff.1 (List.mem_of_find?_eq_some hk)
    exact ⟨⟨hlt, hin, List.find?_some hk⟩, hfirst hk⟩
  · rintro ⟨⟨hlt, hin, hp⟩, hall⟩
    obtain ⟨i, hi⟩ := Option.isSome_iff_exists.1
      (List.find?_isSome.2 ⟨k, h.mem_scopes_iff.2 ⟨hlt, hin⟩, hp⟩)
    obtain ⟨hlt', hin'⟩ := h.mem_scopes_iff.1 (List.mem_of_find?_eq_some hi)
    have hnode := hw.below_antisymm (hfirst hi k hlt hin hp) (hall i hlt' hin' (List.find?_some hi))
    have hk := h.scopeOf_iff.2 ⟨hlt, rfl⟩
    rw [hnode, h.scopeOf_iff.2 ⟨hlt', rfl⟩] at hk
    rw [hi, hk]

theorem Opened.head?_iff (h : t.Opened tree done) (hw : tree.WellFormed) {nodes : List NodeId}
    (hnodes : nodes.Pairwise fun a b => tree.Below b a) :
    (nodes.filterMap t.scopeOf?).head? = some k ↔
      (k < t.scopes.size ∧ (t.scope k).node ∈ nodes) ∧
        ∀ j < t.scopes.size, (t.scope j).node ∈ nodes →
          tree.Below (t.scope j).node (t.scope k).node := by
  have hhead : (nodes.filterMap t.scopeOf?).head? =
      (nodes.filterMap t.scopeOf?).find? fun _ => true := by
    cases nodes.filterMap t.scopeOf? <;> rfl
  rw [hhead, h.find?_iff hw hnodes]
  simp

theorem Opened.entry_of_lt (h : t.Opened tree done) (hk : k < t.scopes.size) :
    t.scope k = (tree.functionNames (t.scope k).node).foldl Scope.declare
      { node := (t.scope k).node, kind := tree.scopeKind (t.scope k).node
        parent := t.enclosing? tree (t.scope k).node } := by
  exact h.entry (h.opened.1 (h.scopeOf_iff.2 ⟨hk, rfl⟩))

theorem Opened.functionAround_iff (h : t.Opened tree tree.functions) (hw : tree.WellFormed)
    (hk : k < t.scopes.size) : tree.FunctionAround (t.scope k).node f ↔
      (t.scope k).node ∈ tree.ancestors f := by
  have hmem := List.mem_of_getElem? (h.opened.1 (h.scopeOf_iff.2 ⟨hk, rfl⟩))
  rw [SyntaxTree.FunctionAround, SyntaxTree.mem_ancestors_iff hw.linked]
  simp [((mem_functions_iff hw).1 hmem).2]

theorem Opened.exists_scope (h : t.Opened tree done) (hf : f ∈ done) :
    ∃ k < t.scopes.size, (t.scope k).node = f := by
  obtain ⟨k, hk⟩ := List.mem_iff_getElem?.1 hf
  exact ⟨k, h.scopeOf_iff.1 (h.opened.2 hk)⟩

theorem Opened.enclosing?_iff (h : t.Opened tree tree.functions) (hw : tree.WellFormed)
    (hf : tree.Below SyntaxTree.root f) : t.enclosing? tree f = some k ↔
      k < t.scopes.size ∧ tree.NearestFunction (t.scope k).node f := by
  rw [enclosing?_eq_head?, h.head?_iff hw (SyntaxTree.ancestors_pairwise hw.linked f)]
  constructor
  · rintro ⟨⟨hk, hin⟩, hall⟩
    refine ⟨hk, (h.functionAround_iff hw hk).2 hin, fun g hg => ?_⟩
    have hroot : tree.Below SyntaxTree.root g := by
      rcases hw.below_or_below hf hg.2.1 with hroot | hroot
      · exact hroot
      · rw [Nat.le_zero.1 (hw.le_of_below hroot)]
        exact .refl
    obtain ⟨j, hj, rfl⟩ := h.exists_scope ((mem_functions_iff hw).2 ⟨hroot, hg.1⟩)
    exact hall j hj ((h.functionAround_iff hw hj).1 hg)
  · rintro ⟨hk, haround, hall⟩
    refine ⟨⟨hk, (h.functionAround_iff hw hk).1 haround⟩, fun j hj hin => ?_⟩
    exact hall _ ((h.functionAround_iff hw hj).2 hin)

theorem scopeKind_eq_function : tree.scopeKind f = .function ↔
    (tree.kind f = .functionDeclaration ∨ tree.kind f = .functionExpression) ∧
      (tree.node f).isAsync = false := by
  rw [SyntaxTree.scopeKind]
  split <;> simp_all

structure Describes (t : ScopeTable) (tree : SyntaxTree) (k : ScopeId) : Prop where
  function : tree.Below SyntaxTree.root (t.scope k).node ∧
    (tree.kind (t.scope k).node).isFunctionLike = true
  opened : t.scopeOf? (t.scope k).node = some k
  parent : ∀ j, (t.scope k).parent = some j ↔
    j < t.scopes.size ∧ tree.NearestFunction (t.scope j).node (t.scope k).node
  once : (t.scope k).names.Nodup
  names : ∀ name, name ∈ (t.scope k).names ↔
    tree.Declares Kind.isCollectedName (t.scope k).node name
  missed : ∀ name, tree.Declares Kind.isBoundName (t.scope k).node name ↔
    name ∈ (t.scope k).names ∨
      ∃ p, tree.Introduces (t.scope k).node p ∧ tree.Binds Kind.isUndefined p name
  kind : (t.scope k).kind = .function ↔ (tree.kind (t.scope k).node = .functionDeclaration ∨
    tree.kind (t.scope k).node = .functionExpression) ∧ (tree.node (t.scope k).node).isAsync = false

/-- After collection every function has one scope, and the scopes come in the order of the text. A
scope lacks no name but those that its function binds as `undefined`. -/
theorem collect_complete (hw : tree.WellFormed) : let t := ({} : ScopeTable).collect tree
    (∀ f, tree.Below SyntaxTree.root f → (tree.kind f).isFunctionLike = true →
      ∃! k, k < t.scopes.size ∧ (t.scope k).node = f) ∧
    (∀ j k, j < k → k < t.scopes.size → tree.Below (t.scope j).node (t.scope k).node ∨
      tree.Before (t.scope j).node (t.scope k).node) ∧
    ∀ k < t.scopes.size, t.Describes tree k := by
  intro t
  have h : t.Opened tree tree.functions := opened_collect hw
  refine ⟨fun f hf hlike => ?_, fun j k hjk hk => ?_, fun k hk => ?_⟩
  · obtain ⟨k, hk⟩ := h.exists_scope ((mem_functions_iff hw).2 ⟨hf, hlike⟩)
    refine ⟨k, hk, fun j hj => ?_⟩
    exact Option.some.inj ((h.scopeOf_iff.2 hj).symm.trans (h.scopeOf_iff.2 hk))
  · have hj := h.opened.1 (h.scopeOf_iff.2 ⟨Nat.lt_trans hjk hk, rfl⟩)
    obtain ⟨hltj, ej⟩ := List.getElem?_eq_some_iff.1 hj
    obtain ⟨hltk, ek⟩ := List.getElem?_eq_some_iff.1 (h.opened.1 (h.scopeOf_iff.2 ⟨hk, rfl⟩))
    have hpairs := (SyntaxTree.preOrder_pairwise hw).filter fun id => (tree.kind id).isFunctionLike
    rw [← ej, ← ek]
    exact (List.pairwise_iff_getElem.1 hpairs j k hltj hltk hjk).2
  · have hopened := h.scopeOf_iff.2 ⟨hk, rfl⟩
    have hfunction := (mem_functions_iff hw).1 (List.mem_of_getElem? (h.opened.1 hopened))
    have hentry := h.entry_of_lt hk
    obtain ⟨-, hkind, hparent⟩ := declareAll_same (tree.functionNames (t.scope k).node)
      { node := (t.scope k).node, kind := tree.scopeKind (t.scope k).node
        parent := t.enclosing? tree (t.scope k).node }
    have hnames : ∀ name, name ∈ (t.scope k).names ↔
        tree.Declares Kind.isCollectedName (t.scope k).node name := by
      intro name
      rw [← SyntaxTree.mem_functionNames hw, congrArg Scope.names hentry,
        Scope.mem_names_declareAll]
      exact or_iff_right List.not_mem_nil
    refine ⟨hfunction, hopened, fun j => ?_, (t.scope k).declared.nodup, hnames, fun name => ?_, ?_⟩
    · rw [← h.enclosing?_iff hw hfunction.1, (congrArg Scope.parent hentry).trans hparent]
    · rw [hnames, SyntaxTree.declares_isBoundName]
    · rw [(congrArg Scope.kind hentry).trans hkind, scopeKind_eq_function]

def undefinedParameter : SyntaxTree :=
  .ofConcrete "function f(undefined, x) \x7b\x7d".toList <|
    .named "program" 0 27 none [
      .named "function_declaration" 0 27 none [
        .named "identifier" 9 10 (some "name") [],
        .named "formal_parameters" 10 24 (some "parameters") [
          .named "undefined" 11 20 none [], .named "identifier" 22 23 none []],
        .named "statement_block" 25 27 (some "body") []]]

theorem collect_complete_undefinedParameter : undefinedParameter.WellFormed ∧
    (({} : ScopeTable).collect undefinedParameter).Describes undefinedParameter 0 ∧
    ((({} : ScopeTable).collect undefinedParameter).scope 0).names = ["arguments", "x"] ∧
    undefinedParameter.Declares Kind.isBoundName 1 "undefined" := by
  have hw : undefinedParameter.WellFormed := by decide +kernel
  obtain ⟨-, -, hscopes⟩ := collect_complete hw
  have hname : undefinedParameter.rawSource 4 = "undefined" := by decide +kernel
  have hbinds : undefinedParameter.Binds Kind.isBoundName 4 "undefined" :=
    ⟨4, .refl, by decide +kernel, hname⟩
  have hparameters : undefinedParameter.child? 1 "parameters" = some 3 := by decide +kernel
  have hparameter : 4 ∈ undefinedParameter.significantChildren 3 := by decide +kernel
  exact ⟨hw, hscopes 0 (by decide +kernel), by decide +kernel,
    .bound (.parameter hparameters hparameter) hbinds⟩

end ScopeTable

end CoercionTrace
