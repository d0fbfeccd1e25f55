import CoercionTrace.Proofs.Instrument.Taken
import CoercionTrace.Proofs.Instrument.Visit

/-!
# However far instrumentation has come

What holds of a tree some of whose nodes were visited, in any order. Main statements: visits change
nothing of a tree but replacements (`Visited.fixed`), texts are made of texts further down
(`Visited.takesFromBelow`), and parentheses and member accesses stay (`Visited.keepsForms`).
-/

namespace CoercionTrace

open Instrumentation InstrumentM

inductive Visited (s₀ : Instrumentation) : Instrumentation → Prop
  | start : Visited s₀ s₀
  | visit {s s' : Instrumentation} {rules : List Rule} {id : NodeId} : Visited s₀ s →
      Yields (visit rules id) s () s' → Visited s₀ s'

structure Fixed (s s' : Instrumentation) : Prop where
  shape : s.tree.SameShape s'.tree
  scopes : s'.scopes = s.scopes
  suppression : s'.suppression = s.suppression
  hook : s'.hook = s.hook
  file : s'.file = s.file
  instrumented : s'.instrumented = s.instrumented
  traceVariables : s'.traceVariables = s.traceVariables

theorem Fixed.refl (s : Instrumentation) : Fixed s s := ⟨.refl _, rfl, rfl, rfl, rfl, rfl, rfl⟩

theorem Fixed.trans {s s' s'' : Instrumentation} (h : Fixed s s') (h' : Fixed s' s'') : Fixed s s'' where
  shape := h.shape.trans h'.shape
  scopes := h'.scopes.trans h.scopes
  suppression := h'.suppression.trans h.suppression
  hook := h'.hook.trans h.hook
  file := h'.file.trans h.file
  instrumented := h'.instrumented.trans h.instrumented
  traceVariables := h'.traceVariables.trans h.traceVariables

variable {P : Option ScopeId → Prop} {rules : List Rule} {s s' s₀ : Instrumentation} {id c : NodeId}

theorem SyntaxTree.lt_size_of_kind {t : SyntaxTree} (h : t.kind id ≠ .program) : id < t.size := by
  refine Nat.lt_of_not_le fun hle => h ?_
  simp only [SyntaxTree.kind, SyntaxTree.node, Array.getD_eq_getD_getElem?,
    Array.getElem?_eq_none hle]
  rfl

theorem lt_size_of_handles {r : Rule} {t : SyntaxTree} (h : r.handles (t.kind id) = true) :
    id < t.size := by
  refine SyntaxTree.lt_size_of_kind fun hkind => ?_
  rw [hkind] at h
  cases r <;> simp [Rule.handles, Kind.isTerminable] at h

theorem OperandTaken.below {t : SyntaxTree} {o : NodeId} {nodes : List NodeId}
    (h : OperandTaken t o nodes) : ∀ c ∈ nodes, t.Below o c := by
  cases h with
  | inert => simp
  | pieces => exact fun c hc => (t.below_unwrap o).trans (SyntaxTree.below_of_mem_pieces hc)
  | whole =>
    intro c hc
    obtain rfl := List.mem_singleton.1 hc
    exact .refl

theorem below_of_operand {t : SyntaxTree} (hw : t.WellFormed) {r : Rule} {o : NodeId}
    (h : o ∈ r.operands t id) : id < o ∧ t.Below id o := by
  have hchild : ∀ {o}, o ∈ t.children id → id < o ∧ t.Below id o :=
    fun ho => ⟨(hw.child ho).1, .of_mem ho⟩
  have hfields : ∀ {f g : String}, o ∈ (t.child? id f).toList ++ (t.child? id g).toList →
      id < o ∧ t.Below id o := by
    intro f g h
    rcases List.mem_append.1 h with h | h
    · exact hchild (SyntaxTree.child?_mem (Option.mem_toList.1 h))
    · exact hchild (SyntaxTree.child?_mem (Option.mem_toList.1 h))
  cases r with
  | binary => exact hfields h
  | assignment => exact hfields h
  | compound => exact hfields h
  | declarator => exact hchild (SyntaxTree.child?_mem (Option.mem_toList.1 h))
  | returning =>
    exact hchild (SyntaxTree.mem_of_significant (List.mem_of_head? (Option.mem_toList.1 h)))
  | call =>
    rcases List.mem_append.1 h with h | h
    · exact hchild (SyntaxTree.child?_mem (Option.mem_toList.1 h))
    · cases ha : t.child? id "arguments" with
      | none => simp [ha] at h
      | some arguments =>
        have ho : o ∈ t.significantChildren arguments := by simpa [ha] using h
        have ho := SyntaxTree.mem_of_significant ho
        have ha := SyntaxTree.child?_mem ha
        exact ⟨Nat.lt_trans (hw.child ha).1 (hw.child ho).1, .child (.of_mem ha) ho⟩
  | terminator => cases h
  | body => cases h

theorem Rewrites.below {drawn : String → Prop} {r : Rule} {rep : Replacement}
    (hw : s.tree.WellFormed) (h : Rewrites s drawn id r rep) :
    ∀ c ∈ rep.takenOver s.tree id, id < c ∧ s.tree.Below id c := by
  intro c hc
  rcases h.taken with ⟨-, _, _, rfl⟩ | htakes
  · rw [Replacement.takenOver_statement] at hc
    exact ⟨(hw.child hc).1, .of_mem hc⟩
  · obtain ⟨o, ho, taken, htaken, hct⟩ := htakes.source hc
    have hbelow := htaken.below c hct
    obtain ⟨hlt, hid⟩ := below_of_operand hw ho
    exact ⟨Nat.lt_of_lt_of_le hlt (hw.le_of_below hbelow), hid.trans hbelow⟩

theorem all_enterCall {Q : Part → Prop} (hQ : ∀ s, Q (.text s)) (s : Instrumentation)
    (function : NodeId) (scope : Scope) : (s.enterCall function scope).All Q := by
  have hmap : ∀ {α : Type} {f : α → Code} {names : List α}, (∀ name, (f name).All Q) →
      (Code.list (names.map f)).All Q := by
    intro α f names hf
    refine Code.all_list hQ fun c hc => ?_
    obtain ⟨name, -, rfl⟩ := List.mem_map.1 hc
    exact hf name
  unfold Instrumentation.enterCall
  extract_lets names listed captured
  have hlisted : (Code.list listed).All Q := by
    refine hmap fun name => ?_
    cases name with
    | none => exact Code.all_null hQ
    | some name => exact Code.all_quoted hQ name
  refine Code.all_hook hQ ?_
  split
  · exact List.forall_mem_singleton.2 hlisted
  · exact List.forall_mem_cons.2 ⟨hlisted, List.forall_mem_singleton.2 (hmap (Code.all_quoted hQ))⟩

theorem spliced_enterCall (s : Instrumentation) (function : NodeId) (scope : Scope) :
    (s.enterCall function scope).spliced = [] := by
  rw [← Code.nodesOf_parts]
  exact List.filterMap_eq_nil_iff.2 (all_enterCall (Q := fun p => p.node? = none) (fun _ => rfl) s _ _)

theorem BodyForm.takenOver {number : ScopeId} {body : NodeId} {rep : Replacement}
    (h : BodyForm s id number body (some ⟨body, rep⟩)) :
    ∀ c ∈ rep.takenOver s.tree body, c ∈ s.tree.children body := by
  intro c hc
  cases h with
  | framed =>
    rw [Replacement.takenOver_framedBody (spliced_enterCall s id _) rfl] at hc
    exact SyntaxTree.mem_of_between hc
  | host =>
    rw [Replacement.takenOver_hostBody] at hc
    exact SyntaxTree.mem_of_between hc

def Kind.IsReplaceable (kind : Kind) : Prop :=
  kind = .statementBlock ∨ ∃ r : Rule, r ≠ .body ∧ r.handles kind = true

namespace SyntaxTree.Replaces

variable {t t' : SyntaxTree} {rep : Replacement}

theorem takenOver_elsewhere (h : t.Replaces c rep t') (hid : id ≠ c) :
    t'.takenOver id = t.takenOver id := by
  cases hr : (t.node id).replacement with
  | none =>
    rw [SyntaxTree.takenOver_of_none hr, SyntaxTree.takenOver_of_none (by rw [h.elsewhere id hid, hr]),
      h.shape.children]
  | some r =>
    rw [SyntaxTree.takenOver_of_some hr, SyntaxTree.takenOver_of_some (by rw [h.elsewhere id hid, hr]),
      h.shape.takenOver]

theorem takesFromBelow (h : t.Replaces c rep t') (hc : c < t.size) (ht : t.TakesFromBelow)
    (hbelow : ∀ d ∈ rep.takenOver t c, c < d ∧ t.Below c d) : t'.TakesFromBelow := by
  intro id d hd
  by_cases hid : id = c
  · subst hid
    rw [SyntaxTree.takenOver_of_some (h.at_ hc), h.shape.takenOver] at hd
    exact ⟨(hbelow d hd).1, h.shape.below (hbelow d hd).2⟩
  · rw [h.takenOver_elsewhere hid] at hd
    exact ⟨(ht id d hd).1, h.shape.below (ht id d hd).2⟩

theorem keepsForms (h : t.Replaces c rep t') (hkind : (t.kind c).IsReplaceable)
    (ht : t.KeepsForms) : t'.KeepsForms := by
  intro id hid
  rw [h.shape.kind] at hid
  by_cases hc : id = c
  · subst hc
    rcases hkind with hk | ⟨r, hr, hk⟩
    · rw [hk] at hid
      simp at hid
    · simp only [List.mem_cons, List.not_mem_nil, or_false] at hid
      rcases hid with e | e | e <;> rw [e] at hk <;> cases r <;>
        simp [Rule.handles, Kind.isTerminable] at hk
  · rw [h.elsewhere id hc]
    exact ht id hid

end SyntaxTree.Replaces

theorem VisitForm.tree (hw : s.tree.WellFormed) (h : VisitForm P rules s id s') :
    s'.tree = s.tree ∨ ∃ c rep, c < s.tree.size ∧ s.tree.Replaces c rep s'.tree ∧
      (s.tree.kind c).IsReplaceable ∧
      ∀ d ∈ rep.takenOver s.tree c, c < d ∧ s.tree.Below c d := by
  cases h with
  | idle _ hs => exact .inl (by rw [hs])
  | bare _ hb => exact .inl (by rw [hb.state])
  | @rewrite r rep u hr hhandles _ hdraw hform hreplaces _ =>
    exact .inr ⟨id, rep, lt_size_of_handles hhandles, hreplaces, .inr ⟨r, hr, hhandles⟩,
      hform.below hw⟩
  | @body number body rep u hhandles hb hreplaces _ =>
    have hchild := SyntaxTree.child?_mem hb.child
    refine .inr ⟨body, rep, (hw.child hchild).2.1, hreplaces, .inl ?_, ?_⟩
    · refine hw.block ?_ hb.child
      simpa [Kind.IsPlainFunction, Rule.handles] using hhandles
    · intro d hd
      have hmem := hb.form.takenOver d hd
      exact ⟨(hw.child hmem).1, .of_mem hmem⟩

theorem VisitForm.fixed (h : VisitForm P rules s id s') : Fixed s s' := by
  cases h with
  | idle _ hs =>
    rw [hs]
    exact ⟨.refl _, rfl, rfl, rfl, rfl, rfl, rfl⟩
  | bare _ hb =>
    rw [hb.state]
    exact ⟨.refl _, rfl, rfl, rfl, rfl, rfl, rfl⟩
  | rewrite _ _ _ hdraw _ hreplaces hs =>
    rw [hs, hdraw.same]
    exact ⟨hreplaces.shape, rfl, rfl, rfl, rfl, rfl, rfl⟩
  | body _ hb hreplaces hs =>
    rw [hs, hb.state]
    exact ⟨hreplaces.shape, rfl, rfl, rfl, rfl, rfl, rfl⟩

theorem hostsIn_true (s : Instrumentation) (id : NodeId) : HostsIn (fun _ => True) s id :=
  ⟨trivial, fun _ => trivial, fun _ => trivial⟩

namespace Visited

theorem fixed (h : Visited s₀ s) : Fixed s₀ s := by
  induction h with
  | start => exact .refl _
  | visit _ hv ih => exact ih.trans (visit_ok hv (hostsIn_true _ _)).fixed

theorem wellFormed (hw : s₀.tree.WellFormed) (h : Visited s₀ s) : s.tree.WellFormed :=
  h.fixed.shape.wellFormed hw

theorem tree_induction {Q : SyntaxTree → Prop} (hw : s₀.tree.WellFormed) (hQ : Q s₀.tree)
    (hstep : ∀ {t t' : SyntaxTree} {c rep}, Q t → t.WellFormed → c < t.size → t.Replaces c rep t' →
      (t.kind c).IsReplaceable → (∀ d ∈ rep.takenOver t c, c < d ∧ t.Below c d) → Q t')
    (h : Visited s₀ s) : Q s.tree := by
  induction h with
  | start => exact hQ
  | visit hs hv ih =>
    have hform := visit_ok hv (hostsIn_true _ _)
    rcases hform.tree (hs.wellFormed hw) with e | ⟨c, rep, hc, hreplaces, hkind, htaken⟩
    · exact e ▸ ih
    · exact hstep ih (hs.wellFormed hw) hc hreplaces hkind htaken

theorem takesFromBelow (hw : s₀.tree.WellFormed) (hfresh : s₀.tree.IsFresh) (h : Visited s₀ s) :
    s.tree.TakesFromBelow := by
  refine h.tree_induction hw (fun id c hc => ?_) fun ht _ hc hreplaces _ hbelow =>
    hreplaces.takesFromBelow hc ht hbelow
  rw [SyntaxTree.takenOver_of_none (hfresh id)] at hc
  exact ⟨(hw.child hc).1, .of_mem hc⟩

theorem keepsForms (hw : s₀.tree.WellFormed) (hfresh : s₀.tree.IsFresh) (h : Visited s₀ s) :
    s.tree.KeepsForms :=
  h.tree_induction hw (fun id _ => hfresh id) fun ht _ _ hreplaces hkind _ =>
    hreplaces.keepsForms hkind ht

end Visited

end CoercionTrace
