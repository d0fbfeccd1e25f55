import CoercionTrace.Proofs.Instrument.Hosts
import CoercionTrace.Proofs.Syntax.Output

/-!
# No text is shown twice

Main statement: however far a pass has come, a text is made of the texts of nodes that have nothing
in common, and nothing that declares a name stands between it and them (`Passed.takesOnce`,
`Passed.declares_nothing`).
-/

namespace CoercionTrace

open Instrumentation InstrumentM

namespace SyntaxTree

variable {t t' : SyntaxTree} {a b c d id p : NodeId} {rep : Replacement}

theorem Separate.symm (h : t.Separate a b) : t.Separate b a := fun c hb ha => h c ha hb

instance : Std.Symm t.Separate := ⟨fun _ _ => Separate.symm⟩

theorem Separate.below {a' b' : NodeId} (h : t.Separate a b) (ha : t.Below a a') (hb : t.Below b b') :
    t.Separate a' b' :=
  fun c hac hbc => h c (ha.trans hac) (hb.trans hbc)

theorem separate_of_children (hw : t.WellFormed) (ha : a ∈ t.children p) (hb : b ∈ t.children p)
    (hne : a ≠ b) : t.Separate a b :=
  fun _ hac hbc => hne (hw.child_unique ha hb hac hbc)

theorem children_separate (hw : t.WellFormed) {nodes : List NodeId} (hn : nodes.Nodup)
    (h : ∀ c ∈ nodes, c ∈ t.children p) : nodes.Pairwise t.Separate :=
  hn.imp_of_mem fun ha hb hne => separate_of_children hw (h _ ha) (h _ hb) hne

theorem childrenBetween_nodup (hw : t.WellFormed) {start cut stop : Nat} :
    (t.childrenBetween p start cut ++ t.childrenBetween p cut stop).Nodup := by
  refine List.nodup_append.2 ⟨(hw.children_nodup p).filter _, (hw.children_nodup p).filter _, ?_⟩
  rintro a ha b hb rfl
  obtain ⟨hmem, ha⟩ := List.mem_filter.1 ha
  simp only [Bool.and_eq_true, decide_eq_true_eq] at ha
  have hcut := (List.mem_filter.1 hb).2
  simp only [Bool.and_eq_true, decide_eq_true_eq] at hcut
  exact Nat.not_lt_of_le (Nat.le_trans ha.2 hcut.1) (hw.proper hmem)

structure TakenOnce (t : SyntaxTree) (id : NodeId) (nodes : List NodeId) : Prop where
  separate : nodes.Pairwise t.Separate
  path : ∀ c ∈ nodes, t.Path id c

theorem TakenOnce.of_children (hw : t.WellFormed) {nodes : List NodeId} (hn : nodes.Nodup)
    (h : ∀ c ∈ nodes, c ∈ t.children id) : t.TakenOnce id nodes :=
  ⟨children_separate hw hn h, fun c hc => .of_mem (h c hc)⟩

def TakesOnce (t : SyntaxTree) : Prop := ∀ id, t.TakenOnce id (t.takenOver id)

theorem Path.passing (hw : t.WellFormed) (h : t.Path id c) (hb : t.Below id b) (hbc : t.Below b c)
    (hid : b ≠ id) (hne : b ≠ c) : t.kind b ∈ passing := by
  induction h with
  | refl => exact absurd (hw.below_antisymm hbc hb) hid
  | @child p c _ hkind hc ih =>
    rcases hbc.eq_or_mem with e | ⟨q, hq, hbq⟩
    · exact absurd e.symm hne
    · obtain rfl := hw.parent_unique hc hq
      by_cases hbp : b = p
      · subst hbp
        exact hkind.resolve_left hid
      · exact ih hbq hbp

namespace SameShape

theorem path (h : t.SameShape t') (hp : t.Path id c) : t'.Path id c := by
  induction hp with
  | refl => exact .refl
  | child _ hkind hc ih => exact .child ih (by rwa [h.kind]) (by rwa [h.children])

theorem takenOnce {nodes : List NodeId} (h : t.SameShape t') (ht : t.TakenOnce id nodes) :
    t'.TakenOnce id nodes where
  separate := ht.separate.imp fun hs c ha hb => hs c (h.symm.below ha) (h.symm.below hb)
  path c hc := h.path (ht.path c hc)

end SameShape

theorem Replaces.takesOnce (h : t.Replaces c rep t') (hc : c < t.size) (ht : t.TakesOnce)
    (hrep : t.TakenOnce c (rep.takenOver t c)) : t'.TakesOnce := by
  intro id
  refine h.shape.takenOnce ?_
  by_cases hid : id = c
  · subst hid
    rw [takenOver_of_some (h.at_ hc), h.shape.takenOver]
    exact hrep
  · rw [h.takenOver_elsewhere hid]
    exact ht id

end SyntaxTree

section

variable {s : Instrumentation} {drawn : String → Prop} {id : NodeId} {r : Rule} {rep : Replacement}
  {t : SyntaxTree}

theorem OperandTaken.separate (hw : t.WellFormed) {o : NodeId} {nodes : List NodeId}
    (h : OperandTaken t o nodes) : nodes.Pairwise t.Separate := by
  cases h with
  | inert => exact .nil
  | whole => exact List.pairwise_singleton _ _
  | pieces =>
    cases hm : t.isPlainMember (t.unwrap o) with
    | true =>
      obtain ⟨hchildren, hsorted⟩ := SyntaxTree.pieces_children hw hm
      exact SyntaxTree.children_separate hw (hsorted.imp Nat.ne_of_lt) hchildren
    | false =>
      rw [SyntaxTree.pieces, hm]
      exact List.pairwise_singleton _ _

theorem operands_separate (hw : t.WellFormed) (r : Rule) :
    (r.operands t id).Pairwise t.Separate := by
  have hfields : ((t.child? id "left").toList ++ (t.child? id "right").toList).Pairwise t.Separate := by
    cases hl : t.child? id "left" with
    | none => cases t.child? id "right" <;> simp
    | some a =>
      cases hr : t.child? id "right" with
      | none => simp
      | some b =>
        have hne := Nat.ne_of_lt (hw.fields (by simp [SyntaxTree.fieldOrder]) hl hr)
        simpa using SyntaxTree.separate_of_children hw (SyntaxTree.child?_mem hl)
          (SyntaxTree.child?_mem hr) hne
  have hone : ∀ o : Option NodeId, o.toList.Pairwise t.Separate := by
    intro o
    cases o <;> simp
  cases r with
  | binary => exact hfields
  | assignment => exact hfields
  | compound => exact hfields
  | declarator => exact hone _
  | returning => exact hone _
  | terminator => exact .nil
  | body => exact .nil
  | call =>
    rw [Rule.operands]
    cases ha : t.child? id "arguments" with
    | none => simp [hone]
    | some arguments =>
      refine List.pairwise_append.2 ⟨hone _, ?_, fun callee hc o ho => ?_⟩
      · exact SyntaxTree.children_separate hw ((hw.children_nodup arguments).filter _)
          fun c hc => SyntaxTree.mem_of_significant hc
      · have hf := Option.mem_toList.1 hc
        have hne := Nat.ne_of_lt (hw.fields (by simp [SyntaxTree.fieldOrder]) hf ha)
        exact (SyntaxTree.separate_of_children hw (SyntaxTree.child?_mem hf)
          (SyntaxTree.child?_mem ha) hne).below .refl (.of_mem (SyntaxTree.mem_of_significant ho))

theorem Takes.separate (hw : t.WellFormed) {operands nodes : List NodeId}
    (hoperands : operands.Pairwise t.Separate) (h : Takes t operands nodes) :
    nodes.Pairwise t.Separate := by
  obtain ⟨front, back, rfl, rfl, htaken, hsublist, hback⟩ := h
  have hbelow : ∀ {x c}, x ∈ front ++ back → c ∈ x.2 → t.Below x.1 c :=
    fun hx hc => (htaken _ hx).below _ hc
  have hflat : ∀ {list : List (NodeId × List NodeId)}, (list.map Prod.fst).Pairwise t.Separate →
      list ⊆ front ++ back → (list.flatMap Prod.snd).Pairwise t.Separate := by
    intro list hlist hsub
    refine List.pairwise_flatMap.2 ⟨fun x hx => (htaken x (hsub hx)).separate hw, ?_⟩
    refine (List.pairwise_map.1 hlist).imp_of_mem fun {x y} hx hy hxy c hc d hd => ?_
    exact hxy.below (hbelow (hsub hx) hc) (hbelow (hsub hy) hd)
  refine List.pairwise_append.2 ⟨hflat hoperands (List.subset_append_left _ _),
    hflat (hoperands.sublist hsublist) (List.subset_append_right _ _), fun c hc d hd => ?_⟩
  obtain ⟨x, hx, hc⟩ := List.mem_flatMap.1 hc
  obtain ⟨y, hy, hd⟩ := List.mem_flatMap.1 hd
  have hempty := (hback y hy).2
  have hnodup : front.Pairwise fun x y => t.Separate x.1 y.1 := List.pairwise_map.1 hoperands
  have hsymm : Std.Symm fun x y : NodeId × List NodeId => t.Separate x.1 y.1 :=
    ⟨fun _ _ => SyntaxTree.Separate.symm⟩
  have hne : x ≠ (y.1, []) := by
    rintro rfl
    cases hc
  have hyd := hbelow (List.mem_append_right _ hy) hd
  exact (hnodup.forall hx hempty hne).below (hbelow (List.mem_append_left _ hx) hc) hyd

theorem Rewrites.takenOnce (hw : s.tree.WellFormed) (h : Rewrites s drawn id r rep) :
    s.tree.TakenOnce id (rep.takenOver s.tree id) := by
  refine ⟨?_, fun c hc => h.path hw hc⟩
  rcases h.taken with ⟨-, _, _, rfl⟩ | htakes
  · rw [Replacement.takenOver_statement]
    exact SyntaxTree.children_separate hw (hw.children_nodup id) fun _ hc => hc
  · exact htakes.separate hw (operands_separate hw r)

theorem BodyForm.takenOnce (hw : s.tree.WellFormed) {number : ScopeId} {body : NodeId}
    (h : BodyForm s id number body (some ⟨body, rep⟩)) :
    s.tree.TakenOnce body (rep.takenOver s.tree body) := by
  refine .of_children hw ?_ h.takenOver
  cases h with
  | framed =>
    rw [Replacement.takenOver_framedBody (spliced_enterCall s id _) rfl]
    exact SyntaxTree.childrenBetween_nodup hw
  | host =>
    rw [Replacement.takenOver_hostBody]
    exact SyntaxTree.childrenBetween_nodup hw

end

variable {s₀ s : Instrumentation} {done : List NodeId} {b c id : NodeId}

theorem Visited.takesOnce (hw : s₀.tree.WellFormed) (hfresh : s₀.tree.IsFresh) (h : Visited s₀ s) :
    s.tree.TakesOnce := by
  induction h with
  | start =>
    intro id
    rw [SyntaxTree.takenOver_of_none (hfresh id)]
    exact .of_children hw (hw.children_nodup id) fun _ hc => hc
  | visit hs hv ih =>
    have hws := hs.wellFormed hw
    cases visit_ok hv (hostsIn_true _ _) with
    | idle _ he => exact he ▸ ih
    | bare _ hb => exact hb.state ▸ ih
    | rewrite _ hhandles _ _ hform hreplaces _ =>
      exact hreplaces.takesOnce (lt_size_of_handles hhandles) ih (hform.takenOnce hws)
    | body _ hb hreplaces _ =>
      exact hreplaces.takesOnce (hws.child (SyntaxTree.child?_mem hb.child)).2.1 ih
        (hb.form.takenOnce hws)

end CoercionTrace
