import CoercionTrace.Proofs.Instrument.Success
import CoercionTrace.Proofs.Instrument.Suppressed
import CoercionTrace.Proofs.Instrument.Terminated
import CoercionTrace.Proofs.Syntax.Regions

/-!
# Opaque regions pass through

A visit replaces a construct by what shows the same regions, whichever way its operands are taken
over (`Rewrites.regions`, `BodyForm.regions`), so every text of an instrumented program shows the
regions that it showed before. Main statement: no node in a region is replaced, and every region
that is in no other stands in the output as in the program, once, in its place
(`instrumentation_passesThrough`).
-/

namespace CoercionTrace

open Instrumentation InstrumentM

section

variable {t t' : SyntaxTree} {p : NodeId → Bool} {rep : Replacement} {r : Rule} {id c o : NodeId}
  {nodes : List NodeId}

theorem SyntaxTree.Replaces.shown (h : t.Replaces c rep t') (hw : t.WellFormed)
    (ht : t.TakesFromBelow) (hc : c < t.size)
    (hbelow : ∀ d ∈ rep.takenOver t c, c < d ∧ t.Below c d)
    (hrep : p c = false → (rep.takenOver t c).flatMap (t.shown p) = t.shown p c)
    (hid : id < t.size) : t'.shown p id = t.shown p id := by
  have hw' := h.shape.wellFormed hw
  have ht' := h.takesFromBelow hc ht hbelow
  induction hn : t.size - id using Nat.strong_induction_on generalizing id with
  | _ n ih =>
    have hlower : ∀ {d}, id < d → t.Below id d → t'.shown p d = t.shown p d := by
      intro d hlt hbelow
      have hd := hw.lt_size_of_below hbelow hid
      exact ih (t.size - d) (hn ▸ Nat.sub_lt_sub_left hid hlt) hd rfl
    rw [SyntaxTree.shown_eq hw' ht' (h.shape.size ▸ hid)]
    by_cases hself : p id = true
    · rw [if_pos hself, SyntaxTree.shown_of_pos hw ht hid hself]
    · rw [if_neg hself]
      by_cases hidc : id = c
      · subst hidc
        rw [SyntaxTree.takenOver_of_some (h.at_ hc), h.shape.takenOver,
          ← hrep (Bool.eq_false_iff.2 hself)]
        exact List.flatMap_congr fun d hd => hlower (hbelow d hd).1 (hbelow d hd).2
      · rw [h.takenOver_elsewhere hidc, SyntaxTree.shown_eq hw ht hid, if_neg hself]
        exact List.flatMap_congr fun d hd => hlower (ht id d hd).1 (ht id d hd).2

theorem shown_between (hw : t.WellFormed) {start cut stop : Nat}
    (h : ∀ d ∈ t.children id, (start ≤ (t.node d).start ∧ (t.node d).stop ≤ cut) ∨
      (cut ≤ (t.node d).start ∧ (t.node d).stop ≤ stop) ∨ t.shown p d = []) :
    (t.childrenBetween id start cut ++ t.childrenBetween id cut stop).flatMap (t.shown p) =
      (t.children id).flatMap (t.shown p) := by
  rw [SyntaxTree.between_append hw]
  refine flatMap_filter_eq fun d hd hnot => ?_
  have hnot := of_decide_eq_false hnot
  have := h d hd
  tauto

section

variable (hw : t.WellFormed) (ht : t.TakesFromBelow) (hf : t.KeepsForms) (hc : t.Composed)
include hw ht hf hc

theorem OperandTaken.regions (ho : o < t.size) (h : OperandTaken t o nodes) :
    nodes.flatMap (t.shown t.isOpaque) = t.shown t.isOpaque o := by
  cases h with
  | inert hi => rw [hc.shown_inert hw ht hf ho hi, List.flatMap_nil]
  | pieces => exact hc.shown_pieces hw ht hf ho
  | whole => rw [List.flatMap_singleton]

theorem Takes.regions {operands : List NodeId} (hsize : ∀ o ∈ operands, o < t.size)
    (h : Takes t operands nodes) :
    nodes.flatMap (t.shown t.isOpaque) = operands.flatMap (t.shown t.isOpaque) := by
  obtain ⟨front, back, rfl, rfl, htaken, hsublist, hback⟩ := h
  have hfront : (front.flatMap Prod.snd).flatMap (t.shown t.isOpaque) =
      (front.map Prod.fst).flatMap (t.shown t.isOpaque) := by
    rw [List.flatMap_assoc, List.flatMap_map]
    refine List.flatMap_congr fun x hx => ?_
    exact (htaken x (List.mem_append_left _ hx)).regions hw ht hf hc
      (hsize _ (List.mem_map_of_mem hx))
  have hnone : (back.flatMap Prod.snd).flatMap (t.shown t.isOpaque) = [] := by
    rw [List.flatMap_assoc]
    refine List.flatMap_eq_nil_iff.2 fun x hx => ?_
    have hx' := hsize _ (hsublist.subset (List.mem_map_of_mem hx))
    rw [(htaken x (List.mem_append_right _ hx)).regions hw ht hf hc hx']
    exact hc.shown_inert hw ht hf hx' (hback x hx).1
  rw [List.flatMap_append, hfront, hnone, List.append_nil]

end

end

section

variable {s : Instrumentation} {drawn : String → Prop} {rep : Replacement} {r : Rule} {id : NodeId}
  (hw : s.tree.WellFormed) (ht : s.tree.TakesFromBelow) (hc : s.tree.Composed)
include hw ht

theorem BodyForm.regions {number : ScopeId} {body : NodeId}
    (hblock : s.tree.kind body = .statementBlock)
    (h : BodyForm s id number body (some ⟨body, rep⟩)) :
    (rep.takenOver s.tree body).flatMap (s.tree.shown s.tree.isOpaque) =
      (s.tree.children body).flatMap (s.tree.shown s.tree.isOpaque) := by
  have htaken : rep.takenOver s.tree body =
      s.tree.childrenBetween body (s.tree.bodyStart body) (s.tree.bodyCut body) ++
        s.tree.childrenBetween body (s.tree.bodyCut body) (s.tree.bodyStop body) := by
    cases h with
    | framed => exact Replacement.takenOver_framedBody (spliced_enterCall s id _) rfl
    | host => exact Replacement.takenOver_hostBody _ _ _
  rw [htaken]
  refine shown_between hw fun c hmem => ?_
  obtain ⟨hstart, hstop⟩ := hw.closes hblock hmem
  rcases hw.bodyCut_between hblock hmem with hcut | hcut
  · exact .inl ⟨hstart, hcut⟩
  · rcases hstop with hstop | hleaf
    · exact .inr (.inl ⟨hcut, Nat.le_sub_one_of_lt hstop⟩)
    · -- Behind the brace stand comments.
      have hplain : s.tree.isOpaque c = false := by
        obtain ⟨-, hleaf⟩ := hleaf
        simp only [List.mem_cons, List.not_mem_nil, or_false] at hleaf
        rcases hleaf with e | e | e <;> simp [SyntaxTree.isOpaque, e]
      exact .inr (.inr (SyntaxTree.IsToken.shown ht ⟨hleaf.1, hplain⟩))

include hc

theorem shown_two {f g : String} {a b : NodeId} (hfg : (f, g) ∈ SyntaxTree.fieldOrder)
    (ha : s.tree.child? id f = some a) (hb : s.tree.child? id g = some b)
    (hcomponents : s.tree.components id =
      (s.tree.child? id f).toList ++ (s.tree.child? id g).toList) :
    [a, b].flatMap (s.tree.shown s.tree.isOpaque) =
      (s.tree.children id).flatMap (s.tree.shown s.tree.isOpaque) := by
  refine hc.shown_children hw ht (List.pairwise_pair.2 (hw.fields hfg ha hb)) ?_ ?_
  · simpa using ⟨SyntaxTree.child?_mem ha, SyntaxTree.child?_mem hb⟩
  · intro c _ hnot hcomponent
    rw [hcomponents, ha, hb] at hcomponent
    exact absurd hcomponent hnot

theorem Rewrites.operands_regions (harguments : ∀ a, s.tree.kind a = .arguments →
      (s.tree.node a).replacement = none) (hhandles : r.handles (s.tree.kind id) = true)
    (h : Rewrites s drawn id r rep) :
    (∃ leading own trailing, rep = .statement leading own trailing) ∨
      (r.operands s.tree id).flatMap (s.tree.shown s.tree.isOpaque) =
        (s.tree.children id).flatMap (s.tree.shown s.tree.isOpaque) := by
  have hkind : ∀ {kind : Kind}, (s.tree.kind id == kind) = true → s.tree.kind id = kind :=
    fun h => beq_iff_eq.1 h
  cases h with
  | terminator => exact .inl ⟨_, _, _, rfl⟩
  | unreturned => exact .inl ⟨_, _, _, rfl⟩
  | membership _ hleft hright | binary _ _ hleft hright | assignment hleft hright
  | compound hleft hright =>
    refine .inr ?_
    rw [Rule.operands, hleft, hright]
    refine shown_two hw ht hc (by decide) hleft hright ?_
    rw [SyntaxTree.components, hkind hhandles]
  | @declarator name init _ _ hname hinit hidentifier =>
    refine .inr ?_
    rw [Rule.operands, hinit]
    refine hc.shown_children hw ht (List.pairwise_singleton _ _)
      (by simpa using SyntaxTree.child?_mem hinit) fun c _ hnot hcomponent => ?_
    rw [SyntaxTree.components, hkind hhandles] at hcomponent
    simp only [hname, hinit, Option.toList_some, List.mem_append, List.mem_singleton] at hcomponent
    rcases hcomponent with rfl | rfl
    · exact hc.shown_atom ht (by rw [hidentifier]; rfl)
    · simp at hnot
  | @returned argument _ hargument =>
    refine .inr ?_
    rw [Rule.operands, hargument]
    have hmem := SyntaxTree.mem_of_significant (List.mem_of_head? hargument)
    refine hc.shown_children hw ht (List.pairwise_singleton _ _) (by simpa using hmem)
      fun c _ hnot hcomponent => ?_
    rw [SyntaxTree.components, hkind hhandles] at hcomponent
    simp only [hargument] at hcomponent
    exact absurd hcomponent hnot
  | @call callee arguments _ _ _ hcallee hargs hlist =>
    refine .inr ?_
    have hplain : s.tree.isOpaque arguments = false := by simp [SyntaxTree.isOpaque, hlist]
    have hpassed : (s.tree.significantChildren arguments).flatMap
        (s.tree.shown s.tree.isOpaque) = s.tree.shown s.tree.isOpaque arguments := by
      rw [hc.shown_significant ht, SyntaxTree.shown_eq hw ht (hw.child (SyntaxTree.child?_mem hargs)).2.1,
        hplain, SyntaxTree.takenOver_of_none (harguments _ hlist)]
      rfl
    have hcall : s.tree.components id = (s.tree.child? id "function").toList ++
        (s.tree.child? id "arguments").toList := by
      rw [SyntaxTree.components, hkind hhandles]
    rw [← shown_two hw ht hc (by decide) hcallee hargs hcall, Rule.operands, hcallee, hargs,
      List.flatMap_append, Option.map_some, Option.getD_some, hpassed]
    simp

theorem Rewrites.regions (hf : s.tree.KeepsForms) (harguments : ∀ a, s.tree.kind a = .arguments →
      (s.tree.node a).replacement = none) (hhandles : r.handles (s.tree.kind id) = true)
    (h : Rewrites s drawn id r rep) :
    (rep.takenOver s.tree id).flatMap (s.tree.shown s.tree.isOpaque) =
      (s.tree.children id).flatMap (s.tree.shown s.tree.isOpaque) := by
  rcases h.operands_regions hw ht hc harguments hhandles with ⟨_, _, _, rfl⟩ | hoperands
  · rw [Replacement.takenOver_statement]
  · rcases h.taken with ⟨-, _, _, rfl⟩ | htakes
    · rw [Replacement.takenOver_statement]
    · have hsize : ∀ o ∈ r.operands s.tree id, o < s.tree.size := fun o ho =>
        hw.lt_size_of_below (below_of_operand hw ho).2 (lt_size_of_handles hhandles)
      rw [htakes.regions hw ht hf hc hsize, hoperands]

end

variable {s₀ s s' : Instrumentation} {rules : List Rule} {done : List NodeId} {a d id : NodeId}
  {rep : Replacement} {t : SyntaxTree} {linkage : String}

theorem isPassthrough_of_isOpaque (hf : s.scopes.Fits s.tree) (h : s.tree.isOpaque a = true) :
    isPassthrough s.tree s.scopes a = true := by
  unfold isPassthrough
  dsimp only
  split
  · rfl
  · next hkind =>
    have hopens : (s.tree.kind a).isFunctionLike = true ∧ s.tree.scopeKind a = .passthrough := by
      unfold SyntaxTree.isOpaque at h
      rw [SyntaxTree.scopeKind]
      split at h <;> simp_all [Kind.isFunctionLike]
    rw [if_pos hopens.1]
    cases hk : s.scopes.scopeOf? a with
    | none => rfl
    | some k => simp [(hf.scope hk).2.2.2, hopens.2]

theorem isOpaque_of_handles {r : Rule} (hr : r ≠ .body) (h : r.handles (s.tree.kind a) = true) :
    s.tree.isOpaque a = false := by
  unfold SyntaxTree.isOpaque
  split
  all_goals first
    | rfl
    | next hk =>
      rw [hk] at h
      cases r <;> first | exact absurd rfl hr | cases h

theorem Passed.arguments_bare (hw : s₀.tree.WellFormed) (h : Passed s₀ done s)
    (ha : s.tree.kind a = .arguments) : (s.tree.node a).replacement = none := by
  rw [h.visited.fixed.shape.kind] at ha
  refine h.bare_of_kind hw ?_
  rw [ha]
  rintro (e | ⟨r, -, hhandles⟩)
  · cases e
  · cases r <;> cases hhandles

def KeepsRegions (t₀ t : SyntaxTree) : Prop :=
  ∀ id < t₀.size, t.shown t₀.isOpaque id = t₀.regions id

theorem Passed.keepsRegions (hw : s₀.tree.WellFormed) (hfresh : s₀.tree.IsFresh)
    (hc : s₀.tree.Composed) (h : Passed s₀ done s) (hv : Yields (InstrumentM.visit rules id) s () s')
    (hkeeps : KeepsRegions s₀.tree s.tree) : KeepsRegions s₀.tree s'.tree := by
  have hfixed := h.visited.fixed
  have hws := h.visited.wellFormed hw
  have hcs := hfixed.shape.composed hc
  have hts := h.visited.takesFromBelow hw hfresh
  have hfs := h.visited.keepsForms hw hfresh
  have hsame := hfixed.shape.isOpaque
  have hreplaces : ∀ {c rep}, s.tree.Replaces c rep s'.tree → c < s.tree.size →
      s.tree.isOpaque c = false → (∀ d ∈ rep.takenOver s.tree c, c < d ∧ s.tree.Below c d) →
      (rep.takenOver s.tree c).flatMap (s.tree.shown s.tree.isOpaque) =
        (s.tree.children c).flatMap (s.tree.shown s.tree.isOpaque) →
      KeepsRegions s₀.tree s'.tree := by
    intro c rep hr hsize hplain hbelow hrep i hi
    rw [← hkeeps i hi, ← hsame]
    refine hr.shown hws hts hsize hbelow (fun hself => ?_) (hfixed.shape.size ▸ hi)
    rw [hrep, SyntaxTree.shown_eq hws hts hsize, hself, SyntaxTree.takenOver_of_none hr.before]
    rfl
  cases visit_ok hv (hostsIn_true s id) with
  | idle _ hs =>
    rw [hs]
    exact hkeeps
  | bare _ hb =>
    rw [hb.state]
    exact hkeeps
  | rewrite hr hhandles _ _ hform hreplace _ =>
    refine hreplaces hreplace (lt_size_of_handles hhandles) (isOpaque_of_handles hr hhandles)
      (hform.below hws) ?_
    exact hform.regions hws hts hcs hfs (fun _ ha => h.arguments_bare hw ha) hhandles
  | @body number body rep u hhandles hb hreplace _ =>
    have hmem := SyntaxTree.child?_mem hb.child
    have hplain : (s.tree.kind id).IsPlainFunction := by
      simpa [Kind.IsPlainFunction, Rule.handles] using hhandles
    have hblock := hws.block hplain hb.child
    refine hreplaces hreplace (hws.child hmem).2.1 (by simp [SyntaxTree.isOpaque, hblock])
      (fun d hd => ?_) (hb.form.regions hws hts hblock)
    have hchild := hb.form.takenOver d hd
    exact ⟨(hws.child hchild).1, .of_mem hchild⟩

theorem pass_keepsRegions (hw : s₀.tree.WellFormed) (hfresh : s₀.tree.IsFresh)
    (hc : s₀.tree.Composed) (h : Yields (pass rules) s₀ () s) : KeepsRegions s₀.tree s.tree := by
  have hstart : KeepsRegions s₀.tree s₀.tree := fun id _ => SyntaxTree.shown_of_fresh hfresh id
  refine (visitAll_induction (Q := fun done u => Passed s₀ done u ∧ KeepsRegions s₀.tree u.tree)
    ⟨.start hfresh, hstart⟩ ?_ (Yields.get_bind_iff.1 h)).2
  rintro done id rest u u' hagenda ⟨hpassed, hkeeps⟩ hv
  exact ⟨hpassed.visit hw hfresh (not_below_of_agenda hw hagenda) hv,
    hpassed.keepsRegions hw hfresh hc hv hkeeps⟩

theorem Finished.keepsRegions (hw : s₀.tree.WellFormed) (hfresh : s₀.tree.IsFresh)
    (hp : Passed s₀ done s) (hkeeps : KeepsRegions s₀.tree s.tree) (h : Finished s linkage t) :
    KeepsRegions s₀.tree t := by
  have hws := hp.visited.wellFormed hw
  have hts := hp.visited.takesFromBelow hw hfresh
  cases h with
  | bare => exact hkeeps
  | headed _ hr =>
    intro i hi
    rw [← hkeeps i hi]
    refine hr.shown hws hts hws.root_lt (fun d hd => ?_) (fun hself => ?_)
      (hp.visited.fixed.shape.size ▸ hi)
    · rw [Replacement.takenOver_program] at hd
      have hchild := SyntaxTree.mem_of_between hd
      exact ⟨(hws.child hchild).1, .of_mem hchild⟩
    · rw [Replacement.takenOver_program, SyntaxTree.shown_eq hws hts hws.root_lt, hself,
        SyntaxTree.takenOver_of_none hr.before]
      refine shown_between hws fun c hmem => ?_
      rcases hws.insertionPoint_between hmem with hcut | hcut
      · exact .inl ⟨(hws.nested hmem).1, hcut⟩
      · exact .inr (.inl ⟨hcut, (hws.nested hmem).2⟩)

theorem Passed.bare_of_isOpaque (hw : s₀.tree.WellFormed) (hf : s₀.scopes.Fits s₀.tree)
    (h : Passed s₀ s₀.agenda s) (ha : s₀.tree.isOpaque a = true) (hd : s₀.tree.Below a d) :
    (s.tree.node d).replacement = none := by
  have hskipped := isPassthrough_of_isOpaque hf ha
  refine h.bare_of_notMem hw (fun hk => ?_) (fun hagenda => ?_) hd
  · simp [SyntaxTree.isOpaque, hk] at ha
  · rw [clear_of_agenda hw hagenda .refl] at hskipped
    cases hskipped

structure PassesThrough (t₀ t : SyntaxTree) : Prop where
  bare : ∀ {a d}, t₀.isOpaque a = true → t₀.Below a d → (t.node d).replacement = none
  verbatim : ∀ {a}, t₀.isOpaque a = true → t₀.Below SyntaxTree.root a → t.text a = t₀.rawSource a
  render : t.render = slice t₀.source 0 (t₀.node SyntaxTree.root).start ++
    printParts t₀.rawSource (t.fragments t₀.isOpaque SyntaxTree.root) ++
      slice t₀.source (t₀.node SyntaxTree.root).stop (SyntaxTree.byteLength t₀.source)
  text : ∀ {d}, t₀.Below SyntaxTree.root d →
    t.text d = printParts t₀.rawSource (t.fragments t₀.isOpaque d)
  /-- What is generated around a region stands around the text that it is in. -/
  place : ∀ {d}, t₀.Below SyntaxTree.root d → t₀.isOpaque d = false →
    t.fragments t₀.isOpaque d = (t.parts d).flatMap (Part.refine (t.fragments t₀.isOpaque))
  regions : ∀ {d}, t₀.Below SyntaxTree.root d →
    nodesOf (t.fragments t₀.isOpaque d) = t₀.regions d
  once : ∀ {a d}, t₀.Below SyntaxTree.root d → t₀.IsRegion d a →
    (nodesOf (t.fragments t₀.isOpaque d)).count a = 1
  ordered : ∀ {d}, t₀.Below SyntaxTree.root d →
    (nodesOf (t.fragments t₀.isOpaque d)).Pairwise t₀.Before

theorem PassesThrough.of_keepsRegions {t₀ : SyntaxTree} (hw : t₀.WellFormed)
    (hshape : t₀.SameShape t) (ht : t.TakesFromBelow) (hs : t.Settled)
    (hbare : ∀ {a d}, t₀.isOpaque a = true → t₀.Below a d → (t.node d).replacement = none)
    (hkeeps : KeepsRegions t₀ t) : PassesThrough t₀ t := by
  have hwt := hshape.wellFormed hw
  have hsize : ∀ {d}, t₀.Below SyntaxTree.root d → d < t₀.size ∧ d < t.size := by
    intro d hd
    have hlt := hw.lt_size_of_below hd hw.root_lt
    exact ⟨hlt, hshape.size ▸ hlt⟩
  have hverbatim : ∀ {a}, t₀.isOpaque a = true → t₀.Below SyntaxTree.root a →
      t.text a = t₀.rawSource a := by
    intro a ha hroot
    rw [SyntaxTree.text_of_bare hwt (hsize hroot).2 fun d hd => hbare ha (hshape.symm.below hd),
      hshape.rawSource]
  have hregions : ∀ {d}, t₀.Below SyntaxTree.root d →
      nodesOf (t.fragments t₀.isOpaque d) = t₀.regions d := by
    intro d hd
    rw [SyntaxTree.nodesOf_fragments, hkeeps d (hsize hd).1]
  have htext : ∀ {d}, t₀.Below SyntaxTree.root d →
      t.text d = printParts t₀.rawSource (t.fragments t₀.isOpaque d) := by
    intro d hd
    rw [← SyntaxTree.print_fragments hwt ht hs (hsize hd).2]
    refine printParts_congr fun c hc => ?_
    rw [hregions hd, SyntaxTree.mem_regions hw (hsize hd).1] at hc
    exact hverbatim hc.isOpaque (hd.trans hc.below)
  refine { bare := hbare, verbatim := hverbatim, render := ?_, text := htext, place := ?_,
           regions := hregions, once := ?_, ordered := ?_ }
  · rw [SyntaxTree.render, htext .refl, hshape.source, hshape.start, hshape.stop]
  · intro d hd hplain
    rw [SyntaxTree.fragments_eq hwt ht (hsize hd).2, hplain]
    rfl
  · intro a d hd ha
    rw [hregions hd]
    refine List.count_eq_one_of_mem ?_ ((SyntaxTree.mem_regions hw (hsize hd).1).2 ha)
    exact SyntaxTree.regions_nodup hw d
  · intro d hd
    rw [hregions hd]
    exact SyntaxTree.regions_before hw d

theorem instrumentation_passesThrough {tree : SyntaxTree} {scopes : ScopeTable}
    {suppression : Suppression} {hook file : String} (hw : tree.WellFormed) (hfresh : tree.IsFresh)
    (hc : tree.Composed) (hscopes : ScopeTable.analyze tree = .ok scopes)
    (hpass : Yields (pass rules) (.start tree scopes suppression hook file) () s) :
    PassesThrough tree s.tree ∧
      ∀ linkage s', Yields (finish linkage) s () s' → PassesThrough tree s'.tree := by
  obtain ⟨htree, hscopes', -, -⟩ := start_same tree scopes suppression hook file
  generalize Instrumentation.start tree scopes suppression hook file = s₀ at *
  have hf : s₀.scopes.Fits s₀.tree := by
    rw [htree, hscopes']
    exact ScopeTable.analyze_fits hscopes
  subst htree
  have hp := pass_passed hw hfresh hpass
  have hkeeps := pass_keepsRegions hw hfresh hc hpass
  have hws := hp.visited.wellFormed hw
  have hts := hp.visited.takesFromBelow hw hfresh
  have hbare : ∀ {a d}, s₀.tree.isOpaque a = true → s₀.tree.Below a d →
      (s.tree.node d).replacement = none := fun ha hd => hp.bare_of_isOpaque hw hf ha hd
  refine ⟨.of_keepsRegions hw hp.visited.fixed.shape hts hp.settled hbare hkeeps, ?_⟩
  intro linkage s' hfinish
  have hfinished := (finish_ok hfinish).1
  refine .of_keepsRegions hw (hp.visited.fixed.shape.trans hfinished.shape)
    (hfinished.takesFromBelow hws hts) (hfinished.settled hws hts hp.settled) ?_
    (hfinished.keepsRegions hw hfresh hp hkeeps)
  intro a d ha hd
  rw [hfinished.elsewhere, hbare ha hd]
  rintro rfl
  -- The root is in no region.
  obtain rfl : a = SyntaxTree.root := Nat.le_zero.1 (hw.le_of_below hd)
  simp [SyntaxTree.isOpaque, hw.program] at ha

/-- The program `f(x => function () { return x * 2; }, class {}.m) * 3;` and `g(() => 1 * 2);` in the
next row. -/
def opaqueArguments : SyntaxTree :=
  let number (start : Nat) (field : String) : Concrete :=
    .named "number" start (start + 1) (some field) []
  let product (start : Nat) (left : String) (field : Option String) : Concrete :=
    .named "binary_expression" start (start + 5) field [
      .named left start (start + 1) (some "left") [],
      .mark "*" (start + 2) (start + 3) (some "operator"),
      number (start + 4) "right"]
  .ofConcrete
    ("f(x => function () \x7b return x * 2; \x7d, class \x7b\x7d.m) * 3;\n" ++
      "g(() => 1 * 2);").toList
    (.named "program" 0 70 none [
      .named "expression_statement" 0 54 none [
        .named "binary_expression" 0 53 none [
          .named "call_expression" 0 49 (some "left") [
            .named "identifier" 0 1 (some "function") [],
            .named "arguments" 1 49 (some "arguments") [
              .named "arrow_function" 2 36 none [
                .named "identifier" 2 3 (some "parameter") [],
                .named "function_expression" 7 36 (some "body") [
                  .named "formal_parameters" 16 18 (some "parameters") [],
                  .named "statement_block" 19 36 (some "body") [
                    .named "return_statement" 21 34 none [product 28 "identifier" none]]]],
              .named "member_expression" 38 48 none [
                .named "class" 38 46 (some "object") [.named "class_body" 44 46 (some "body") []],
                .named "property_identifier" 47 48 (some "property") []]]],
          .mark "*" 50 51 (some "operator"),
          number 52 "right"]],
      .named "expression_statement" 55 70 none [
        .named "call_expression" 55 69 none [
          .named "identifier" 55 56 (some "function") [],
          .named "arguments" 56 69 (some "arguments") [
            .named "arrow_function" 57 68 none [
              .named "formal_parameters" 57 59 (some "parameters") [],
              product 63 "number" (some "body")]]]]])

-- The second row is suppressed.
theorem instrumentation_passesThrough_opaqueArguments :
    opaqueArguments.WellFormed ∧ opaqueArguments.IsFresh ∧ opaqueArguments.Composed ∧
      opaqueArguments.regions SyntaxTree.root = [6, 16, 24] ∧ ∃ scopes s s',
        ScopeTable.analyze opaqueArguments = .ok scopes ∧
        Yields (pass Rule.all) (.start opaqueArguments scopes ⟨[false, true]⟩ "__rt" "t.js") () s ∧
        Yields (finish "") s () s' ∧ PassesThrough opaqueArguments s.tree ∧
        PassesThrough opaqueArguments s'.tree := by
  have hw : opaqueArguments.WellFormed := by decide +kernel
  have hfresh : opaqueArguments.IsFresh := SyntaxTree.isFresh_ofConcrete _ _
  have hc : opaqueArguments.Composed := by decide +kernel
  have hregions : opaqueArguments.regions SyntaxTree.root = [6, 16, 24] := by decide +kernel
  obtain ⟨scopes, hscopes⟩ := ScopeTable.analyze_succeeds opaqueArguments
  obtain ⟨s, s', hpass, hfinish⟩ := run_succeeds hw hfresh (by decide +kernel) hscopes
    ⟨[false, true]⟩ "__rt" "t.js" "" Rule.all (by decide +kernel)
  obtain ⟨hafter, hfinished⟩ := instrumentation_passesThrough hw hfresh hc hscopes hpass
  exact ⟨hw, hfresh, hc, hregions, scopes, s, s', hscopes, hpass, hfinish, hafter,
    hfinished _ _ hfinish⟩

end CoercionTrace
