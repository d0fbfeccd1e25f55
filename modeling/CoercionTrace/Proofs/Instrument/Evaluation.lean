import CoercionTrace.Proofs.Instrument.Current
import CoercionTrace.Proofs.Instrument.Progress

/-!
# Order of evaluation

Instrumentation must not change which code runs, how often, and in which order. The pieces of a
construct are those of its operands. Main statement: a rule that rewrites a construct shows every
piece that may run code once, in source order, and in a compound assignment reads the target between
the two sides (`apply_evaluatesInOrder`).
-/

namespace CoercionTrace

open InstrumentM

def Rule.pieces (t : SyntaxTree) (id : NodeId) (r : Rule) : List NodeId :=
  (r.operands t id).flatMap t.pieces

def SyntaxTree.isLive (t : SyntaxTree) (id : NodeId) : Bool := !t.isInert id

theorem filter_flatMap_congr {α β γ : Type} {p : γ → Bool} {l : List α} {m : α → β} {f : α → List γ}
    {g : β → List γ} (h : ∀ x ∈ l, (f x).filter p = (g (m x)).filter p) :
    (l.flatMap f).filter p = ((l.map m).flatMap g).filter p := by
  rw [List.filter_flatMap, List.filter_flatMap, List.flatMap_map]
  exact List.flatMap_congr h

variable {t t' : SyntaxTree} {s s' s₀ : Instrumentation} {r : Rule} {id o c : NodeId}
  {nodes : List NodeId}

namespace SyntaxTree

theorem WellFormed.proper_of_below (hw : t.WellFormed) (h : t.Below id c) (hlt : id < c) :
    (t.node c).start < (t.node c).stop := by
  rcases h.eq_or_mem with rfl | ⟨p, hp, -⟩
  · exact absurd hlt (Nat.lt_irrefl _)
  · exact hw.proper hp

theorem pieces_before (hw : t.WellFormed) (o : NodeId) : (t.pieces o).Pairwise t.Before := by
  cases hm : t.isPlainMember (t.unwrap o) with
  | false =>
    rw [pieces, hm]
    exact List.pairwise_singleton _ _
  | true =>
    obtain ⟨object, ho, ⟨-, e⟩ | ⟨-, index, hi, e⟩⟩ := pieces_of_member hm
    · rw [e]
      exact List.pairwise_singleton _ _
    · rw [e]
      exact List.pairwise_pair.2 (hw.before_of_fields (by decide) ho hi)

theorem below_of_piece (h : c ∈ t.pieces o) : t.Below o c :=
  (t.below_unwrap o).trans (below_of_mem_pieces h)

end SyntaxTree

theorem Rule.operands_before (hw : t.WellFormed) (r : Rule) (id : NodeId) :
    (r.operands t id).Pairwise t.Before := by
  have hfields : ∀ {f g : String}, (f, g) ∈ SyntaxTree.fieldOrder →
      ((t.child? id f).toList ++ (t.child? id g).toList).Pairwise t.Before := by
    intro f g hfg
    cases hf : t.child? id f with
    | none => cases t.child? id g <;> simp
    | some a => cases hg : t.child? id g with
      | none => simp
      | some b => exact List.pairwise_pair.2 (hw.before_of_fields hfg hf hg)
  have hoption : ∀ x : Option NodeId, x.toList.Pairwise t.Before := by
    intro x
    cases x <;> simp
  cases r with
  | binary => exact hfields (by decide)
  | assignment => exact hfields (by decide)
  | compound => exact hfields (by decide)
  | declarator => exact hoption _
  | returning => exact hoption _
  | call =>
    refine List.pairwise_append.2 ⟨hoption _, ?_, fun a ha b hb => ?_⟩
    · cases t.child? id "arguments" with
      | none => exact List.Pairwise.nil
      | some arguments => exact (hw.children_before arguments).filter _
    · cases harguments : t.child? id "arguments" with
      | none => simp [harguments] at hb
      | some arguments =>
        have hmem : b ∈ t.significantChildren arguments := by simpa [harguments] using hb
        have hbefore := hw.before_of_fields (by decide) (Option.mem_toList.1 ha) harguments
        exact Nat.le_trans hbefore (hw.nested (SyntaxTree.mem_of_significant hmem)).1
  | terminator => exact List.Pairwise.nil
  | body => exact List.Pairwise.nil

theorem Rule.below_of_mem_pieces (hw : t.WellFormed) (h : c ∈ r.pieces t id) :
    id < c ∧ t.Below id c := by
  obtain ⟨o, ho, hc⟩ := List.mem_flatMap.1 h
  obtain ⟨hlt, hbelow⟩ := below_of_operand hw ho
  have hpiece := SyntaxTree.below_of_piece hc
  exact ⟨Nat.lt_of_lt_of_le hlt (hw.le_of_below hpiece), hbelow.trans hpiece⟩

theorem Rule.pieces_before (hw : t.WellFormed) (r : Rule) (id : NodeId) :
    (r.pieces t id).Pairwise t.Before := by
  refine List.pairwise_flatMap.2 ⟨fun o _ => SyntaxTree.pieces_before hw o, ?_⟩
  refine (r.operands_before hw id).imp fun hbefore a ha b hb => ?_
  exact hbefore.of_inside (hw.inside_of_below (SyntaxTree.below_of_piece ha))
    (hw.inside_of_below (SyntaxTree.below_of_piece hb))

theorem Rule.pieces_nodup (hw : t.WellFormed) (r : Rule) (id : NodeId) : (r.pieces t id).Nodup := by
  refine (r.pieces_before hw id).imp_of_mem fun {a b} ha _ hbefore => ?_
  rintro rfl
  obtain ⟨hlt, hbelow⟩ := Rule.below_of_mem_pieces hw ha
  exact Nat.not_lt_of_le hbefore (hw.proper_of_below hbelow hlt)

theorem operand_unique (hw : t.WellFormed) {o' : NodeId} (ho : o ∈ r.operands t id)
    (ho' : o' ∈ r.operands t id) (h : t.Below o c) (h' : t.Below o' c) : o = o' := by
  by_contra hne
  have hapart := ((r.operands_before hw id).imp (S := t.Apart) Or.inl).forall ho ho' hne
  obtain ⟨hlt, hbelow⟩ := below_of_operand hw ho
  refine hapart.not_inside (hw.inside_of_below h) (hw.inside_of_below h') ?_
  exact hw.proper_of_below (hbelow.trans h) (Nat.lt_of_lt_of_le hlt (hw.le_of_below h))

theorem pieces_of_isInert (h : t.isInert o = true) : (t.pieces o).filter t.isLive = [] := by
  have hkind : t.kind (t.unwrap o) ≠ .parenthesizedExpression ∧
      t.isPlainMember (t.unwrap o) = false := by
    refine ⟨fun hk => ?_, Bool.eq_false_iff.2 fun hm => ?_⟩
    · simp [SyntaxTree.isInert, hk, Kind.isConstant] at h
    · rcases SyntaxTree.kind_of_isPlainMember hm with hk | hk <;>
        simp [SyntaxTree.isInert, hk, Kind.isConstant] at h
  have htarget : t.isInert (t.unwrap o) = true := by
    rw [SyntaxTree.isInert, SyntaxTree.unwrap_of_kind hkind.1]
    exact h
  rw [SyntaxTree.pieces, hkind.2]
  simp [SyntaxTree.isLive, htarget]

theorem OperandTaken.shown (hw : t.WellFormed) (ht : t.TakesFromBelow) (hf : t.KeepsForms)
    (ho : o ∈ r.operands t id) (h : OperandTaken t o nodes) :
    (nodes.flatMap (t.shown (· ∈ r.pieces t id))).filter t.isLive =
      (t.pieces o).filter t.isLive := by
  have hmem : ∀ q ∈ t.pieces o, q ∈ r.pieces t id := fun q hq => List.mem_flatMap.2 ⟨o, ho, hq⟩
  have hsize : ∀ {q}, t.Below o q → q < t.size := by
    intro q hq
    obtain ⟨hlt, hbelow⟩ := below_of_operand hw ho
    rcases (hbelow.trans hq).eq_or_mem with rfl | ⟨p, hp, -⟩
    · exact absurd (hw.le_of_below hq) (Nat.not_le_of_lt hlt)
    · exact (hw.child hp).2.1
  cases h with
  | inert h => rw [List.flatMap_nil, List.filter_nil, pieces_of_isInert h]
  | pieces =>
    have hself : ∀ q ∈ t.pieces o, t.shown (· ∈ r.pieces t id) q = [q] := fun q hq =>
      SyntaxTree.shown_of_pos hw ht (hsize (SyntaxTree.below_of_piece hq)) (by simpa using hmem q hq)
    rw [List.flatMap_congr hself, List.flatMap_singleton']
  | whole =>
    have hwhole : t.shown (· ∈ r.pieces t id) o = t.pieces o := by
      refine SyntaxTree.shown_operand hw ht hf (hsize .refl) (by simpa using hmem) fun q hq hb => ?_
      obtain ⟨o', ho', hq'⟩ := List.mem_flatMap.1 (of_decide_eq_true hq)
      rwa [operand_unique hw ho ho' hb (SyntaxTree.below_of_piece hq')]
    rw [List.flatMap_singleton, hwhole]

theorem Takes.shown (hw : t.WellFormed) (ht : t.TakesFromBelow) (hf : t.KeepsForms)
    (h : Takes t (r.operands t id) nodes) :
    (nodes.flatMap (t.shown (· ∈ r.pieces t id))).filter t.isLive =
      (r.pieces t id).filter t.isLive := by
  obtain ⟨front, back, rfl, hfront, htaken, hsublist, hback⟩ := h
  have hfrontShown : ((front.flatMap Prod.snd).flatMap (t.shown (· ∈ r.pieces t id))).filter
      t.isLive = (r.pieces t id).filter t.isLive := by
    rw [Rule.pieces, ← hfront, List.flatMap_assoc]
    refine filter_flatMap_congr fun x hx => ?_
    have hop : x.1 ∈ r.operands t id := hfront ▸ List.mem_map_of_mem hx
    have := (htaken x (List.mem_append_left _ hx)).shown hw ht hf hop
    rwa [Rule.pieces, ← hfront] at this
  have hbackShown : ((back.flatMap Prod.snd).flatMap (t.shown (· ∈ r.pieces t id))).filter
      t.isLive = [] := by
    rw [List.flatMap_assoc, List.filter_flatMap]
    refine List.flatMap_eq_nil_iff.2 fun x hx => ?_
    have hop : x.1 ∈ r.operands t id := hsublist.subset (List.mem_map_of_mem hx)
    rw [(htaken x (List.mem_append_right _ hx)).shown hw ht hf hop]
    exact pieces_of_isInert (hback x hx).1
  rw [List.flatMap_append, List.filter_append, hfrontShown, hbackShown, List.append_nil]

def SyntaxTree.shownIn (t : SyntaxTree) (p : NodeId → Bool) (cs : List Code) : List NodeId :=
  (Code.splicedAll cs).flatMap (t.shown p)

/-- A compound assignment runs the parts of its target, reads the target, runs the other side, and
stores what comes of them. -/
inductive ReadsBetween (s : Instrumentation) (id : NodeId) (t : SyntaxTree) : Replacement → Prop
  | mk {left right : NodeId} {target : Stub} {current : String} {operand : List Code}
      {assigned : Code} : s.tree.child? id "left" = some left →
      s.tree.child? id "right" = some right → TargetStub s (fun _ => True) left target →
      (t.shownIn (· ∈ Rule.compound.pieces t id) target.preamble).filter t.isLive =
        (t.pieces left).filter t.isLive →
      target.value.spliced = [] →
      (t.shownIn (· ∈ Rule.compound.pieces t id) operand).filter t.isLive =
        (t.pieces right).filter t.isLive →
      assigned.spliced = [] →
      ReadsBetween s id t (.expression (.sequence
        (target.preamble ++ [.store (.variable .temporary current) target.value] ++ operand ++
          [assigned])))

/-- A rule left `t` with a replacement that runs the pieces of a construct once each and in order. -/
structure EvaluatesInOrder (s : Instrumentation) (r : Rule) (id : NodeId) (rep : Replacement)
    (t : SyntaxTree) : Prop where
  replaced : s.tree.Replaces id rep t
  text : t.text id = printParts s.tree.text (rep.parts s.tree id)
  ordered : (r.pieces t id).Pairwise t.Before
  distinct : (r.pieces t id).Nodup
  once : (t.shown (· ∈ r.pieces t id) id).filter t.isLive = (r.pieces t id).filter t.isLive
  between : r = .compound → ReadsBetween s id t rep

theorem Rule.pieces_iff_false (hw : t.WellFormed) (r : Rule) (id : NodeId) :
    decide (id ∈ r.pieces t id) = false :=
  decide_eq_false fun h => Nat.lt_irrefl _ (Rule.below_of_mem_pieces hw h).1

theorem shown_children (hw : t.WellFormed) (ht : t.TakesFromBelow) (hf : t.KeepsForms)
    (hr : r = .terminator ∨ r = .returning) :
    ((t.children id).flatMap (t.shown (· ∈ r.pieces t id))).filter t.isLive =
      (r.pieces t id).filter t.isLive := by
  have hoperands : r.operands t id = [] ∨ ∃ a ∈ t.children id, r.operands t id = [a] := by
    rcases hr with rfl | rfl
    · exact .inl rfl
    · rw [Rule.operands]
      cases ha : (t.significantChildren id).head? with
      | none => exact .inl rfl
      | some a => exact .inr ⟨a, SyntaxTree.mem_of_significant (List.mem_of_head? ha), rfl⟩
  rcases hoperands with e | ⟨a, ha, e⟩
  · have hnone : ∀ q, q ∉ r.pieces t id := by simp [Rule.pieces, e]
    have hshown : (t.children id).flatMap (t.shown (· ∈ r.pieces t id)) = [] :=
      List.flatMap_eq_nil_iff.2 fun b _ => SyntaxTree.shown_eq_nil ht fun q hq =>
        absurd (of_decide_eq_true hq) (hnone q)
    rw [hshown, List.eq_nil_iff_forall_not_mem.2 hnone]
  · have honly : (t.children id).flatMap (t.shown (· ∈ r.pieces t id)) =
        [a].flatMap (t.shown (· ∈ r.pieces t id)) := by
      rw [List.flatMap_singleton]
      refine flatMap_eq_of_only (hw.children_nodup id) ha fun b hb hne => ?_
      refine SyntaxTree.shown_eq_nil ht fun q hq hbq => hne ?_
      have hq : q ∈ t.pieces a := by simpa [Rule.pieces, e] using hq
      exact hw.child_unique hb ha hbq (SyntaxTree.below_of_piece hq)
    have hmem : a ∈ r.operands t id := e ▸ List.mem_cons_self
    rw [honly, (OperandTaken.whole (t := t) (o := a)).shown hw ht hf hmem, Rule.pieces, e,
      List.flatMap_singleton]

namespace SyntaxTree.SameShape

theorem operandTaken (h : t.SameShape t') (htaken : OperandTaken t o nodes) :
    OperandTaken t' o nodes := by
  cases htaken with
  | inert hi => exact .inert (by rwa [h.isInert])
  | pieces => exact h.pieces ▸ .pieces
  | whole => exact .whole

theorem takes (h : t.SameShape t') {operands : List NodeId} (htakes : Takes t operands nodes) :
    Takes t' operands nodes := by
  obtain ⟨front, back, hnodes, hfront, htaken, hsublist, hback⟩ := htakes
  refine ⟨front, back, hnodes, hfront, fun x hx => h.operandTaken (htaken x hx), hsublist, ?_⟩
  rwa [h.isInert]

end SyntaxTree.SameShape

theorem Rewrites.readsBetween {drawn : String → Prop} {rep : Replacement}
    (h : Rewrites s drawn id .compound rep) (hshape : s.tree.SameShape t) (hw : t.WellFormed)
    (ht : t.TakesFromBelow) (hf : t.KeepsForms) : ReadsBetween s id t rep := by
  cases h with
  | @compound left right target value store combined _ _ _ hleft hright htarget hstore hvalue _ _
      hcombined =>
    obtain ⟨htaken, hread, hspliced⟩ := htarget.taken
    have hoperands : Rule.compound.operands t id = [left, right] := by
      simp [Rule.operands, hshape.child?, hleft, hright]
    have hcombined : combined.spliced = [] := by
      rcases hcombined with rfl | rfl
      · exact s.spliced_arithmeticCheck _ _ _ _ _ _
      · rfl
    refine .mk hleft hright (htarget.mono fun _ _ => trivial) ?_ hread ?_ ?_
    · exact (hshape.operandTaken htaken).shown hw ht hf (by simp [hoperands])
    · rw [SyntaxTree.shownIn, (splices_held s right value _).1]
      exact (hshape.operandTaken hvalue.taken).shown hw ht hf (by simp [hoperands])
    · simp [Code.spliced, hspliced store hstore, hcombined]

theorem apply_evaluatesInOrder (hw : s₀.tree.WellFormed) (hfresh : s₀.tree.IsFresh)
    (hv : Visited s₀ s) (hr : r ≠ .body) (hhandles : r.handles (s.tree.kind id) = true)
    (h : Yields (r.apply id) s true s') : ∃ rep, EvaluatesInOrder s r id rep s'.tree := by
  rcases apply_ok h with ⟨hfalse, -⟩ | ⟨-, change, u, hchange, hreplaces, -⟩
  · cases hfalse
  obtain ⟨hdraw, hnode, hform⟩ := change_ok hr hchange (hostsIn_true s id)
  rw [hnode, hdraw.tree] at hreplaces
  have hid : id < s.tree.size := lt_size_of_handles hhandles
  have hws := hv.wellFormed hw
  have hw' := hreplaces.shape.wellFormed hws
  have ht' := hreplaces.takesFromBelow hid (hv.takesFromBelow hw hfresh) (hform.below hws)
  have hf' := hreplaces.keepsForms (.inr ⟨r, hr, hhandles⟩) (hv.keepsForms hw hfresh)
  have hid' : id < s'.tree.size := hreplaces.shape.size ▸ hid
  have hown := SyntaxTree.text_of_none hws hid hreplaces.before
  have htext := SyntaxTree.text_of_some hid' (hreplaces.at_ hid)
  rw [Replacement.print_parts (hform.current hown)] at htext
  refine ⟨change.replacement, hreplaces, htext, r.pieces_before hw' id, r.pieces_nodup hw' id, ?_, ?_⟩
  · rw [SyntaxTree.shown_eq hw' ht' hid', r.pieces_iff_false hw' id,
      SyntaxTree.takenOver_of_some (hreplaces.at_ hid), hreplaces.shape.takenOver]
    change ((change.replacement.takenOver s.tree id).flatMap _).filter _ = _
    rcases hform.taken with ⟨hstatement, _, _, e⟩ | htakes
    · rw [e, Replacement.takenOver_statement, ← hreplaces.shape.children]
      exact shown_children hw' ht' hf' hstatement
    · rw [← hreplaces.shape.operands] at htakes
      exact (hreplaces.shape.takes htakes).shown hw' ht' hf'
  · rintro rfl
    exact hform.readsBetween hreplaces.shape hw' ht' hf'

def indexedCompound : Instrumentation :=
  let call (start stop : Nat) (field : String) : Concrete :=
    .named "call_expression" start stop (some field) [
      .named "identifier" start (start + 1) (some "function") [],
      .named "arguments" (start + 1) stop (some "arguments") []]
  let tree : Concrete :=
    .named "program" 0 14 none [
      .named "expression_statement" 0 14 none [
        .named "augmented_assignment_expression" 0 13 none [
          .named "subscript_expression" 0 6 (some "left") [
            .named "identifier" 0 1 (some "object") [], call 2 5 "index"],
          .mark "+=" 7 9 (some "operator"),
          call 10 13 "right"]]]
  .start (.ofConcrete "x[i()] += y();".toList tree) {} {} "__rt" "t.js"

theorem apply_evaluatesInOrder_indexedCompound :
    indexedCompound.tree.WellFormed ∧ indexedCompound.tree.IsFresh ∧
      Rule.compound.handles (indexedCompound.tree.kind 2) = true ∧
      ∃ s' rep, Yields (Rule.compound.apply 2) indexedCompound true s' ∧
        EvaluatesInOrder indexedCompound .compound 2 rep s'.tree := by
  have hw : indexedCompound.tree.WellFormed := by decide +kernel
  have hfresh : indexedCompound.tree.IsFresh := SyntaxTree.isFresh_ofConcrete _ _
  have hhandles : Rule.compound.handles (indexedCompound.tree.kind 2) = true := by decide +kernel
  have hyields : Yields (Rule.compound.apply 2) indexedCompound true
      ((Rule.compound.apply 2).run indexedCompound).2 := Prod.ext (by rfl) rfl
  obtain ⟨rep, h⟩ := apply_evaluatesInOrder hw hfresh .start (by decide) hhandles hyields
  exact ⟨hw, hfresh, hhandles, _, rep, hyields, h⟩

end CoercionTrace
