import CoercionTrace.Proofs.Syntax.TreeEdits
import Mathlib.Data.List.Basic

/-!
# Rendering is splicing

Of the nodes that are replaced those count that stand in no other one. Main statement: the text of a
tree is the program with each of these nodes' ranges replaced by its text (`render_updates`), in
whatever order the nodes were replaced.
-/

namespace CoercionTrace

theorem slice_all (source : List Char) :
    slice source 0 (SyntaxTree.byteLength source) = String.ofList source := by
  have key : ∀ at_ stop (rest : List Char), at_ + SyntaxTree.byteLength rest ≤ stop →
      sliceFrom 0 stop at_ rest = rest := by
    intro at_ stop rest
    induction rest generalizing at_ with
    | nil => exact fun _ => rfl
    | cons c rest ih =>
      intro h
      have hpos := c.utf8Size_pos
      rw [SyntaxTree.byteLength] at h
      rw [sliceFrom, if_neg (Nat.not_lt_zero _), if_pos (by omega), ih _ (by omega)]
  rw [slice, key 0 _ source (Nat.le_of_eq (Nat.zero_add _))]

namespace SyntaxTree

def updateAll (t : SyntaxTree) : List (NodeId × Replacement) → SyntaxTree
  | [] => t
  | (id, r) :: rest =>
    match t.update id r with
    | .ok t' => t'.updateAll rest
    | .error _ => t.updateAll rest

def first? (calls : List (NodeId × Replacement)) (id : NodeId) : Option Replacement :=
  (calls.find? fun call => call.1 == id).map Prod.snd

structure Outermost (t : SyntaxTree) (text? : NodeId → Option String) (id n : NodeId)
    (text : String) : Prop where
  below : t.Below id n
  text : text? n = some text
  alone : ∀ a, t.Below id a → t.Below a n → a ≠ n → text? a = none

def splicesWithin (t : SyntaxTree) (text? : NodeId → Option String) : Nat → NodeId → List Edit
  | 0, _ => []
  | depth + 1, id =>
    match text? id with
    | some text => [⟨(t.node id).start, (t.node id).stop, text⟩]
    | none => (t.children id).flatMap (splicesWithin t text? depth)

def splices (t : SyntaxTree) (text? : NodeId → Option String) (id : NodeId) : List Edit :=
  t.splicesWithin text? t.size id

/-- `t'` reads as `t` with these texts in the place of the outermost nodes that have one. -/
structure Spliced (t t' : SyntaxTree) (text? : NodeId → Option String) : Prop where
  edits : ∀ e, e ∈ t.splices text? root ↔
    ∃ n text, t.Outermost text? root n text ∧ e = ⟨(t.node n).start, (t.node n).stop, text⟩
  within : EditsWithin 0 (byteLength t.source) (t.splices text? root)
  render : t'.render = applyEdits t.source 0 (byteLength t.source) (t.splices text? root)
  text : ∀ id, t.Below root id →
    t'.text id = applyEdits t.source (t.node id).start (t.node id).stop (t.splices text? id)
  /-- The text of a node is a part of the whole unless a node around it has another text. -/
  part : ∀ id, t.Below root id → (∀ a, t.Below a id → a ≠ id → text? a = none) →
    ∃ before after, EditsWithin 0 (t.node id).start before ∧
      EditsWithin (t.node id).stop (byteLength t.source) after ∧
      t.splices text? root = before ++ t.splices text? id ++ after ∧
      t'.render = applyEdits t.source 0 (t.node id).start before ++ t'.text id ++
        applyEdits t.source (t.node id).stop (byteLength t.source) after

variable {t t' : SyntaxTree} {text? text?' : NodeId → Option String} {id n p c : NodeId}
  {text : String} {e : Edit} {calls calls' : List (NodeId × Replacement)}

theorem outermost_self (ha : t.Arranged) (h : text? id = some text) :
    t.Outermost text? id id text := by
  refine ⟨.refl, h, fun a hid hai hne => ?_⟩
  exact absurd (ha.descending.below_antisymm hai hid) hne

theorem Outermost.eq_self (h : t.Outermost text? id n text) (hid : text? id ≠ none) : n = id := by
  by_contra hne
  exact hid (h.alone id .refl h.below (Ne.symm hne))

theorem outermost_child_iff (ha : t.Arranged) (hid : text? id = none) (hc : c ∈ t.children id)
    (hcn : t.Below c n) : t.Outermost text? c n text ↔ t.Outermost text? id n text := by
  constructor
  · rintro ⟨-, htext, halone⟩
    refine ⟨(Below.of_mem hc).trans hcn, htext, fun a haid han hne => ?_⟩
    rcases haid.eq_or_child with rfl | ⟨d, hd, hda⟩
    · exact hid
    · obtain rfl := ha.descending.child_unique hd hc (hda.trans han) hcn
      exact halone a hda han hne
  · rintro ⟨-, htext, halone⟩
    exact ⟨hcn, htext, fun a hca han hne => halone a ((Below.of_mem hc).trans hca) han hne⟩

theorem Outermost.child (ha : t.Arranged) (hid : text? id = none)
    (h : t.Outermost text? id n text) : ∃ c ∈ t.children id, t.Outermost text? c n text := by
  rcases h.below.eq_or_child with rfl | ⟨c, hc, hcn⟩
  · cases hid.symm.trans h.text
  · exact ⟨c, hc, (outermost_child_iff ha hid hc hcn).2 h⟩

theorem mem_splicesWithin (ha : t.Arranged) (hlt : id < t.size) {depth : Nat}
    (hd : t.size - id ≤ depth) : e ∈ t.splicesWithin text? depth id ↔
      ∃ n text, t.Outermost text? id n text ∧ e = ⟨(t.node n).start, (t.node n).stop, text⟩ := by
  induction depth generalizing id with
  | zero => exact absurd (Nat.le_zero.1 hd) (Nat.sub_ne_zero_of_lt hlt)
  | succ depth ih =>
    rw [splicesWithin]
    cases htext : text? id with
    | some own =>
      refine List.mem_singleton.trans ⟨?_, ?_⟩
      · rintro rfl
        exact ⟨id, own, outermost_self ha htext, rfl⟩
      · rintro ⟨n, text, h, rfl⟩
        obtain rfl := h.eq_self (by simp [htext])
        obtain rfl := Option.some.inj (h.text.symm.trans htext)
        rfl
    | none =>
      refine List.mem_flatMap.trans ⟨?_, ?_⟩
      · rintro ⟨c, hc, he⟩
        obtain ⟨hlt, hsize, -⟩ := ha.child hc
        obtain ⟨n, text, h, rfl⟩ := (ih hsize (WellFormed.sub_le_of_lt hlt hd)).1 he
        exact ⟨n, text, (outermost_child_iff ha htext hc h.below).1 h, rfl⟩
      · rintro ⟨n, text, h, rfl⟩
        obtain ⟨c, hc, hcn⟩ := h.child ha htext
        obtain ⟨hlt, hsize, -⟩ := ha.child hc
        exact ⟨c, hc, (ih hsize (WellFormed.sub_le_of_lt hlt hd)).2 ⟨n, text, hcn, rfl⟩⟩

theorem splicesWithin_congr (ha : t.Arranged)
    (h : ∀ n text, t.Outermost text? id n text ↔ t.Outermost text?' id n text) (depth : Nat) :
    t.splicesWithin text? depth id = t.splicesWithin text?' depth id := by
  induction depth generalizing id with
  | zero => rfl
  | succ depth ih =>
    rw [splicesWithin, splicesWithin]
    cases htext : text? id with
    | some own =>
      have hown := (h id own).1 (outermost_self ha htext)
      rw [hown.text]
    | none =>
      have htext' : text?' id = none := by
        by_contra hsome
        obtain ⟨own, hown⟩ := Option.ne_none_iff_exists'.1 hsome
        cases htext.symm.trans ((h id own).2 (outermost_self ha hown)).text
      rw [htext']
      refine List.flatMap_congr fun c hc => ih fun n text => ?_
      constructor
      · intro hn
        have hid := (outermost_child_iff ha htext hc hn.below).1 hn
        exact (outermost_child_iff ha htext' hc hn.below).2 ((h n text).1 hid)
      · intro hn
        have hid := (outermost_child_iff ha htext' hc hn.below).1 hn
        exact (outermost_child_iff ha htext hc hn.below).2 ((h n text).2 hid)

theorem splicesWithin_of_le (ha : t.Arranged) {depth depth' : Nat} (hlt : id < t.size)
    (hd : t.size - id ≤ depth) (hd' : t.size - id ≤ depth') :
    t.splicesWithin text? depth id = t.splicesWithin text? depth' id := by
  induction depth generalizing id depth' with
  | zero => exact absurd (Nat.le_zero.1 hd) (Nat.sub_ne_zero_of_lt hlt)
  | succ depth ih =>
    cases depth' with
    | zero => exact absurd (Nat.le_zero.1 hd') (Nat.sub_ne_zero_of_lt hlt)
    | succ depth' =>
      rw [splicesWithin, splicesWithin]
      split
      · rfl
      · refine List.flatMap_congr fun c hc => ?_
        obtain ⟨hlt, hsize, -⟩ := ha.child hc
        exact ih hsize (WellFormed.sub_le_of_lt hlt hd) (WellFormed.sub_le_of_lt hlt hd')

theorem splices_of_none (ha : t.Arranged) (hlt : id < t.size) (h : text? id = none) :
    t.splices text? id = (t.children id).flatMap (t.splices text?) := by
  obtain ⟨depth, hdepth⟩ := Nat.exists_eq_succ_of_ne_zero (Nat.ne_zero_of_lt hlt)
  rw [splices, hdepth, splicesWithin, h]
  refine List.flatMap_congr fun c hc => ?_
  obtain ⟨hlt, hsize, -⟩ := ha.child hc
  exact splicesWithin_of_le ha hsize (WellFormed.sub_le_of_lt hlt (hdepth ▸ Nat.sub_le _ _))
    (Nat.sub_le _ _)

theorem splicesWithin_none (t : SyntaxTree) (depth : Nat) (id : NodeId) :
    t.splicesWithin (fun _ => none) depth id = [] := by
  induction depth generalizing id with
  | zero => rfl
  | succ depth ih => exact List.flatMap_eq_nil_iff.2 fun c _ => ih c

def given? (t : SyntaxTree) (id : NodeId) : Option String :=
  (t.node id).replacement.map Replacement.print

theorem range_of_below (ha : t.Arranged) (h : t.Below root id) :
    (t.node id).start ≤ (t.node id).stop := by
  cases h with
  | refl => exact ha.range.1
  | child _ hc => exact ha.proper hc

theorem splicesWithin_within (ha : t.Arranged) (hid : t.Below root id) (depth : Nat) :
    EditsWithin (t.node id).start (t.node id).stop (t.splicesWithin text? depth id) := by
  have hrange := range_of_below ha hid
  induction depth generalizing id with
  | zero => exact hrange
  | succ depth ih =>
    rw [splicesWithin]
    split
    · exact ⟨Nat.le_refl _, hrange, Nat.le_refl _⟩
    · have hwithin : ∀ c ∈ t.children id, EditsWithin (t.node c).start (t.node c).stop
          (t.splicesWithin text? depth c) := fun c hc => ih (.child hid hc) (ha.proper hc)
      exact (splice_apply hwithin (fun _ _ => rfl) ((ha.ordered id).imp And.right)
        (fun c hc => (ha.nested hc).1) (fun c hc => (ha.nested hc).2) hrange).1

theorem textWithin_splices (ha : t.Arranged) (hid : t.Below root id) {depth : Nat}
    (hd : t.size - id ≤ depth) :
    t.textWithin depth id = applyEdits t.source (t.node id).start (t.node id).stop
      (t.splicesWithin t.given? depth id) := by
  have hlt := ha.descending.lt_size_of_below hid ha.root_lt
  induction depth generalizing id with
  | zero => exact absurd (Nat.le_zero.1 hd) (Nat.sub_ne_zero_of_lt hlt)
  | succ depth ih =>
    rw [splicesWithin, textWithin, given?]
    cases (t.node id).replacement with
    | some r => simp [applyEdits, slice_self]
    | none =>
      have htext : ∀ c ∈ t.children id, t.textWithin depth c = applyEdits t.source (t.node c).start
          (t.node c).stop (t.splicesWithin t.given? depth c) := fun c hc =>
        ih (.child hid hc) (WellFormed.sub_le_of_lt (ha.child hc).1 hd) (ha.child hc).2.1
      exact (splice_apply (fun c hc => splicesWithin_within ha (.child hid hc) depth) htext
        ((ha.ordered id).imp And.right) (fun c hc => (ha.nested hc).1)
        (fun c hc => (ha.nested hc).2) (range_of_below ha hid)).2

theorem spelled_splices (ha : t.Arranged) (hid : t.Below root id) :
    t.Spelled id (t.splices t.given? id) :=
  ⟨splicesWithin_within ha hid _, textWithin_splices ha hid (Nat.sub_le _ _)⟩

theorem splices_around (ha : t.Arranged) (hroot : t.Below root n) (h : t.Below n id)
    (halone : ∀ a, t.Below a id → a ≠ id → text? a = none) :
    ∃ before after, EditsWithin (t.node n).start (t.node id).start before ∧
      EditsWithin (t.node id).stop (t.node n).stop after ∧
      t.splices text? n = before ++ t.splices text? id ++ after := by
  induction h with
  | refl => exact ⟨[], [], Nat.le_refl _, Nat.le_refl _, by simp⟩
  | @child p c hp hc ih =>
    have hroot_p := hroot.trans hp
    have hne : ∀ {a}, t.Below a p → a ≠ c := by
      rintro a hap rfl
      exact Nat.not_le_of_lt (ha.child hc).1 (ha.descending.le_of_below hap)
    obtain ⟨before, after, hbefore, hafter, hsplit⟩ := ih fun a hap _ =>
      halone a (.child hap hc) (hne hap)
    have hnone : text? p = none := halone p (.of_mem hc) (hne .refl)
    have hparts := splices_of_none ha (ha.descending.lt_size_of_below hroot_p ha.root_lt) hnone
    obtain ⟨left, right, hchildren⟩ := List.append_of_mem hc
    have hmem : ∀ {d}, d ∈ left ∨ d ∈ right → d ∈ t.children p := by
      intro d hd
      rw [hchildren, List.mem_append, List.mem_cons]
      exact hd.imp_right Or.inr
    have hwithin : ∀ d, d ∈ left ∨ d ∈ right →
        EditsWithin (t.node d).start (t.node d).stop (t.splices text? d) := fun d hd =>
      splicesWithin_within ha (.child hroot_p (hmem hd)) _
    have hord := (ha.ordered p).imp And.right
    rw [hchildren] at hord hparts
    obtain ⟨hleft, hright, hcross⟩ := List.pairwise_append.1 hord
    obtain ⟨hbehind, hright⟩ := List.pairwise_cons.1 hright
    have hfirst := (splice_apply (fun d hd => hwithin d (.inl hd)) (fun _ _ => rfl) hleft
      (fun d hd => (ha.nested (hmem (.inl hd))).1) (fun d hd => hcross d hd c List.mem_cons_self)
      (ha.nested hc).1).1
    have hlast := (splice_apply (fun d hd => hwithin d (.inr hd)) (fun _ _ => rfl) hright
      hbehind (fun d hd => (ha.nested (hmem (.inr hd))).2) (ha.nested hc).2).1
    refine ⟨_, _, hbefore.append hfirst, hlast.append hafter, ?_⟩
    rw [hsplit, hparts, List.flatMap_append, List.flatMap_cons]
    simp only [List.append_assoc]

theorem SameShape.arranged (h : SameShape t t') (ha : t.Arranged) : t'.Arranged where
  root_lt := h.size ▸ ha.root_lt
  range := by
    rw [h.start, h.stop, h.source]
    exact ha.range
  child hc := by
    rw [h.children] at hc
    rw [h.size, h.parent]
    exact ha.child hc
  ordered p := by
    simp only [h.children, h.start, h.stop]
    exact ha.ordered p
  nested hc := by
    rw [h.children] at hc
    simp only [h.start, h.stop]
    exact ha.nested hc
  proper hc := by
    rw [h.children] at hc
    simp only [h.start, h.stop]
    exact ha.proper hc

theorem SameShape.splices (h : SameShape t t') : t'.splices = t.splices := by
  have key : ∀ (text? : NodeId → Option String) depth id,
      t'.splicesWithin text? depth id = t.splicesWithin text? depth id := by
    intro text? depth
    induction depth with
    | zero => exact fun _ => rfl
    | succ depth ih =>
      intro id
      simp only [splicesWithin, h.start, h.stop, h.children, funext ih]
  funext text? id
  simp only [SyntaxTree.splices, key, h.size]

theorem spliced_of_given (ha : t.Arranged) (h : SameShape t t') : t.Spliced t' t'.given? := by
  have ha' := h.arranged ha
  have hspelled : ∀ {id}, t.Below root id → t'.Spelled id (t'.splices t'.given? id) :=
    fun hid => spelled_splices ha' (h.below hid)
  obtain ⟨hwithin, hrender⟩ := render_apply ha'.range.2 (hspelled .refl)
  rw [h.source, h.splices] at hwithin hrender
  have htext : ∀ id, t.Below root id → t'.text id =
      applyEdits t.source (t.node id).start (t.node id).stop (t.splices t'.given? id) := by
    intro id hid
    rw [(hspelled hid).text, h.source, h.start, h.stop, h.splices]
  refine ⟨fun e => mem_splicesWithin ha ha.root_lt (Nat.sub_le _ _), hwithin, hrender, htext, ?_⟩
  intro id hid halone
  obtain ⟨before, after, hbefore, hafter, hsplit⟩ := splices_around ha .refl hid halone
  have hbefore := hbefore.of_le (Nat.zero_le _)
  have hend : EditsWithin (t.node root).stop (byteLength t.source) [] := ha.range.2
  have hafter := hafter.append hend
  rw [List.append_nil] at hafter
  have hown : EditsWithin (t.node id).start (t.node id).stop (t.splices t'.given? id) :=
    splicesWithin_within ha hid t.size
  refine ⟨before, after, hbefore, hafter, hsplit, ?_⟩
  rw [hrender, hsplit, (hbefore.append hown).apply_append hafter, hbefore.apply_append hown,
    htext id hid]

theorem updateAll_append (t : SyntaxTree) (calls calls' : List (NodeId × Replacement)) :
    t.updateAll (calls ++ calls') = (t.updateAll calls).updateAll calls' := by
  induction calls generalizing t with
  | nil => rfl
  | cons call calls ih =>
    rw [List.cons_append, updateAll, updateAll]
    split
    · exact ih _
    · exact ih _

theorem update_of_replaced (h : (t.node id).replacement ≠ none) (r : Replacement) :
    t.update id r = .error (.contract (.updatedTwice id (t.kind id))) :=
  if_pos (Option.isSome_iff_ne_none.2 h)

theorem update_of_bare (h : (t.node id).replacement = none) (r : Replacement) :
    ∃ t', t.update id r = .ok t' := by
  unfold update
  rw [if_neg (by simp [Node.isReplaced, h])]
  exact ⟨_, rfl⟩

theorem first?_cons (id n : NodeId) (r : Replacement) (calls : List (NodeId × Replacement)) :
    first? ((id, r) :: calls) n = if id = n then some r else first? calls n := by
  unfold first?
  by_cases h : id = n
  · rw [List.find?_cons_of_pos (by simpa using h), if_pos h]
    rfl
  · rw [List.find?_cons_of_neg (by simpa using h), if_neg h]

theorem first?_eq_none_iff : first? calls id = none ↔ id ∉ calls.map Prod.fst := by
  rw [first?, Option.map_eq_none_iff, List.find?_eq_none, List.mem_map, not_exists]
  simp only [beq_iff_eq, not_and]

theorem updateAll_ok (hcalls : ∀ call ∈ calls, call.1 < t.size) : t.SameShape (t.updateAll calls) ∧
    ∀ n, ((t.updateAll calls).node n).replacement = (t.node n).replacement.or (first? calls n) := by
  induction calls generalizing t with
  | nil => exact ⟨.refl t, fun n => Option.or_none.symm⟩
  | cons call calls ih =>
    obtain ⟨id, r⟩ := call
    obtain ⟨hid, hcalls⟩ := List.forall_mem_cons.1 hcalls
    cases hr : (t.node id).replacement with
    | none =>
      obtain ⟨t', hupdate⟩ := update_of_bare hr r
      have hreplaces := replaces_of_update hupdate
      have hcalls' : ∀ call ∈ calls, call.1 < t'.size :=
        fun call hcall => hreplaces.shape.size ▸ hcalls call hcall
      obtain ⟨hshape, hnodes⟩ := ih hcalls'
      rw [updateAll, hupdate]
      refine ⟨hreplaces.shape.trans hshape, fun n => ?_⟩
      rw [hnodes, first?_cons]
      by_cases hn : id = n
      · subst hn
        rw [hreplaces.at_ hid, if_pos rfl, hr]
        rfl
      · rw [hreplaces.elsewhere n (Ne.symm hn), if_neg hn]
    | some own =>
      obtain ⟨hshape, hnodes⟩ := ih hcalls
      rw [updateAll, update_of_replaced (by simp [hr])]
      refine ⟨hshape, fun n => ?_⟩
      rw [hnodes, first?_cons]
      by_cases hn : id = n
      · subst hn
        rw [hr]
        rfl
      · rw [if_neg hn]

def texts? (calls : List (NodeId × Replacement)) (id : NodeId) : Option String :=
  (first? calls id).map Replacement.print

theorem given?_updateAll (hfresh : t.IsFresh) (hcalls : ∀ call ∈ calls, call.1 < t.size) :
    (t.updateAll calls).given? = texts? calls := by
  funext n
  rw [given?, (updateAll_ok hcalls).2, hfresh n]
  rfl

/-- A tree that is not touched has the text of the program. After updates in any order, the text is
the program with the ranges of the outermost nodes replaced, and depends on these nodes only. A node
takes no second update. -/
theorem render_updates (ha : t.Arranged) (hfresh : t.IsFresh) :
    (t.render = String.ofList t.source ∧ ∀ id, t.Below root id → t.text id = t.rawSource id) ∧
    (∀ calls, (∀ call ∈ calls, call.1 < t.size) → t.Spliced (t.updateAll calls) (texts? calls)) ∧
    (∀ calls calls', (∀ call ∈ calls, call.1 < t.size) → (∀ call ∈ calls', call.1 < t.size) →
      (∀ n text, t.Outermost (texts? calls) root n text ↔ t.Outermost (texts? calls') root n text) →
      (t.updateAll calls).render = (t.updateAll calls').render) ∧
    ∀ calls id r, (∀ call ∈ calls, call.1 < t.size) →
      (id ∈ calls.map Prod.fst →
        (t.updateAll calls).update id r = .error (.contract (.updatedTwice id (t.kind id))) ∧
        t.updateAll (calls ++ [(id, r)]) = t.updateAll calls) ∧
      (id ∉ calls.map Prod.fst →
        (t.updateAll calls).update id r = .ok (t.updateAll (calls ++ [(id, r)]))) := by
  have hspliced : ∀ calls, (∀ call ∈ calls, call.1 < t.size) →
      t.Spliced (t.updateAll calls) (texts? calls) := by
    intro calls hcalls
    rw [← given?_updateAll hfresh hcalls]
    exact spliced_of_given ha (updateAll_ok hcalls).1
  refine ⟨?_, hspliced, ?_, ?_⟩
  · have hnone : t.Spliced t fun _ => none := hspliced [] (by simp)
    have hsplices : ∀ id, t.splices (fun _ => none) id = [] := splicesWithin_none t t.size
    refine ⟨?_, fun id hid => ?_⟩
    · rw [hnone.render, hsplices, applyEdits, slice_all]
    · rw [hnone.text id hid, hsplices]
      rfl
  · -- only the outermost texts are spliced in
    intro calls calls' hcalls hcalls' hsame
    rw [(hspliced calls hcalls).render, (hspliced calls' hcalls').render, splices,
      splicesWithin_congr ha hsame]
    rfl
  · intro calls id r hcalls
    obtain ⟨hshape, hnodes⟩ := updateAll_ok hcalls
    have hreplacement : ((t.updateAll calls).node id).replacement = first? calls id := by
      rw [hnodes, hfresh id]
      rfl
    rw [updateAll_append, updateAll, ← hshape.kind]
    constructor
    · intro hid
      have hreplaced : ((t.updateAll calls).node id).replacement ≠ none := by
        rw [hreplacement, ne_eq, first?_eq_none_iff, not_not]
        exact hid
      rw [update_of_replaced hreplaced]
      exact ⟨rfl, rfl⟩
    · intro hid
      obtain ⟨t', hupdate⟩ := update_of_bare (hreplacement.trans (first?_eq_none_iff.2 hid)) r
      rw [hupdate]
      rfl

def twoStatements : SyntaxTree :=
  .ofConcrete "  a + b; c\n".toList <| .named "program" 2 11 none [
    .named "expression_statement" 2 8 none [
      .named "binary_expression" 2 7 none [.named "identifier" 2 3 (some "left") [],
        .mark "+" 4 5 (some "operator"), .named "identifier" 6 7 (some "right") []],
      .mark ";" 7 8 none],
    .named "expression_statement" 9 10 none [.named "identifier" 9 10 none []]]

theorem render_updates_twoStatements :
    twoStatements.Arranged ∧ twoStatements.IsFresh ∧ twoStatements.render = "  a + b; c\n" ∧
    (twoStatements.updateAll [(6, .text "z"), (3, .text "x"), (2, .text "f(a)")]).render =
      "  f(a); z\n" ∧
    (twoStatements.updateAll [(2, .text "f(a)"), (6, .text "z")]).render = "  f(a); z\n" ∧
    (twoStatements.updateAll [(2, .text "f(a)")]).update 2 (.text "g") =
      .error (.contract (.updatedTwice 2 .binaryExpression)) := by
  have hw : twoStatements.WellFormed := by decide +kernel
  have hfresh : twoStatements.IsFresh := isFresh_ofConcrete _ _
  obtain ⟨⟨huntouched, -⟩, hspliced, -, htwice⟩ := render_updates hw.arranged hfresh
  refine ⟨hw.arranged, hfresh, huntouched, ?_, ?_, ((htwice [_] 2 (.text "g") ?_).1 ?_).1⟩
  · exact (hspliced _ (by decide)).render.trans (by decide +kernel)
  · exact (hspliced _ (by decide)).render.trans (by decide +kernel)
  · decide
  · decide

end SyntaxTree

end CoercionTrace
