import CoercionTrace.Proofs.Syntax.Parts

/-!
# Settled texts

A replacement keeps the texts that it was made of. Main statements: a replacement changes the texts
of the nodes around it only (`Replaces.text`), so if nodes are replaced before those around them,
every replacement reads as if it were made last (`Replaces.settled`), and every text is that of its
parts (`text_parts`).
-/

namespace CoercionTrace

namespace SyntaxTree

variable {t t' : SyntaxTree} {id c : NodeId} {r : Replacement}

theorem splice_congr {f g : NodeId → String} {nodes : List NodeId} (h : ∀ c ∈ nodes, f c = g c)
    (cursor stop : Nat) : t.splice f cursor stop nodes = t.splice g cursor stop nodes := by
  induction nodes generalizing cursor with
  | nil => rfl
  | cons c rest ih =>
    rw [splice, splice, h c List.mem_cons_self, ih fun d hd => h d (List.mem_cons_of_mem _ hd)]

theorem textWithin_of_le (hw : t.WellFormed) (hid : id < t.size) {depth : Nat}
    (hd : t.size - id ≤ depth) : t.textWithin depth id = t.text id := by
  have key : ∀ {depth depth' : Nat} {id : NodeId}, id < t.size → t.size - id ≤ depth →
      t.size - id ≤ depth' → t.textWithin depth id = t.textWithin depth' id := by
    intro depth
    induction depth with
    | zero =>
      intro depth' id hid hd _
      exact absurd (Nat.le_zero.1 hd) (Nat.sub_ne_zero_of_lt hid)
    | succ depth ih =>
      intro depth' id hid hd hd'
      cases depth' with
      | zero => exact absurd (Nat.le_zero.1 hd') (Nat.sub_ne_zero_of_lt hid)
      | succ depth' =>
        simp only [textWithin]
        split
        · rfl
        · refine splice_congr (fun c hc => ?_) _ _
          obtain ⟨hlt, hsize, -⟩ := hw.child hc
          exact ih hsize (WellFormed.sub_le_of_lt hlt hd) (WellFormed.sub_le_of_lt hlt hd')
  exact key hid hd (Nat.sub_le _ _)

theorem text_of_none (hw : t.WellFormed) (hid : id < t.size) (h : (t.node id).replacement = none) :
    t.text id = t.ownText id := by
  obtain ⟨depth, hdepth⟩ := Nat.exists_eq_succ_of_ne_zero (Nat.ne_zero_of_lt hid)
  rw [text, hdepth, textWithin, h]
  refine splice_congr (fun c hc => ?_) _ _
  obtain ⟨hlt, hsize, -⟩ := hw.child hc
  exact textWithin_of_le hw hsize (WellFormed.sub_le_of_lt hlt (hdepth ▸ Nat.sub_le _ _))

theorem text_of_some (hid : id < t.size) (h : (t.node id).replacement = some r) :
    t.text id = r.print := by
  obtain ⟨depth, hdepth⟩ := Nat.exists_eq_succ_of_ne_zero (Nat.ne_zero_of_lt hid)
  rw [text, hdepth, textWithin, h]

theorem SameShape.slices (h : t.SameShape t') (f : NodeId → String) (cursor stop : Nat)
    (nodes : List NodeId) : t'.splice f cursor stop nodes = t.splice f cursor stop nodes := by
  induction nodes generalizing cursor with
  | nil => simp only [splice, h.source]
  | cons c rest ih => simp only [splice, h.source, h.start, h.stop, ih]

theorem SameShape.text (h : t.SameShape t')
    (hr : ∀ d, t.Below id d → (t'.node d).replacement = (t.node d).replacement) :
    t'.text id = t.text id := by
  have key : ∀ {depth : Nat} {id : NodeId},
      (∀ d, t.Below id d → (t'.node d).replacement = (t.node d).replacement) →
      t'.textWithin depth id = t.textWithin depth id := by
    intro depth
    induction depth with
    | zero => exact fun _ => rfl
    | succ depth ih =>
      intro id hr
      simp only [textWithin, hr id .refl, h.start, h.stop, h.children]
      split
      · rfl
      · rw [h.slices]
        exact splice_congr (fun c hc => ih fun d hd => hr d ((Below.of_mem hc).trans hd)) _ _
  rw [SyntaxTree.text, SyntaxTree.text, h.size]
  exact key hr

theorem Replaces.text (h : t.Replaces c r t') (hn : ¬ t.Below id c) : t'.text id = t.text id := by
  refine h.shape.text fun d hd => ?_
  rw [h.elsewhere d]
  rintro rfl
  exact hn hd

theorem SameShape.textBetween (h : t.SameShape t') (hc : ∀ c ∈ t.children id, t'.text c = t.text c)
    (start stop : Nat) : t'.textBetween id start stop = t.textBetween id start stop := by
  have hbetween : t'.childrenBetween id start stop = t.childrenBetween id start stop :=
    congrFun (congrFun (congrFun h.childrenBetween id) start) stop
  change t'.splice t'.text start stop (t'.childrenBetween id start stop) =
    t.splice t.text start stop (t.childrenBetween id start stop)
  rw [hbetween, h.slices]
  exact splice_congr (fun c hm => hc c (List.mem_filter.1 hm).1) _ _

theorem SameShape.ownText (h : t.SameShape t') (hc : ∀ c ∈ t.children id, t'.text c = t.text c) :
    t'.ownText id = t.ownText id := by
  rw [SyntaxTree.ownText, SyntaxTree.ownText, h.start, h.stop, h.children, h.slices]
  exact splice_congr hc _ _

theorem SameShape.lacksSemicolon (h : t.SameShape t')
    (hc : ∀ c ∈ t.children id, t'.text c = t.text c) :
    t'.lacksSemicolon id = t.lacksSemicolon id := by
  refine Bool.eq_iff_iff.2 ?_
  simp only [SyntaxTree.lacksSemicolon, h.textBetween hc, h.bodyStart, h.bodyCut, Bool.and_eq_true,
    decide_eq_true_eq]

theorem SameShape.bodyParts (h : t.SameShape t') (hc : ∀ c ∈ t.children id, t'.text c = t.text c) :
    t'.bodyParts id = t.bodyParts id := by
  simp only [SyntaxTree.bodyParts, h.lacksSemicolon hc, h.textBetween hc, h.bodyStart, h.bodyCut,
    h.bodyStop]

end SyntaxTree

variable {t t' : SyntaxTree} {id c : NodeId}

mutual

theorem Code.Current.congr {code : Code} (hc : code.Current t)
    (h : ∀ n ∈ code.spliced, t'.text n = t.text n) : code.Current t' := by
  cases code with
  | splice node text => exact Eq.trans hc (h node List.mem_cons_self).symm
  | store target value =>
    exact ⟨Code.Current.congr hc.1 fun n hn => h n (List.mem_append_left _ hn),
      Code.Current.congr hc.2 fun n hn => h n (List.mem_append_right _ hn)⟩
  | operation operator left right =>
    exact ⟨Code.Current.congr hc.1 fun n hn => h n (List.mem_append_left _ hn),
      Code.Current.congr hc.2 fun n hn => h n (List.mem_append_right _ hn)⟩
  | hook object method arguments => exact @Code.CurrentAll.congr arguments hc h
  | list elements => exact @Code.CurrentAll.congr elements hc h
  | sequence elements => exact @Code.CurrentAll.congr elements hc h
  | name | identifier | «variable» | quoted | null | void | index | access => trivial

theorem Code.CurrentAll.congr {cs : List Code} (hc : Code.CurrentAll t cs)
    (h : ∀ n ∈ Code.splicedAll cs, t'.text n = t.text n) : Code.CurrentAll t' cs := by
  cases cs with
  | nil => trivial
  | cons c rest =>
    exact ⟨Code.Current.congr hc.1 fun n hn => h n (List.mem_append_left _ hn),
      Code.CurrentAll.congr hc.2 fun n hn => h n (List.mem_append_right _ hn)⟩

end

theorem Replacement.Current.congr {r : Replacement} (hc : r.Current t id) (h : t.SameShape t')
    (htaken : ∀ n ∈ r.takenOver t id, t'.text n = t.text n)
    (hchildren : ∀ n ∈ t.children id, t'.text n = t.text n) : r.Current t' id := by
  cases r with
  | text => trivial
  | expression code => exact Code.Current.congr hc (by simpa using htaken)
  | returned value => exact Code.Current.congr hc (by simpa using htaken)
  | statement leading own trailing => exact Eq.trans hc (h.ownText hchildren).symm
  | framedBody directives header rest leave =>
    rw [Replacement.Current, h.bodyParts hchildren]
    exact hc
  | hostBody directives temporaries rest =>
    rw [Replacement.Current, h.bodyParts hchildren]
    exact hc
  | program before header gap rest =>
    rw [Replacement.Current, h.insertionPoint, h.start, h.stop, h.textBetween hchildren,
      h.textBetween hchildren]
    exact hc

def SyntaxTree.Settled (t : SyntaxTree) : Prop :=
  ∀ id r, (t.node id).replacement = some r → r.Current t id

namespace SyntaxTree

variable {r : Replacement}

theorem Replaces.settled (h : t.Replaces c r t') (hw : t.WellFormed) (ht : t.TakesFromBelow)
    (hs : t.Settled) (hc : c < t.size) (hcurrent : r.Current t c)
    (hbelow : ∀ d ∈ r.takenOver t c, c < d ∧ t.Below c d)
    (habove : ∀ d, t.Below d c → (t.node d).replacement = none) : t'.Settled := by
  have hlower : ∀ {d n}, d < n ∧ t.Below d n → (d = c ∨ ¬ t.Below d c) → t'.text n = t.text n := by
    intro d n hn hd
    refine h.text fun hnc => ?_
    rcases hd with rfl | hd
    · exact Nat.not_lt_of_le (hw.le_of_below hnc) hn.1
    · exact hd (hn.2.trans hnc)
  have hchild : ∀ {d n}, n ∈ t.children d → d < n ∧ t.Below d n :=
    fun hn => ⟨(hw.child hn).1, .of_mem hn⟩
  intro d rep hrep
  by_cases hd : d = c
  · subst hd
    rw [h.at_ hc] at hrep
    obtain rfl := Option.some.inj hrep
    exact Replacement.Current.congr hcurrent h.shape (fun n hn => hlower (hbelow n hn) (.inl rfl))
      fun n hn => hlower (hchild hn) (.inl rfl)
  · rw [h.elsewhere d hd] at hrep
    have hnot : ¬ t.Below d c := fun hdc => by simp [habove d hdc] at hrep
    refine Replacement.Current.congr (hs d rep hrep) h.shape
      (fun n hn => hlower (ht d n ?_) (.inr hnot)) fun n hn => hlower (hchild hn) (.inr hnot)
    rwa [takenOver_of_some hrep]

theorem text_parts (hw : t.WellFormed) (hs : t.Settled) (hid : id < t.size) :
    t.text id = printParts t.text (t.parts id) := by
  rw [parts]
  split
  · next h => rw [text_of_none hw hid h, printParts_ownParts]
  · next r h => rw [text_of_some hid h, Replacement.print_parts (hs id r h)]

end SyntaxTree

end CoercionTrace
