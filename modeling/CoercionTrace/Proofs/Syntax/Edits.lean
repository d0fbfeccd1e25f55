import CoercionTrace.Syntax.Render

/-!
# Edits

A text is edited by putting other texts in the place of some of its bytes. Main statements: edits up
to a place and edits from there on are applied independently (`EditsWithin.apply_append`), and what
no edit touches stands in the result (`EditsWithin.charsOn_sublist`).
-/

namespace CoercionTrace

theorem sliceFrom_eq_nil {start stop at_ : Nat} (h : start ≤ stop) (hat : stop ≤ at_)
    (source : List Char) : sliceFrom start stop at_ source = [] := by
  cases source with
  | nil => rfl
  | cons c rest =>
    rw [sliceFrom, if_neg (Nat.not_lt_of_le (Nat.le_trans h hat)), if_neg (Nat.not_lt_of_le hat)]

theorem sliceFrom_append {a b c : Nat} (hab : a ≤ b) (hbc : b ≤ c) (at_ : Nat) (source : List Char) :
    sliceFrom a c at_ source = sliceFrom a b at_ source ++ sliceFrom b c at_ source := by
  induction source generalizing at_ with
  | nil => rfl
  | cons x rest ih =>
    simp only [sliceFrom]
    by_cases ha : at_ < a
    · rw [if_pos ha, if_pos ha, if_pos (Nat.lt_of_lt_of_le ha hab), ih]
    · by_cases hb : at_ < b
      · rw [if_neg ha, if_neg ha, if_pos (Nat.lt_of_lt_of_le hb hbc), if_pos hb, if_pos hb, ih]
        rfl
      · rw [if_neg ha, if_neg ha, if_neg hb, if_neg hb, ih,
          sliceFrom_eq_nil hab (Nat.le_trans (Nat.le_of_not_lt hb) (Nat.le_add_right _ _))]
        rfl

theorem slice_append {a b c : Nat} (hab : a ≤ b) (hbc : b ≤ c) (source : List Char) :
    slice source a c = slice source a b ++ slice source b c := by
  rw [slice, sliceFrom_append hab hbc, String.ofList_append]
  rfl

theorem slice_self (source : List Char) (a : Nat) : slice source a a = "" := by
  have hnil : ∀ at_, sliceFrom a a at_ source = [] := by
    induction source with
    | nil => exact fun _ => rfl
    | cons x rest ih =>
      intro at_
      rw [sliceFrom]
      split
      · exact ih _
      · rfl
  rw [slice, hnil]

theorem le_positionFrom (target : Nat) (source : List Char) (at_ row column : Nat) :
    row ≤ (positionFrom target source at_ row column).1 := by
  induction source generalizing at_ row column with
  | nil => exact Nat.le_refl _
  | cons c rest ih =>
    rw [positionFrom]
    split
    · exact Nat.le_refl _
    · split
      · exact Nat.le_trans (Nat.le_succ row) (ih _ _ _)
      · exact ih _ _ _

theorem positionFrom_mono {x y : Nat} (h : x ≤ y) (source : List Char) (at_ row column : Nat) :
    (positionFrom x source at_ row column).1 ≤ (positionFrom y source at_ row column).1 := by
  induction source generalizing at_ row column with
  | nil => exact Nat.le_refl _
  | cons c rest ih =>
    by_cases hx : x ≤ at_
    · rw [positionFrom, if_pos hx]
      exact le_positionFrom y (c :: rest) at_ row column
    · rw [positionFrom, positionFrom, if_neg hx, if_neg fun hy => hx (Nat.le_trans h hy)]
      split
      · exact ih _ _ _
      · exact ih _ _ _

theorem position_mono {x y : Nat} (h : x ≤ y) (source : List Char) :
    (position source x).1 ≤ (position source y).1 :=
  positionFrom_mono h source 0 0 0

def nextRow (row : Nat) (c : Char) : Nat := if c = '\n' then row + 1 else row

theorem positionFrom_cons (at_ row column : Nat) (c : Char) (rest : List Char) :
    ∃ column', ∀ x, at_ < x → positionFrom x (c :: rest) at_ row column =
      positionFrom x rest (at_ + c.utf8Size) (nextRow row c) column' := by
  refine ⟨if c = '\n' then 0 else column + c.utf8Size, fun x hx => ?_⟩
  rw [positionFrom, if_neg (Nat.not_le_of_lt hx), nextRow]
  split <;> rfl

def charsOn (p : Nat → Bool) : Nat → List Char → List Char
  | _, [] => []
  | row, c :: rest =>
    if p row then c :: charsOn p (nextRow row c) rest else charsOn p (nextRow row c) rest

def charsOnFrom (p : Nat → Bool) (start stop : Nat) : Nat → Nat → List Char → List Char
  | _, _, [] => []
  | at_, row, c :: rest =>
    let below := charsOnFrom p start stop (at_ + c.utf8Size) (nextRow row c) rest
    if start ≤ at_ ∧ at_ < stop ∧ p row then c :: below else below

section

variable {p : Nat → Bool} {a b c : Nat}

theorem charsOnFrom_all {at_ row : Nat} {source : List Char} (ha : a ≤ at_)
    (hb : at_ + SyntaxTree.byteLength source ≤ b) :
    charsOnFrom p a b at_ row source = charsOn p row source := by
  induction source generalizing at_ row with
  | nil => rfl
  | cons x rest ih =>
    have hpos := x.utf8Size_pos
    rw [SyntaxTree.byteLength] at hb
    have hlt : at_ < b := by omega
    rw [charsOnFrom, charsOn, ih (Nat.le_trans ha (Nat.le_add_right _ _)) (by omega)]
    simp only [ha, hlt, true_and]

theorem charsOnFrom_of_le {at_ row : Nat} {source : List Char} (h : b ≤ at_) :
    charsOnFrom p a b at_ row source = [] := by
  induction source generalizing at_ row with
  | nil => rfl
  | cons x rest ih =>
    rw [charsOnFrom, ih (Nat.le_trans h (Nat.le_add_right _ _)),
      if_neg fun hx => Nat.not_lt_of_le h hx.2.1]

theorem charsOnFrom_append (hab : a ≤ b) (hbc : b ≤ c) (at_ row : Nat) (source : List Char) :
    charsOnFrom p a c at_ row source =
      charsOnFrom p a b at_ row source ++ charsOnFrom p b c at_ row source := by
  induction source generalizing at_ row with
  | nil => rfl
  | cons x rest ih =>
    by_cases hb : at_ < b
    · have hc := Nat.lt_of_lt_of_le hb hbc
      simp only [charsOnFrom, ih, hb, hc, Nat.not_le_of_lt hb, true_and, false_and, if_false]
      split <;> rfl
    · have hb := Nat.le_of_not_lt hb
      rw [charsOnFrom_of_le hb, charsOnFrom, charsOnFrom, ih,
        charsOnFrom_of_le (Nat.le_trans hb (Nat.le_add_right _ _))]
      simp only [hb, Nat.le_trans hab hb, true_and, List.nil_append]

theorem charsOnFrom_sublist (at_ row : Nat) (source : List Char) :
    (charsOnFrom p a b at_ row source).Sublist (sliceFrom a b at_ source) := by
  induction source generalizing at_ row with
  | nil => exact .slnil
  | cons x rest ih =>
    rw [charsOnFrom, sliceFrom]
    by_cases ha : at_ < a
    · rw [if_pos ha, if_neg fun hx => Nat.not_le_of_lt ha hx.1]
      exact ih _ _
    · by_cases hb : at_ < b
      · rw [if_neg ha, if_pos hb]
        split
        · exact (ih _ _).cons_cons x
        · exact (ih _ _).cons x
      · have hpast : b ≤ at_ + x.utf8Size :=
          Nat.le_trans (Nat.le_of_not_lt hb) (Nat.le_add_right _ _)
        simp only [ha, hb, charsOnFrom_of_le hpast, false_and, and_false, if_false,
          List.Sublist.refl]

theorem charsOnFrom_eq_nil {at_ row column : Nat} {source : List Char}
    (h : ∀ x, a ≤ x → x < b → at_ ≤ x → p (positionFrom x source at_ row column).1 = false) :
    charsOnFrom p a b at_ row source = [] := by
  induction source generalizing at_ row column with
  | nil => rfl
  | cons c rest ih =>
    have hpos := c.utf8Size_pos
    have hrest : charsOnFrom p a b (at_ + c.utf8Size) (nextRow row c) rest = [] := by
      by_cases hb : at_ + c.utf8Size < b
      · obtain ⟨column', hcolumn⟩ := positionFrom_cons at_ row column c rest
        refine @ih _ _ column' fun x hax hxb hx => ?_
        rw [← hcolumn x (by omega)]
        exact h x hax hxb (by omega)
      · exact charsOnFrom_of_le (Nat.le_of_not_lt hb)
    rw [charsOnFrom, hrest, if_neg]
    rintro ⟨ha, hb, hp⟩
    have hrow := h at_ ha hb (Nat.le_refl _)
    rw [positionFrom, if_pos (Nat.le_refl _), hp] at hrow
    cases hrow

end

structure Edit where
  start : Nat
  stop : Nat
  text : String

def applyEdits (source : List Char) (cursor stop : Nat) : List Edit → String
  | [] => slice source cursor stop
  | e :: rest => slice source cursor e.start ++ e.text ++ applyEdits source e.stop stop rest

def EditsWithin (cursor stop : Nat) : List Edit → Prop
  | [] => cursor ≤ stop
  | e :: rest => cursor ≤ e.start ∧ e.start ≤ e.stop ∧ EditsWithin e.stop stop rest

namespace EditsWithin

variable {a b c : Nat} {edits edits' : List Edit} {source : List Char}

theorem le (h : EditsWithin a b edits) : a ≤ b := by
  induction edits generalizing a with
  | nil => exact h
  | cons e rest ih => exact Nat.le_trans h.1 (Nat.le_trans h.2.1 (ih h.2.2))

theorem of_le (h : EditsWithin b c edits) (hab : a ≤ b) : EditsWithin a c edits := by
  cases edits with
  | nil => exact Nat.le_trans hab h
  | cons e rest => exact ⟨Nat.le_trans hab h.1, h.2⟩

theorem insert (h : EditsWithin a b edits) (text : String) :
    EditsWithin a b (⟨a, a, text⟩ :: edits) :=
  ⟨Nat.le_refl _, Nat.le_refl _, h⟩

theorem append (h : EditsWithin a b edits) (h' : EditsWithin b c edits') :
    EditsWithin a c (edits ++ edits') := by
  induction edits generalizing a with
  | nil => exact h'.of_le h
  | cons e rest ih => exact ⟨h.1, h.2.1, ih h.2.2⟩

theorem apply_append (h : EditsWithin a b edits) (h' : EditsWithin b c edits') :
    applyEdits source a c (edits ++ edits') =
      applyEdits source a b edits ++ applyEdits source b c edits' := by
  induction edits generalizing a with
  | nil =>
    cases edits' with
    | nil => exact slice_append h h' source
    | cons e rest =>
      simp only [List.nil_append, applyEdits, slice_append h h'.1, String.append_assoc]
  | cons e rest ih => simp only [List.cons_append, applyEdits, ih h.2.2, String.append_assoc]

theorem apply_of_le (hle : a ≤ b) (h : EditsWithin b c edits) :
    applyEdits source a c edits = slice source a b ++ applyEdits source b c edits := by
  have hnone : EditsWithin a b [] := hle
  exact hnone.apply_append h

theorem charsOn_sublist {p : Nat → Bool} (h : EditsWithin a b edits)
    (hp : ∀ e ∈ edits, ∀ x, e.start ≤ x → x < e.stop → p (position source x).1 = false) :
    (charsOnFrom p a b 0 0 source).Sublist (applyEdits source a b edits).toList := by
  induction edits generalizing a with
  | nil =>
    rw [applyEdits, slice, String.toList_ofList]
    exact charsOnFrom_sublist 0 0 source
  | cons e rest ih =>
    have hgap : (charsOnFrom p a e.start 0 0 source).Sublist (slice source a e.start).toList := by
      rw [slice, String.toList_ofList]
      exact charsOnFrom_sublist 0 0 source
    have hnone : charsOnFrom p e.start e.stop 0 0 source = [] :=
      charsOnFrom_eq_nil fun x ha hb _ => hp e List.mem_cons_self x ha hb
    have hrest := ih h.2.2 fun e' he' => hp e' (List.mem_cons_of_mem _ he')
    rw [charsOnFrom_append h.1 (Nat.le_trans h.2.1 h.2.2.le), charsOnFrom_append h.2.1 h.2.2.le, hnone,
      List.nil_append, applyEdits, String.toList_append, String.toList_append]
    exact (hgap.trans (List.sublist_append_left _ _)).append hrest

end EditsWithin

end CoercionTrace
