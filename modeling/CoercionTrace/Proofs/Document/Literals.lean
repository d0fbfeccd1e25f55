import CoercionTrace.Document.Reading
import CoercionTrace.Proofs.Text.Literal

/-!
# Literals in documents

What the reader of documents makes of literals. Main statement: whichever of the two spellings a text
is quoted in, its literal is read back as the text, whatever follows (`stringBody_literal`).
-/

namespace CoercionTrace

namespace Text

theorem hexDigit_visible {k : Nat} (hk : k < 16) :
    0x20 ≤ (hexDigit k).toNat ∧ (hexDigit k).toNat < 0x80 ∧ hexDigit k ≠ '"' ∧ hexDigit k ≠ '\\' := by
  have key : ∀ i : Fin 16, 0x20 ≤ (hexDigit i).toNat ∧ (hexDigit i).toNat < 0x80 ∧
      hexDigit i ≠ '"' ∧ hexDigit i ≠ '\\' := by decide
  exact key ⟨k, hk⟩

theorem exists_of_mem_hexFour {n : Nat} {d : Char} (h : d ∈ hexFour n) : ∃ k < 16, d = hexDigit k := by
  have hmod : ∀ k : Nat, k % 16 < 16 := fun k => Nat.mod_lt k (by decide)
  simp only [hexFour, List.mem_cons, List.not_mem_nil, or_false] at h
  rcases h with h | h | h | h <;> exact ⟨_, hmod _, h⟩

namespace Quoted

variable {spell : Char → List Char}

/-- What readers of literals ask of a spelling: each character can be told, and none is invisible. -/
structure Spelling (spell : Char → List Char) : Prop where
  spelled : ∀ c, Spelled c (spell c)
  visible : ∀ c, ∀ d ∈ spell c, 0x20 ≤ d.toNat

theorem mem_escape {n : Nat} {d : Char} (h : d ∈ '\\' :: 'u' :: hexFour n) :
    0x20 ≤ d.toNat ∧ d.toNat < 0x80 := by
  rcases List.mem_cons.1 h with rfl | h
  · exact ⟨by decide, by decide⟩
  rcases List.mem_cons.1 h with rfl | h
  · exact ⟨by decide, by decide⟩
  obtain ⟨k, hk, rfl⟩ := exists_of_mem_hexFour h
  exact ⟨(hexDigit_visible hk).1, (hexDigit_visible hk).2.1⟩

theorem mem_jsonChar {c d : Char} (h : d ∈ jsonChar c) :
    0x20 ≤ d.toNat ∧ (d = c ∨ d.toNat < 0x80) := by
  have hshort : ∀ l ∈ [['\\', '"'], ['\\', '\\'], ['\\', 'b'], ['\\', 'f'], ['\\', 'n'], ['\\', 'r'],
      ['\\', 't']], ∀ d ∈ l, 0x20 ≤ d.toNat ∧ d.toNat < 0x80 := by simp
  unfold jsonChar at h
  iterate 7
    split at h
    · obtain ⟨hlow, hhigh⟩ := hshort _ (by simp) d h
      exact ⟨hlow, .inr hhigh⟩
  split at h
  · obtain ⟨hlow, hhigh⟩ := mem_escape h
    exact ⟨hlow, .inr hhigh⟩
  · next hvisible =>
    rw [List.mem_singleton.1 h]
    exact ⟨Nat.le_of_not_lt hvisible, .inl rfl⟩

theorem spelling_json : Spelling jsonChar :=
  ⟨spelled_jsonChar, fun _ _ h => (mem_jsonChar h).1⟩

theorem spelling_script : Spelling scriptChar := by
  refine ⟨spelled_scriptChar, fun c d h => ?_⟩
  unfold scriptChar at h
  split at h
  · exact (mem_escape h).1
  · exact (mem_jsonChar h).1

theorem toList_literal (spell : Char → List Char) (text : String) :
    (literal spell text).toList = '"' :: text.toList.flatMap spell ++ ['"'] :=
  String.toList_ofList

end Quoted

end Text

namespace Document

open Text Text.Quoted

variable {spell : Char → List Char}

theorem hexValue_hexDigit {k : Nat} (hk : k < 16) : hexValue (hexDigit k) = some k := by
  have key : ∀ i : Fin 16, hexValue (hexDigit i) = some i.val := by decide
  exact key ⟨k, hk⟩

theorem hexFour_digits {n : Nat} (hn : n < 65536) (s : List Char) :
    hexFour (Text.hexFour n ++ s) = some (n, s) := by
  have hmod : ∀ k : Nat, k % 16 < 16 := fun k => Nat.mod_lt k (by decide)
  simp only [Text.hexFour, List.cons_append, List.nil_append, hexFour, hexValue_hexDigit (hmod _),
    Option.bind_eq_bind, Option.bind_some, Option.pure_def, Option.some.injEq, Prod.mk.injEq, and_true]
  omega

theorem assemble_scalar (c : Char) (ps : List (Char ⊕ Nat)) :
    assemble (.inr c.toNat :: ps) = (assemble ps).map (c :: ·) := by
  have hvalid : c.toNat < 0xD800 ∨ 0xDFFF < c.toNat ∧ c.toNat < 0x110000 := c.valid
  have hlow : isLowSurrogate c.toNat = false := by
    simp only [isLowSurrogate, Bool.and_eq_false_iff, decide_eq_false_iff_not]
    omega
  have hhigh : isHighSurrogate c.toNat = false := by
    simp only [isHighSurrogate, Bool.and_eq_false_iff, decide_eq_false_iff_not]
    omega
  rw [assemble.eq_def]
  simp [hlow, hhigh, Char.ofNat_toNat]

theorem pieces_spelled {c : Char} {l : List Char} (h : Spelled c l) (hvisible : ∀ d ∈ l, 0x20 ≤ d.toNat)
    (fuel : Nat) (s : List Char) :
    ∃ p, pieces (fuel + 1) (l ++ s) = (pieces fuel s).map (fun q => (p :: q.1, q.2)) ∧
      ∀ ps, assemble (p :: ps) = (assemble ps).map (c :: ·) := by
  cases h with
  | plain hbackslash hquote =>
    have hlow : ¬ c.toNat < 0x20 := Nat.not_lt.2 (hvisible c List.mem_cons_self)
    refine ⟨.inl c, ?_, fun ps => rfl⟩
    cases hps : pieces fuel s <;> simp [pieces, hquote, hbackslash, hlow, hps]
  | @short d hd =>
    have key : ∀ p ∈ shortForms, simpleEscape p.2 = some p.1 ∧ p.2 ≠ 'u' := by decide
    obtain ⟨hescape, hu⟩ := key _ hd
    refine ⟨.inl c, ?_, fun ps => rfl⟩
    cases hps : pieces fuel s <;> simp [pieces, hescape, hps]
  | long hc =>
    refine ⟨.inr c.toNat, ?_, assemble_scalar c⟩
    cases hps : pieces fuel s <;> simp [pieces, hexFour_digits hc, hps]

theorem pieces_literal (hspell : Spelling spell) (l rest : List Char) {fuel : Nat}
    (hfuel : l.length < fuel) : ∃ ps, pieces fuel (l.flatMap spell ++ '"' :: rest) = some (ps, rest) ∧
      assemble ps = some l := by
  induction l generalizing fuel with
  | nil =>
    cases fuel with
    | zero => cases hfuel
    | succ fuel => exact ⟨[], by simp [pieces], rfl⟩
  | cons c l ih =>
    cases fuel with
    | zero => cases hfuel
    | succ fuel =>
      obtain ⟨ps, hps, hl⟩ := ih (Nat.lt_of_succ_lt_succ hfuel)
      obtain ⟨p, hp, hc⟩ := pieces_spelled (hspell.spelled c) (hspell.visible c) fuel
        (l.flatMap spell ++ '"' :: rest)
      refine ⟨p :: ps, ?_, by rw [hc, hl]; rfl⟩
      rw [List.flatMap_cons, List.append_assoc, hp, hps]
      rfl

theorem Spelled.length_pos {c : Char} {l : List Char} (h : Spelled c l) : 0 < l.length := by
  cases h <;> simp

theorem length_le_flatMap (hspell : Spelling spell) (l : List Char) :
    l.length ≤ (l.flatMap spell).length := by
  induction l with
  | nil => simp
  | cons c l ih =>
    have hpos := Spelled.length_pos (hspell.spelled c)
    simp only [List.flatMap_cons, List.length_append, List.length_cons]
    omega

theorem stringBody_literal (hspell : Spelling spell) (text : String) (rest : List Char) :
    stringBody (text.toList.flatMap spell ++ '"' :: rest) = some (some text, rest) := by
  have hfuel : text.toList.length < (text.toList.flatMap spell ++ '"' :: rest).length + 1 := by
    have hlength := length_le_flatMap hspell text.toList
    simp only [List.length_append]
    omega
  obtain ⟨ps, hps, htext⟩ := pieces_literal hspell text.toList rest hfuel
  rw [stringBody, hps]
  simp [htext]

end Document

end CoercionTrace
