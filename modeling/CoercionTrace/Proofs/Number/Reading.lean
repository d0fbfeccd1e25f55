import CoercionTrace.Proofs.Number.Nearest
import CoercionTrace.Proofs.Number.Numerals

/-!
# The reading of numbers

A text is trimmed before it is read, by another notion of white space than the language has. The reading
also lets digits of a radix have a plus sign, and gives up on values that do not fit 64 bits. Main
statement: those are all differences, and a literal with a radix becomes the number nearest to its value
(`ofText_exact`).
-/

namespace CoercionTrace

namespace Number

variable {s ds : List Char} {c : Char} {radix n v : Nat}

theorem isNaN_negate (n : Number) : n.negate.isNaN = n.isNaN := by
  rw [isNaN, isNaN, exponentField_negate, fraction_negate]

theorem isNaN_round (num den : Nat) : (round num den).isNaN = false := by
  unfold round
  split
  · decide
  · dsimp only
    generalize (_ + 1074 : Int).toNat * twoTo 52 + nearestEven _ _ = code
    split
    · decide
    · next hcode =>
      have hcode : code < 2047 * 4503599627370496 := by rwa [not_le, twoTo_52] at hcode
      have hfield : (⟨UInt64.ofNat code⟩ : Number).exponentField ≠ 2047 := by
        rw [exponentField, UInt64.toNat_ofNat_of_lt' (hcode.trans (by decide)), twoTo_52]
        omega
      simp [isNaN, hfield]

theorem isNaN_ofDecimal (d : Nat) (x : Int) : (ofDecimal d x).isNaN = false := by
  unfold ofDecimal
  split
  · decide
  · dsimp only
    split
    · decide
    · split
      · decide
      · exact isNaN_round _ _

theorem isNaN_readDecimal {m : Number} (h : readDecimal s = some m) : m.isNaN = false := by
  rw [readDecimal_eq, Option.ite_none_left_eq_some, Option.map_eq_some_iff] at h
  obtain ⟨-, x, -, rfl⟩ := h
  exact isNaN_ofDecimal _ _

theorem isNaN_readUnsigned {signed : Bool} {m : Number} (h : readUnsigned signed s = some m) :
    m.isNaN = false := by
  unfold readUnsigned at h
  split at h
  · cases h
    decide
  · split at h
    · rw [Option.ite_none_left_eq_some, Option.bind_eq_some_iff] at h
      obtain ⟨-, n, -, h⟩ := h
      split at h <;> cases h
      exact isNaN_round n 1
    · exact isNaN_readDecimal h

theorem isNaN_getD {o : Option Number} (h : ∀ m, o = some m → m.isNaN = false) :
    (o.getD nan).isNaN = false ↔ o.isSome = true := by
  cases o with
  | none => exact iff_of_false (by decide) (by decide)
  | some m => exact iff_of_true (h m rfl) rfl

inductive PlusRadix : List Char → Nat → Prop
  | mk {mark : Char} {radix : Nat} {ds : List Char} {n : Nat} (hmark : Announces mark radix)
      (hds : Denotes radix ds n) : PlusRadix ('0' :: mark :: '+' :: ds) n

theorem readUnsigned_signed_iff : (readUnsigned true s).isSome = true ↔
    s = "Infinity".toList ∨ DecimalLiteral s := by
  unfold readUnsigned
  split
  · next h => simp [h]
  · next h =>
    rw [or_iff_right h]
    split
    · next hradix =>
      refine iff_of_false (by simp) fun hdecimal => ?_
      rw [hdecimal.radixLiteral] at hradix
      cases hradix
    · exact decimalLiteral_iff.symm

theorem readUnsigned_radix (h : RadixLiteral s n ∨ PlusRadix s n) :
    readUnsigned false s = if n < radixLimit then some (ofNat n) else none := by
  obtain ⟨mark, radix, ds, hmark, rfl, hds⟩ : ∃ mark radix ds, Announces mark radix ∧
      s = '0' :: mark :: ds ∧ readRadix radix ds = some n := by
    rcases h with h | h
    · obtain ⟨hmark, hds⟩ := h
      exact ⟨_, _, _, hmark, rfl, readRadix_eq_some_iff.2 (.inl hds)⟩
    · obtain ⟨hmark, hds⟩ := h
      exact ⟨_, _, _, hmark, rfl, readRadix_eq_some_iff.2 (.inr ⟨_, rfl, hds⟩)⟩
  have hliteral : radixLiteral ('0' :: mark :: ds) = some (radix, ds) :=
    radixLiteral_eq_some_iff.2 ⟨mark, hmark, rfl⟩
  rw [readUnsigned, if_neg (by simp), hliteral]
  simp [hds]

theorem readUnsigned_unsigned_iff : (readUnsigned false s).isSome = true ↔
    s = "Infinity".toList ∨ DecimalLiteral s ∨
      ∃ n, (RadixLiteral s n ∨ PlusRadix s n) ∧ n < radixLimit := by
  constructor
  · intro h
    unfold readUnsigned at h
    split at h
    · next hinfinity => exact .inl hinfinity
    · split at h
      · next radix ds hliteral =>
        obtain ⟨mark, hmark, rfl⟩ := radixLiteral_eq_some_iff.1 hliteral
        refine .inr (.inr ?_)
        obtain ⟨m, hm⟩ := Option.isSome_iff_exists.1 h
        rw [if_neg Bool.false_ne_true, Option.bind_eq_some_iff] at hm
        obtain ⟨n, hn, hm⟩ := hm
        refine ⟨n, ?_, (Option.ite_none_right_eq_some.1 hm).1⟩
        rcases readRadix_eq_some_iff.1 hn with hds | ⟨ds', rfl, hds⟩
        · exact .inl ⟨hmark, hds⟩
        · exact .inr ⟨hmark, hds⟩
      · exact .inr (.inl (decimalLiteral_iff.2 h))
  · rintro (rfl | h | ⟨n, h, hn⟩)
    · rfl
    · unfold readUnsigned
      split
      · rfl
      · rw [h.radixLiteral]
        exact decimalLiteral_iff.1 h
    · rw [readUnsigned_radix h, if_pos hn]
      rfl

def Oversized (s : List Char) : Prop := ∃ n, RadixLiteral s n ∧ radixLimit ≤ n

def Misspelled (s : List Char) : Prop := ∃ n, PlusRadix s n ∧ n < radixLimit

def Accepted (s : List Char) : Prop := (Numeral s ∧ ¬ Oversized s) ∨ Misspelled s

theorem RadixLiteral.unique {m : Nat} (h : RadixLiteral s n) (h' : RadixLiteral s m) : n = m := by
  obtain ⟨hmark, hds⟩ := h
  obtain ⟨hmark', hds'⟩ := h'
  cases hmark <;> cases hmark' <;> exact hds.unique hds'

theorem DecimalLiteral.not_radix (h : DecimalLiteral s) : ¬ RadixLiteral s n := by
  rintro ⟨hmark, -⟩
  have hnone := h.radixLiteral
  rw [radixLiteral_eq_some_iff.2 ⟨_, hmark, rfl⟩] at hnone
  cases hnone

theorem numeral_signed_iff (hc : c = '-' ∨ c = '+') :
    Numeral (c :: s) ↔ s = "Infinity".toList ∨ DecimalLiteral s := by
  constructor
  · intro h
    generalize htext : c :: s = text at h
    cases h with
    | empty => cases htext
    | infinity hsign =>
      cases hsign <;> cases htext
      · rcases hc with h | h <;> cases h
      · exact .inl rfl
      · exact .inl rfl
    | decimal hsign hs =>
      cases hsign <;> cases htext
      · obtain ⟨d, rest, he, hd⟩ := hs.head
        cases he
        rcases hc with rfl | rfl <;> exact absurd hd (by decide)
      · exact .inr hs
      · exact .inr hs
    | radix hs =>
      obtain ⟨hmark, -⟩ := hs
      cases htext
      rcases hc with h | h <;> cases h
  · have hsign : Sign [c] := by
      rcases hc with rfl | rfl
      · exact .minus
      · exact .plus
    rintro (rfl | h)
    · exact .infinity hsign
    · exact .decimal hsign h

theorem numeral_unsigned_iff (hne : s ≠ []) (hhead : ∀ c ∈ s.head?, c ≠ '-' ∧ c ≠ '+') :
    Numeral s ↔ s = "Infinity".toList ∨ DecimalLiteral s ∨ ∃ n, RadixLiteral s n := by
  constructor
  · rintro (_ | hsign | ⟨hsign, hs⟩ | hs)
    · exact absurd rfl hne
    · cases hsign
      · exact .inl rfl
      · exact absurd rfl (hhead '+' rfl).2
      · exact absurd rfl (hhead '-' rfl).1
    · cases hsign
      · exact .inr (.inl hs)
      · exact absurd rfl (hhead '+' rfl).2
      · exact absurd rfl (hhead '-' rfl).1
    · exact .inr (.inr ⟨_, hs⟩)
  · rintro (rfl | h | ⟨n, h⟩)
    · exact .infinity .none
    · exact .decimal .none h
    · exact .radix h

theorem accepted_signed_iff (hc : c = '-' ∨ c = '+') :
    Accepted (c :: s) ↔ s = "Infinity".toList ∨ DecimalLiteral s := by
  have hzero : c ≠ '0' := by rcases hc with rfl | rfl <;> decide
  have hfits : ¬ Oversized (c :: s) := by
    rintro ⟨n, ⟨hmark, -⟩, -⟩
    exact hzero rfl
  have hspelled : ¬ Misspelled (c :: s) := by
    rintro ⟨n, ⟨hmark, -⟩, -⟩
    exact hzero rfl
  rw [Accepted, or_iff_left hspelled, and_iff_left hfits, numeral_signed_iff hc]

theorem accepted_unsigned_iff (hne : s ≠ []) (hhead : ∀ c ∈ s.head?, c ≠ '-' ∧ c ≠ '+') :
    Accepted s ↔ s = "Infinity".toList ∨ DecimalLiteral s ∨
      ∃ n, (RadixLiteral s n ∨ PlusRadix s n) ∧ n < radixLimit := by
  rw [Accepted, numeral_unsigned_iff hne hhead]
  constructor
  · rintro (⟨h | h | ⟨n, h⟩, hfits⟩ | ⟨n, h, hn⟩)
    · exact .inl h
    · exact .inr (.inl h)
    · exact .inr (.inr ⟨n, .inl h, not_le.1 fun hle => hfits ⟨n, h, hle⟩⟩)
    · exact .inr (.inr ⟨n, .inr h, hn⟩)
  · rintro (rfl | h | ⟨n, h | h, hn⟩)
    · refine .inl ⟨.inl rfl, ?_⟩
      rintro ⟨n, h, -⟩
      cases h
    · exact .inl ⟨.inr (.inl h), fun ⟨n, hradix, _⟩ => h.not_radix hradix⟩
    · refine .inl ⟨.inr (.inr ⟨n, h⟩), fun ⟨m, h', hm⟩ => ?_⟩
      rw [h'.unique h] at hm
      exact absurd hn hm.not_gt
    · exact .inr ⟨n, h, hn⟩

theorem isNaN_ofText_iff (text : String) :
    (ofText text).isNaN = false ↔ Accepted (Text.trim text.toList) := by
  unfold ofText
  generalize Text.trim text.toList = s
  split
  · refine iff_of_true (by decide) (.inl ⟨.empty, ?_⟩)
    rintro ⟨n, h, -⟩
    cases h
  · rw [accepted_signed_iff (.inl rfl), ← readUnsigned_signed_iff, isNaN_getD, Option.isSome_map]
    intro m hm
    obtain ⟨m, hread, rfl⟩ := Option.map_eq_some_iff.1 hm
    rw [isNaN_negate, isNaN_readUnsigned hread]
  · rw [accepted_signed_iff (.inr rfl), ← readUnsigned_signed_iff]
    exact isNaN_getD fun m => isNaN_readUnsigned
  · next hne hminus hplus =>
    have hhead : ∀ c ∈ s.head?, c ≠ '-' ∧ c ≠ '+' := by
      rintro c hc
      obtain ⟨rest, rfl⟩ := List.head?_eq_some_iff.1 hc
      exact ⟨fun h => hminus rest (by rw [h]), fun h => hplus rest (by rw [h])⟩
    rw [accepted_unsigned_iff hne hhead, ← readUnsigned_unsigned_iff]
    exact isNaN_getD fun m => isNaN_readUnsigned

def languageBlanks : Text.Ranges :=
  [(0x9, 0xD), (0x20, 0x20), (0xA0, 0xA0), (0x1680, 0x1680), (0x2000, 0x200A), (0x2028, 0x2029),
    (0x202F, 0x202F), (0x205F, 0x205F), (0x3000, 0x3000), (0xFEFF, 0xFEFF)]

def isLanguageBlank (c : Char) : Bool := languageBlanks.contains c

def isPlain (c : Char) : Bool := 0x20 < c.toNat && c.toNat < 0x7F

theorem isPlain_of_contains {r : Text.Ranges}
    (hr : (r.all fun p => p.2 ≤ 0x20 || 0x7F ≤ p.1) = true) (h : r.contains c = true) :
    isPlain c = false := by
  obtain ⟨p, hp, hc⟩ := List.any_eq_true.1 h
  have hrange := List.all_eq_true.1 hr p hp
  simp only [Bool.and_eq_true, Bool.or_eq_true, decide_eq_true_eq] at hc hrange
  rw [isPlain, Bool.and_eq_false_iff, decide_eq_false_iff_not, decide_eq_false_iff_not]
  omega

theorem isPlain_of_isBlank : Text.isBlank c = true → isPlain c = false :=
  isPlain_of_contains (by decide)

theorem isPlain_of_isLanguageBlank : isLanguageBlank c = true → isPlain c = false :=
  isPlain_of_contains (by decide)

theorem IsDigit.isPlain (h : IsDigit radix c v) : isPlain c = true := by
  obtain ⟨-, alphabet, hmem, hget⟩ := h
  have hall : ∀ alphabet ∈ alphabets, alphabet.all Number.isPlain = true := by decide
  exact List.all_eq_true.1 (hall alphabet hmem) c (List.mem_of_getElem? hget)

theorem Denotes.isPlain (h : Denotes radix ds n) : ∀ c ∈ ds, isPlain c = true := fun c hc =>
  (h.digits c hc).choose_spec.isPlain

theorem Announces.isPlain (h : Announces c radix) : isPlain c = true := by
  cases h <;> decide

theorem DecimalLiteral.isPlain (h : DecimalLiteral s) : ∀ c ∈ s, isPlain c = true := by
  intro c hc
  have hmarks : ['.', 'e', 'E', '+', '-'].all Number.isPlain = true := by decide
  rcases h.chars c hc with hdigit | hmark
  · exact (isDecimalDigit_iff.2 hdigit).choose_spec.isPlain
  · exact List.all_eq_true.1 hmarks c hmark

theorem Numeral.isPlain (h : Numeral s) : ∀ c ∈ s, isPlain c = true := by
  have hsigned : ∀ sign rest, Sign sign → (∀ c ∈ rest, Number.isPlain c = true) →
      ∀ c ∈ sign ++ rest, Number.isPlain c = true := by
    intro sign rest hsign hrest c hc
    have hsigns : sign.all Number.isPlain = true := by cases hsign <;> decide
    exact (List.mem_append.1 hc).elim (List.all_eq_true.1 hsigns c) (hrest c)
  cases h with
  | empty => nofun
  | infinity hsign => exact hsigned _ _ hsign (List.all_eq_true.1 (by decide))
  | decimal hsign hs => exact hsigned _ _ hsign hs.isPlain
  | radix hs =>
    obtain ⟨hmark, hds⟩ := hs
    simpa [hmark.isPlain, show Number.isPlain '0' = true by decide] using hds.isPlain

theorem Misspelled.isPlain (h : Misspelled s) : ∀ c ∈ s, isPlain c = true := by
  obtain ⟨n, ⟨hmark, hds⟩, -⟩ := h
  simpa [hmark.isPlain, show Number.isPlain '0' = true by decide,
    show Number.isPlain '+' = true by decide] using hds.isPlain

theorem trim_eq_strip_of_accepted (hlanguage : Numeral (Text.strip isLanguageBlank s))
    (hreading : Accepted (Text.trim s)) : Text.trim s = Text.strip isLanguageBlank s := by
  have hplain : ∀ c ∈ Text.trim s, isPlain c = true :=
    hreading.elim (fun h => h.1.isPlain) Misspelled.isPlain
  calc Text.trim s = s.filter isPlain :=
        Text.strip_eq_filter hplain fun _ => isPlain_of_isBlank
    _ = Text.strip isLanguageBlank s :=
        (Text.strip_eq_filter hlanguage.isPlain fun _ => isPlain_of_isLanguageBlank).symm

theorem Misspelled.not_numeral (h : Misspelled s) : ¬ Numeral s := by
  obtain ⟨n, ⟨hmark, hds⟩, -⟩ := h
  rw [numeral_unsigned_iff (by simp) (by rintro _ ⟨⟩; decide)]
  rintro (h | h | ⟨m, ⟨hmark', hds'⟩⟩)
  · cases h
  · have hnone := h.radixLiteral
    rw [radixLiteral_eq_some_iff.2 ⟨_, hmark, rfl⟩] at hnone
    cases hnone
  · obtain ⟨v, hv⟩ := hds'.digits '+' List.mem_cons_self
    exact not_isDigit_plus hv

theorem Oversized.numeral (h : Oversized s) : Numeral s := .radix h.choose_spec.1

theorem accepted_iff_numeral_iff : (Accepted s ↔ Numeral s) ↔ ¬ Oversized s ∧ ¬ Misspelled s := by
  constructor
  · refine fun hsame => ⟨fun hsize => ?_, fun hspelled => ?_⟩
    · exact (hsame.2 hsize.numeral).elim (fun h => h.2 hsize) fun h => h.not_numeral hsize.numeral
    · exact hspelled.not_numeral (hsame.1 (.inr hspelled))
  · rintro ⟨hsize, hspelled⟩
    rw [Accepted, or_iff_left hspelled, and_iff_left hsize]

theorem ofText_radix {text : String} (h : RadixLiteral (Text.trim text.toList) n) (hn : n < radixLimit) :
    ofText text = ofNat n := by
  unfold ofText
  generalize Text.trim text.toList = s at h
  have hread : readUnsigned false s = some (ofNat n) := by
    rw [readUnsigned_radix (.inl h), if_pos hn]
  obtain ⟨hmark, hds⟩ := h
  exact congrArg (Option.getD · nan) hread

/-- The texts that the reading takes for numbers are known exactly, and a literal with a radix becomes
the nearest number. A text is taken as the language takes it if both trim it alike and it is neither
oversized nor misspelled, or if it is a number for neither. -/
theorem ofText_exact (text : String) :
    ((ofText text).isNaN = true ↔ ¬ Accepted (Text.trim text.toList)) ∧
    (∀ n, RadixLiteral (Text.trim text.toList) n → n < radixLimit → Nearest n (ofText text)) ∧
    (((ofText text).isNaN = true ↔ ¬ Numeral (Text.strip isLanguageBlank text.toList)) ↔
      if Text.trim text.toList = Text.strip isLanguageBlank text.toList then
        ¬ Oversized (Text.trim text.toList) ∧ ¬ Misspelled (Text.trim text.toList)
      else ¬ Numeral (Text.strip isLanguageBlank text.toList) ∧
        ¬ Accepted (Text.trim text.toList)) := by
  have hnumber : (ofText text).isNaN = true ↔ ¬ Accepted (Text.trim text.toList) := by
    rw [← isNaN_ofText_iff, Bool.not_eq_false]
  refine ⟨hnumber, fun n h hn => ?_, ?_⟩
  · rw [ofText_radix h hn]
    exact nearest_ofNat hn
  rw [hnumber, not_iff_not]
  split
  · next halike => rw [← halike, accepted_iff_numeral_iff]
  · next halike =>
    have hneither : ¬ (Numeral (Text.strip isLanguageBlank text.toList) ∧
        Accepted (Text.trim text.toList)) := fun h => halike (trim_eq_strip_of_accepted h.1 h.2)
    tauto

theorem ofText_exact_hexadecimal :
    RadixLiteral (Text.trim " 0xFf".toList) 255 ∧ Nearest 255 (ofText " 0xFf") ∧
      ((ofText " 0xFf").isNaN = true ↔ ¬ Numeral (Text.strip isLanguageBlank " 0xFf".toList)) ∧
      Misspelled (Text.trim "0x+f".toList) ∧
      ¬ ((ofText "0x+f").isNaN = true ↔ ¬ Numeral (Text.strip isLanguageBlank "0x+f".toList)) := by
  have hf : IsDigit 16 'f' 15 := ⟨by decide, _, List.mem_cons_self, rfl⟩
  have hF : IsDigit 16 'F' 15 := ⟨by decide, _, List.mem_cons_of_mem _ List.mem_cons_self, rfl⟩
  have hliteral : RadixLiteral (Text.trim " 0xFf".toList) 255 :=
    .mk .hexadecimal (Denotes.append (.digit hF) hf)
  have hspelled : Misspelled (Text.trim "0x+f".toList) := ⟨15, ⟨.hexadecimal, .digit hf⟩, by decide⟩
  obtain ⟨-, hnearest, hexact⟩ := ofText_exact " 0xFf"
  obtain ⟨-, -, hexact'⟩ := ofText_exact "0x+f"
  rw [if_pos (by decide)] at hexact hexact'
  refine ⟨hliteral, hnearest 255 hliteral (by decide), hexact.2 ⟨?_, fun h => ?_⟩, hspelled,
    fun h => (hexact'.1 h).2 hspelled⟩
  · rintro ⟨n, h, hn⟩
    rw [h.unique hliteral] at hn
    exact absurd hn (by decide)
  · exact h.not_numeral (.radix hliteral)

end Number

end CoercionTrace
