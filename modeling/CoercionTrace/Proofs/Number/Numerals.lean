import CoercionTrace.Number.Reading
import CoercionTrace.Proofs.Text.Scanning
import Mathlib.Data.List.Induction

/-!
# Numerals

The texts that the language takes for numbers, by their grammar. Main statements: the readers of digits
with a radix and of decimals take what the grammar has, but that a plus sign may stand before the digits
of a radix (`readRadix_eq_some_iff`, `decimalLiteral_iff`).
-/

namespace CoercionTrace

namespace Number

variable {s ds : List Char} {c : Char} {radix n v : Nat}

def alphabets : List (List Char) := ["0123456789abcdef".toList, "0123456789ABCDEF".toList]

def IsDigit (radix : Nat) (c : Char) (v : Nat) : Prop :=
  v < radix ∧ ∃ alphabet ∈ alphabets, alphabet[v]? = some c

inductive Denotes (radix : Nat) : List Char → Nat → Prop
  | digit {c : Char} {v : Nat} (hc : IsDigit radix c v) : Denotes radix [c] v
  | append {ds : List Char} {n : Nat} {c : Char} {v : Nat} (hds : Denotes radix ds n)
      (hc : IsDigit radix c v) : Denotes radix (ds ++ [c]) (n * radix + v)

def IsDecimalDigit (c : Char) : Prop := ∃ v, IsDigit 10 c v

inductive Sign : List Char → Prop
  | none : Sign []
  | plus : Sign ['+']
  | minus : Sign ['-']

inductive Mantissa : List Char → Prop
  | whole {ds : List Char} (hds : ∀ c ∈ ds, IsDecimalDigit c) (hne : ds ≠ []) : Mantissa ds
  | pointed {ds part : List Char} (hds : ∀ c ∈ ds, IsDecimalDigit c)
      (hpart : ∀ c ∈ part, IsDecimalDigit c) (hne : ds ≠ [] ∨ part ≠ []) :
      Mantissa (ds ++ '.' :: part)

inductive Exponent : List Char → Prop
  | none : Exponent []
  | some {e : Char} {sign ds : List Char} (he : e = 'e' ∨ e = 'E') (hsign : Sign sign)
      (hds : ∀ c ∈ ds, IsDecimalDigit c) (hne : ds ≠ []) : Exponent (e :: (sign ++ ds))

inductive DecimalLiteral : List Char → Prop
  | mk {m x : List Char} (hm : Mantissa m) (hx : Exponent x) : DecimalLiteral (m ++ x)

inductive Announces : Char → Nat → Prop
  | hexadecimal : Announces 'x' 16
  | hexadecimalUpper : Announces 'X' 16
  | octal : Announces 'o' 8
  | octalUpper : Announces 'O' 8
  | binary : Announces 'b' 2
  | binaryUpper : Announces 'B' 2

inductive RadixLiteral : List Char → Nat → Prop
  | mk {mark : Char} {radix : Nat} {ds : List Char} {n : Nat} (hmark : Announces mark radix)
      (hds : Denotes radix ds n) : RadixLiteral ('0' :: mark :: ds) n

inductive Numeral : List Char → Prop
  | empty : Numeral []
  | infinity {sign : List Char} (hsign : Sign sign) : Numeral (sign ++ "Infinity".toList)
  | decimal {sign s : List Char} (hsign : Sign sign) (hs : DecimalLiteral s) : Numeral (sign ++ s)
  | radix {s : List Char} {n : Nat} (hs : RadixLiteral s n) : Numeral s

theorem digitValue_filter (radix : Nat) (c : Char) :
    digitValue radix c = (digitValue 16 c).filter fun v => decide (v < radix) := by
  unfold digitValue
  simp only [Char.le_def, UInt32.le_iff_toNat_le, Char.toNat_val]
  grind

theorem hexDigit_iff : digitValue 16 c = some v ↔ ∃ alphabet ∈ alphabets, alphabet[v]? = some c := by
  constructor
  · intro h
    have hascii : ∀ i < 128, ∀ v ∈ digitValue 16 (Char.ofNat i),
        ∃ alphabet ∈ alphabets, alphabet[v]? = some (Char.ofNat i) := by decide +kernel
    have hc : c.toNat < 128 := by
      unfold digitValue at h
      simp only [Char.le_def, UInt32.le_iff_toNat_le, Char.toNat_val] at h
      grind
    simpa using hascii c.toNat hc v (by rwa [Char.ofNat_toNat])
  · rintro ⟨alphabet, hmem, hget⟩
    have hlisted : ∀ alphabet ∈ alphabets, ∀ v < alphabet.length,
        digitValue 16 (alphabet.getD v '0') = some v := by decide +kernel
    have hvalue := hlisted alphabet hmem v (List.getElem?_eq_some_iff.1 hget).1
    rwa [List.getD_eq_getElem?_getD, hget] at hvalue

theorem digitValue_eq_some_iff : digitValue radix c = some v ↔ IsDigit radix c v := by
  rw [digitValue_filter, Option.filter_eq_some_iff, hexDigit_iff, decide_eq_true_eq, IsDigit, and_comm]

theorem isDecimalDigit_iff : IsDecimalDigit c ↔ asciiDigit c = true := by
  simp only [IsDecimalDigit, ← digitValue_eq_some_iff, ← Option.isSome_iff_exists]
  unfold digitValue asciiDigit
  simp only [Char.le_def, UInt32.le_iff_toNat_le, Char.toNat_val]
  grind

theorem decimalDigits_iff : (∀ c ∈ ds, IsDecimalDigit c) ↔ ds.all asciiDigit = true := by
  simp only [isDecimalDigit_iff, List.all_eq_true]

theorem foldDigits_concat (radix acc : Nat) (ds : List Char) (c : Char) :
    foldDigits radix acc (ds ++ [c]) = (foldDigits radix acc ds).bind fun n =>
      (digitValue radix c).map fun v => n * radix + v := by
  induction ds generalizing acc with
  | nil =>
    cases h : digitValue radix c <;> simp [foldDigits, h]
  | cons d ds ih =>
    simp only [List.cons_append, foldDigits, Option.bind_assoc]
    exact Option.bind_congr fun v _ => ih _

theorem denotes_iff : Denotes radix ds n ↔ ds ≠ [] ∧ foldDigits radix 0 ds = some n := by
  constructor
  · intro h
    induction h with
    | digit hc => simp [foldDigits, digitValue_eq_some_iff.2 hc]
    | append _ hc ih => simp [foldDigits_concat, ih.2, digitValue_eq_some_iff.2 hc]
  · induction ds using List.reverseRecOn generalizing n with
    | nil => exact fun h => absurd rfl h.1
    | append_singleton ds c ih =>
      rintro ⟨-, h⟩
      simp only [foldDigits_concat, Option.bind_eq_some_iff, Option.map_eq_some_iff] at h
      obtain ⟨m, hm, v, hv, rfl⟩ := h
      have hc := digitValue_eq_some_iff.1 hv
      by_cases hds : ds = []
      · subst hds
        obtain rfl : 0 = m := Option.some.inj hm
        simpa using Denotes.digit hc
      · exact .append (ih ⟨hds, hm⟩) hc

theorem Denotes.unique {m : Nat} (h : Denotes radix ds n) (h' : Denotes radix ds m) : n = m :=
  Option.some.inj ((denotes_iff.1 h).2.symm.trans (denotes_iff.1 h').2)

theorem Denotes.digits (h : Denotes radix ds n) : ∀ c ∈ ds, ∃ v, IsDigit radix c v := by
  induction h with
  | digit hc => simpa using ⟨_, hc⟩
  | append _ hc ih =>
    intro d hd
    rcases List.mem_append.1 hd with hd | hd
    · exact ih d hd
    · exact ⟨_, List.mem_singleton.1 hd ▸ hc⟩

theorem not_isDigit_plus : ¬ IsDigit radix '+' v := by
  rw [← digitValue_eq_some_iff, digitValue_filter, show digitValue 16 '+' = none by decide]
  simp

theorem radixLiteral_eq_some_iff :
    radixLiteral s = some (radix, ds) ↔ ∃ mark, Announces mark radix ∧ s = '0' :: mark :: ds := by
  constructor
  · intro h
    unfold radixLiteral at h
    split at h <;> cases h
    · exact ⟨_, .hexadecimal, rfl⟩
    · exact ⟨_, .hexadecimalUpper, rfl⟩
    · exact ⟨_, .octal, rfl⟩
    · exact ⟨_, .octalUpper, rfl⟩
    · exact ⟨_, .binary, rfl⟩
    · exact ⟨_, .binaryUpper, rfl⟩
  · rintro ⟨_, hmark, rfl⟩
    cases hmark <;> rfl

theorem readRadix_eq_some_iff : readRadix radix s = some n ↔
    Denotes radix s n ∨ ∃ ds, s = '+' :: ds ∧ Denotes radix ds n := by
  have hread : ∀ ds : List Char, (if ds.isEmpty then none else foldDigits radix 0 ds) = some n ↔
      Denotes radix ds n := by
    intro ds
    rw [Option.ite_none_left_eq_some, List.isEmpty_iff, denotes_iff]
  unfold readRadix
  split
  · next ds =>
    rw [hread]
    constructor
    · exact fun h => .inr ⟨ds, rfl, h⟩
    · rintro (h | ⟨_, ⟨⟩, h⟩)
      · obtain ⟨v, hv⟩ := h.digits '+' List.mem_cons_self
        exact absurd hv not_isDigit_plus
      · exact h
  · next hplus =>
    rw [hread]
    constructor
    · exact .inl
    · rintro (h | ⟨ds, rfl, -⟩)
      · exact h
      · exact absurd rfl (hplus ds)

theorem Exponent.head (h : Exponent s) : ∀ c ∈ s.head?, asciiDigit c = false ∧ c ≠ '.' := by
  cases h with
  | none => nofun
  | some he =>
    rintro _ ⟨⟩
    rcases he with rfl | rfl <;> decide

theorem isSome_digits_iff (ds : List Char) (x : Int) :
    (if ds.isEmpty || !ds.all asciiDigit then none else some x).isSome = true ↔
      ds ≠ [] ∧ ∀ c ∈ ds, IsDecimalDigit c := by
  rw [decimalDigits_iff]
  cases ds <;> simp

theorem exponent_of_readExponent (h : (readExponent s).isSome = true) : Exponent s := by
  unfold readExponent at h
  split at h
  · exact .none
  · split at h
    · next e rest he =>
      split at h
      next negative digits hsplit =>
      obtain ⟨sign, hsign, rfl⟩ : ∃ sign, Sign sign ∧ rest = sign ++ digits := by
        split at hsplit <;> cases hsplit
        · exact ⟨_, .minus, rfl⟩
        · exact ⟨_, .plus, rfl⟩
        · exact ⟨_, .none, rfl⟩
      obtain ⟨hne, hds⟩ := (isSome_digits_iff digits _).1 h
      exact .some he hsign hds hne
    · cases h

theorem Exponent.readExponent (h : Exponent s) : (readExponent s).isSome = true := by
  cases h with
  | none => rfl
  | @some e sign ds he hsign hds hne =>
    simp only [Number.readExponent, if_pos he]
    cases hsign with
    | minus => exact (isSome_digits_iff ds _).2 ⟨hne, hds⟩
    | plus => exact (isSome_digits_iff ds _).2 ⟨hne, hds⟩
    | none =>
      -- Without a sign the first digit decides, since no digit is one.
      have hdigit : ∀ c rest, ds = c :: rest → asciiDigit c = true := by
        rintro c rest rfl
        exact isDecimalDigit_iff.1 (hds c List.mem_cons_self)
      split
      · next rest hrest => cases hdigit _ _ hrest
      · next rest hrest => cases hdigit _ _ hrest
      · exact (isSome_digits_iff ds _).2 ⟨hne, hds⟩

theorem readExponent_isSome_iff : (readExponent s).isSome = true ↔ Exponent s :=
  ⟨exponent_of_readExponent, Exponent.readExponent⟩

def behindPoint : List Char → List Char × List Char
  | '.' :: after => (after.takeWhile asciiDigit, after.dropWhile asciiDigit)
  | rest => ([], rest)

theorem readDecimal_eq (s : List Char) : readDecimal s =
    if (s.takeWhile asciiDigit).isEmpty && (behindPoint (s.dropWhile asciiDigit)).1.isEmpty then none
    else (readExponent (behindPoint (s.dropWhile asciiDigit)).2).map fun x =>
      ofDecimal (decimalValue (s.takeWhile asciiDigit ++ (behindPoint (s.dropWhile asciiDigit)).1))
        (x - (behindPoint (s.dropWhile asciiDigit)).1.length) := by
  unfold readDecimal
  generalize s.dropWhile asciiDigit = rest
  dsimp only
  split
  · rfl
  · next hpoint => rw [behindPoint.eq_2 _ hpoint]

theorem readDecimal_isSome_iff : (readDecimal s).isSome = true ↔
    ¬ (s.takeWhile asciiDigit = [] ∧ (behindPoint (s.dropWhile asciiDigit)).1 = []) ∧
      Exponent (behindPoint (s.dropWhile asciiDigit)).2 := by
  rw [readDecimal_eq, ← readExponent_isSome_iff]
  split <;> simp_all

theorem isDecimalDigit_of_takeWhile : ∀ c ∈ s.takeWhile asciiDigit, IsDecimalDigit c :=
  fun _ hc => isDecimalDigit_iff.2 (List.mem_takeWhile_imp hc)

theorem behindPoint_of_head (h : ∀ c ∈ s.head?, c ≠ '.') : behindPoint s = ([], s) := by
  refine behindPoint.eq_2 s ?_
  rintro after rfl
  exact h '.' rfl rfl

theorem behindPoint_split (s : List Char) : s = (behindPoint s).2 ∧ (behindPoint s).1 = [] ∨
    s = '.' :: ((behindPoint s).1 ++ (behindPoint s).2) ∧ ∀ c ∈ (behindPoint s).1, IsDecimalDigit c := by
  unfold behindPoint
  split
  · exact .inr ⟨by rw [List.takeWhile_append_dropWhile], isDecimalDigit_of_takeWhile⟩
  · exact .inl ⟨rfl, rfl⟩

theorem decimalLiteral_iff : DecimalLiteral s ↔ (readDecimal s).isSome = true := by
  rw [readDecimal_isSome_iff]
  constructor
  · rintro @⟨m, x, hm, hx⟩
    have hstop : ∀ c ∈ x.head?, asciiDigit c = false := fun c hc => (hx.head c hc).1
    cases hm with
    | whole hds hne =>
      obtain ⟨htake, hdrop⟩ := takeWhile_append_of_head (fun c hc => isDecimalDigit_iff.1 (hds c hc)) hstop
      rw [htake, hdrop, behindPoint_of_head fun c hc => (hx.head c hc).2]
      exact ⟨fun h => hne h.1, hx⟩
    | @pointed ds part hds hpart hne =>
      obtain ⟨htake, hdrop⟩ := @takeWhile_append_of_head _ asciiDigit ds ('.' :: (part ++ x))
        (fun c hc => isDecimalDigit_iff.1 (hds c hc)) (by rintro _ ⟨⟩; decide)
      obtain ⟨htake', hdrop'⟩ :=
        takeWhile_append_of_head (fun c hc => isDecimalDigit_iff.1 (hpart c hc)) hstop
      rw [List.append_assoc, List.cons_append, htake, hdrop, behindPoint, htake', hdrop']
      exact ⟨fun h => hne.elim (· h.1) (· h.2), hx⟩
  · rintro ⟨hne, hx⟩
    have hs : s.takeWhile asciiDigit ++ s.dropWhile asciiDigit = s := List.takeWhile_append_dropWhile
    rw [← hs]
    rcases behindPoint_split (s.dropWhile asciiDigit) with ⟨hrest, hpart⟩ | ⟨hrest, hpart⟩
    · rw [hrest]
      exact .mk (.whole isDecimalDigit_of_takeWhile fun h => hne ⟨h, hpart⟩) hx
    · rw [hrest, ← List.cons_append, ← List.append_assoc]
      refine .mk (.pointed isDecimalDigit_of_takeWhile hpart ?_) hx
      rwa [← not_and_or]

theorem DecimalLiteral.head (h : DecimalLiteral s) : ∃ c rest, s = c :: rest ∧
    (asciiDigit c = true ∨ c = '.') := by
  obtain ⟨hm, -⟩ := h
  cases hm with
  | @whole ds hds hne =>
    obtain ⟨c, ds, rfl⟩ := List.exists_cons_of_ne_nil hne
    exact ⟨c, _, rfl, .inl (isDecimalDigit_iff.1 (hds c List.mem_cons_self))⟩
  | @pointed ds part hds =>
    cases ds with
    | nil => exact ⟨'.', _, rfl, .inr rfl⟩
    | cons c ds => exact ⟨c, _, rfl, .inl (isDecimalDigit_iff.1 (hds c List.mem_cons_self))⟩

theorem DecimalLiteral.chars (h : DecimalLiteral s) :
    ∀ c ∈ s, asciiDigit c = true ∨ c ∈ ['.', 'e', 'E', '+', '-'] := by
  obtain ⟨hm, hx⟩ := h
  intro c hc
  rcases List.mem_append.1 hc with hc | hc
  · cases hm with
    | whole hds => exact .inl (isDecimalDigit_iff.1 (hds c hc))
    | pointed hds hpart =>
      rcases List.mem_append.1 hc with hc | hc
      · exact .inl (isDecimalDigit_iff.1 (hds c hc))
      · rcases List.mem_cons.1 hc with rfl | hc
        · exact .inr (by decide)
        · exact .inl (isDecimalDigit_iff.1 (hpart c hc))
  · cases hx with
    | none => cases hc
    | some he hsign hds =>
      rcases List.mem_cons.1 hc with rfl | hc
      · rcases he with rfl | rfl <;> exact .inr (by decide)
      · rcases List.mem_append.1 hc with hc | hc
        · cases hsign <;> simp at hc <;> subst hc <;> exact .inr (by decide)
        · exact .inl (isDecimalDigit_iff.1 (hds c hc))

theorem DecimalLiteral.radixLiteral (h : DecimalLiteral s) : radixLiteral s = none := by
  refine Option.eq_none_iff_forall_ne_some.2 fun ⟨radix, ds⟩ hs => ?_
  obtain ⟨mark, hmark, rfl⟩ := radixLiteral_eq_some_iff.1 hs
  have hchar := h.chars mark (by simp)
  cases hmark <;> revert hchar <;> decide

end Number

end CoercionTrace
