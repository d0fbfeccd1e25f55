import CoercionTrace.Proofs.Number.Whole
import Mathlib.Tactic.Linarith
import Mathlib.Tactic.Ring

/-!
# Nearest numbers

Every finite number is a whole multiple of the smallest positive one, `2 ^ -1074`. Main statement: what
becomes of a natural number that fits 64 bits is as near to it as a number can be, and even where two
are as near (`nearest_ofNat`).
-/

namespace CoercionTrace

namespace Number

theorem steps_cases (d : Nat) (t : Int) :
    (t < 0 ∧ t * d ≤ -d) ∨ t = 0 ∨ t = 1 ∨ (1 < t ∧ 2 * d ≤ t * d) := by
  rcases lt_trichotomy t 0 with h | h | h
  · exact .inl ⟨h, by nlinarith⟩
  · exact .inr (.inl h)
  · rcases eq_or_lt_of_le (show 1 ≤ t from h) with h | h
    · exact .inr (.inr (.inl h.symm))
    · exact .inr (.inr (.inr ⟨h, by nlinarith⟩))

/-- No integer is nearer to a quotient than the one that is rounded to, and another one is as near
only if that is even. -/
theorem nearestEven_closest {num den : Nat} (hden : 0 < den) (j : Int) :
    (nearestEven num den * den - num : Int).natAbs ≤ (j * den - num).natAbs ∧
      ((j * den - num).natAbs = (nearestEven num den * den - num : Int).natAbs →
        j = nearestEven num den ∨ nearestEven num den % 2 = 0) := by
  have hnum : num = num / den * den + num % den := (Nat.div_add_mod' num den).symm
  have hrest : num % den < den := Nat.mod_lt _ hden
  rw [nearestEven]
  generalize num / den = q at *
  generalize num % den = r at *
  subst hnum
  obtain ⟨t, rfl⟩ : ∃ t, j = q + t := ⟨j - q, by omega⟩
  have hself : ((q : Int) * den - (q * den + r : Nat)).natAbs = r := by
    push_cast
    omega
  have hnext : (((q + 1 : Nat) : Int) * den - (q * den + r : Nat)).natAbs = den - r := by
    have h : ((q + 1 : Nat) : Int) * den = q * den + den := by
      push_cast
      ring
    rw [h]
    push_cast
    omega
  have hother : ((q + t) * (den : Int) - (q * den + r : Nat)).natAbs = (t * den - r).natAbs := by
    congr 1
    push_cast
    ring
  rw [hother]
  have hsteps := steps_cases den t
  split
  · rw [hnext]
    rcases hsteps with h | rfl | rfl | h <;> omega
  · rw [hself]
    rcases hsteps with h | rfl | rfl | h <;> omega

def units (n : Number) : Int :=
  (if n.negative then -1 else 1) * (n.mantissa * twoTo (n.exponent + 1074).toNat : Nat)

def unitsOfOne : Nat := twoTo 1074

/-- The number is as near to `k` as a number can be, and even where another one is as near. -/
structure Nearest (k : Nat) (n : Number) : Prop where
  finite : n.isFinite = true
  closest : ∀ m : Number, m.isFinite = true →
    (n.units - k * unitsOfOne).natAbs ≤ (m.units - k * unitsOfOne).natAbs
  even : ∀ m : Number, m.isFinite = true →
    (m.units - k * unitsOfOne).natAbs = (n.units - k * unitsOfOne).natAbs →
      m.units = n.units ∨ n.mantissa % 2 = 0

theorem mantissa_lt (n : Number) : n.mantissa < twoTo 53 := by
  have hfraction : n.fraction < twoTo 52 := Nat.mod_lt _ (twoTo_pos 52)
  rw [mantissa, twoTo_53]
  rw [twoTo_52] at *
  split <;> omega

theorem exponent_ge (n : Number) : -1074 ≤ n.exponent := by
  rw [exponent]
  split <;> omega

section

variable {e f : Nat} (he : e < 2047) (hf : f < twoTo 52)
include he hf

theorem isFinite_ofParts : (ofParts e f).isFinite = true := by
  rw [isFinite, exponentField_ofParts he hf, bne_iff_ne]
  exact he.ne

theorem mantissa_ofParts (hpositive : 0 < e) : (ofParts e f).mantissa = twoTo 52 + f := by
  rw [mantissa, exponentField_ofParts he hf, if_neg hpositive.ne', fraction_ofParts he hf]

theorem units_ofParts (hpositive : 0 < e) :
    (ofParts e f).units = ((twoTo 52 + f) * twoTo (e - 1) : Nat) := by
  have hexponent : ((ofParts e f).exponent + 1074).toNat = e - 1 := by
    rw [exponent, exponentField_ofParts he hf, if_neg hpositive.ne']
    omega
  rw [units, negative_ofParts he hf, mantissa_ofParts he hf hpositive, hexponent]
  simp

end

theorem natAbs_units (n : Number) : n.units.natAbs = n.mantissa * twoTo (n.exponent + 1074).toNat := by
  rw [units]
  split <;> omega

theorem toNat_negate (n : Number) : n.negate.bits.toNat = n.bits.toNat ^^^ 2 ^ 63 := by
  have hsign : (0x8000000000000000 : UInt64).toNat = 2 ^ 63 := by decide
  rw [negate, UInt64.toNat_xor, hsign]

theorem exponentField_negate (n : Number) : n.negate.exponentField = n.exponentField := by
  rw [exponentField, exponentField, toNat_negate, show twoTo 52 = 2 ^ 52 from rfl,
    show 2048 = 2 ^ 11 by decide, Nat.xor_div_two_pow, Nat.xor_mod_two_pow]
  simp

theorem fraction_negate (n : Number) : n.negate.fraction = n.fraction := by
  rw [fraction, fraction, toNat_negate, show twoTo 52 = 2 ^ 52 from rfl, Nat.xor_mod_two_pow]
  simp

theorem negative_eq_testBit (n : Number) : n.negative = n.bits.toNat.testBit 63 := by
  have hbound : n.bits.toNat < 18446744073709551616 := n.bits.toNat_lt
  rw [negative, Nat.testBit_eq_decide_div_mod_eq, decide_eq_decide, twoTo_63]
  omega

theorem negative_negate (n : Number) : n.negate.negative = !n.negative := by
  rw [negative_eq_testBit, negative_eq_testBit, toNat_negate, Nat.testBit_xor,
    Nat.testBit_two_pow_self, Bool.xor_true]

theorem isFinite_negate (n : Number) : n.negate.isFinite = n.isFinite := by
  rw [isFinite, isFinite, exponentField_negate]

theorem units_negate (n : Number) : n.negate.units = -n.units := by
  have hmantissa : n.negate.mantissa = n.mantissa := by
    rw [mantissa, mantissa, exponentField_negate, fraction_negate]
  have hexponent : n.negate.exponent = n.exponent := by
    rw [exponent, exponent, exponentField_negate]
  rw [units, units, hmantissa, hexponent, negative_negate]
  cases n.negative <;> simp

theorem units_cases (n : Number) (s : Nat) : (∃ j : Int, n.units = j * twoTo (s + 1074)) ∨
    n.units.natAbs < twoTo 52 * twoTo (s + 1074) := by
  have hlow := n.exponent_ge
  by_cases hexponent : (s : Int) ≤ n.exponent
  · refine .inl ⟨(if n.negative then -1 else 1) * (n.mantissa * twoTo (n.exponent - s).toNat : Nat), ?_⟩
    have hsplit : (n.exponent + 1074).toNat = (n.exponent - s).toNat + (s + 1074) := by omega
    rw [units, hsplit, twoTo_add]
    push_cast
    ring
  · refine .inr ?_
    have hsplit : twoTo 52 * twoTo (s + 1074) = twoTo 53 * twoTo (s + 1073) := by
      rw [← twoTo_add, ← twoTo_add, show 52 + (s + 1074) = 53 + (s + 1073) by omega]
    rw [natAbs_units, hsplit]
    calc n.mantissa * twoTo (n.exponent + 1074).toNat
        ≤ n.mantissa * twoTo (s + 1073) :=
          Nat.mul_le_mul_left _ (Nat.pow_le_pow_right (by decide) (by omega))
      _ < twoTo 53 * twoTo (s + 1073) := Nat.mul_lt_mul_of_pos_right n.mantissa_lt (twoTo_pos _)

section

variable {k s m : Nat} {n : Number}

theorem distance_grid (j : Int) (k s : Nat) : (j * twoTo (s + 1074) - k * unitsOfOne).natAbs =
    (j * twoTo s - k).natAbs * unitsOfOne := by
  have h : j * twoTo (s + 1074) - k * unitsOfOne = (j * twoTo s - k) * (unitsOfOne : Nat) := by
    rw [twoTo_add, unitsOfOne]
    push_cast
    ring
  rw [h, Int.natAbs_mul, Int.natAbs_natCast]

theorem nearest_of_units (hk : twoTo 52 * twoTo s ≤ k) (hfinite : n.isFinite = true)
    (hunits : n.units = nearestEven k (twoTo s) * twoTo (s + 1074))
    (heven : nearestEven k (twoTo s) % 2 = 0 → n.mantissa % 2 = 0) : Nearest k n := by
  have hself : (n.units - k * unitsOfOne).natAbs =
      (nearestEven k (twoTo s) * twoTo s - k : Int).natAbs * unitsOfOne := by
    rw [hunits, distance_grid]
  have hone : 0 < unitsOfOne := twoTo_pos 1074
  have hgrid := @nearestEven_closest k _ (twoTo_pos s)
  -- A number below the grid is further away than the first one on it that has 53 digits.
  have hbelow : ∀ i : Number, i.units.natAbs < twoTo 52 * twoTo (s + 1074) →
      (n.units - k * unitsOfOne).natAbs < (i.units - k * unitsOfOne).natAbs := by
    intro i hi
    have hfirst := distance_grid (twoTo 52) k s
    have hscaled : twoTo 52 * twoTo (s + 1074) ≤ k * unitsOfOne := by
      rw [twoTo_add, ← Nat.mul_assoc]
      exact Nat.mul_le_mul_right _ hk
    calc (n.units - k * unitsOfOne).natAbs
        ≤ ((twoTo 52 : Int) * twoTo s - k).natAbs * unitsOfOne := by
          rw [hself]
          exact Nat.mul_le_mul_right _ (hgrid (twoTo 52)).1
      _ < (i.units - k * unitsOfOne).natAbs := by
          rw [← hfirst]
          simp only [← Int.natCast_mul]
          generalize twoTo 52 * twoTo (s + 1074) = first at hi hscaled ⊢
          generalize k * unitsOfOne = target at hscaled ⊢
          clear hself hgrid hfirst hunits
          omega
  refine ⟨hfinite, fun i _ => ?_, fun i _ hdistance => ?_⟩
  · rcases i.units_cases s with ⟨j, hj⟩ | hi
    · rw [hself, hj, distance_grid]
      exact Nat.mul_le_mul_right _ (hgrid j).1
    · exact (hbelow i hi).le
  · rcases i.units_cases s with ⟨j, hj⟩ | hi
    · rw [hself, hj, distance_grid] at hdistance
      rcases (hgrid j).2 (Nat.eq_of_mul_eq_mul_right hone hdistance) with h | h
      · exact .inl (by rw [hj, hunits, h])
      · exact .inr (heven h)
    · exact absurd hdistance (hbelow i hi).ne'

theorem nearest_of_exact (hfinite : n.isFinite = true) (hunits : n.units = k * unitsOfOne) :
    Nearest k n := by
  have hself : n.units - k * unitsOfOne = 0 := Int.sub_eq_zero.2 hunits
  refine ⟨hfinite, fun i _ => ?_, fun i _ hdistance => .inl ?_⟩
  · rw [hself]
    exact Nat.zero_le _
  rw [hself, Int.natAbs_zero, Int.natAbs_eq_zero, Int.sub_eq_zero] at hdistance
  rw [hdistance, hunits]

theorem nearest_zero : Nearest 0 zero := by
  refine nearest_of_exact (by decide) ?_
  have hmantissa : zero.mantissa = 0 := by decide
  rw [units, hmantissa, Nat.zero_mul, Int.natCast_zero, Int.mul_zero, Int.zero_mul]

theorem exact_of_small (hk : k ≠ 0) (hlog : k.log2 ≤ 52) :
    (ofNat k).isFinite = true ∧ (ofNat k).negative = false ∧ (ofNat k).units = k * unitsOfOne := by
  obtain ⟨hlow, hhigh⟩ := leading_bounds hk hlog
  have hf : k * twoTo (52 - k.log2) - twoTo 52 < twoTo 52 := by
    rw [twoTo_52, twoTo_53] at *
    omega
  have he : 1075 - (52 - k.log2) < 2047 := by omega
  rw [ofNat_eq hk hlog]
  refine ⟨isFinite_ofParts he hf, negative_ofParts he hf, ?_⟩
  have hsplit : 52 - k.log2 + (1075 - (52 - k.log2) - 1) = 1074 := by omega
  rw [units_ofParts he hf (by omega), Nat.add_sub_cancel' hlow, Nat.mul_assoc, ← twoTo_add, hsplit,
    ← unitsOfOne, Int.natCast_mul]

theorem le_nearestEven {num den a : Nat} (hden : 0 < den) (h : a * den ≤ num) :
    a ≤ nearestEven num den := by
  have hle : a ≤ num / den := (Nat.le_div_iff_mul_le hden).2 h
  rw [nearestEven]
  split <;> omega

theorem nearestEven_le {num den b : Nat} (hden : 0 < den) (h : num < b * den) :
    nearestEven num den ≤ b := by
  have hlt : num / den < b := (Nat.div_lt_iff_lt_mul hden).2 h
  rw [nearestEven]
  split <;> omega

theorem ofNat_of_large (hk : k ≠ 0) (hlog : k.log2 = 52 + s) (hs : s ≤ 11)
    (hm : nearestEven k (twoTo s) ≤ twoTo 53) :
    ofNat k = ⟨UInt64.ofNat ((s + 1074) * twoTo 52 + nearestEven k (twoTo s))⟩ := by
  have hq : max ((k.log2 : Int) - 52) (-1074) = s := by omega
  have hfield : ((s : Int) + 1074).toNat = s + 1074 := by omega
  have hdown : (-(s : Int)).toNat = 0 := by omega
  have hone : twoTo 0 = 1 := rfl
  rw [ofNat, round, if_neg hk, ratioLog_one hk]
  dsimp only
  rw [hq, hfield, hdown, Int.toNat_natCast, hone, Nat.mul_one, Nat.one_mul, if_neg]
  generalize nearestEven k (twoTo s) = m at *
  rw [twoTo_52, twoTo_53] at *
  omega

theorem nearest_ofParts {e f : Nat} (he : e < 2047) (hpositive : 0 < e) (hf : f < twoTo 52)
    (hk : twoTo 52 * twoTo s ≤ k)
    (hunits : (twoTo 52 + f) * twoTo (e - 1) = nearestEven k (twoTo s) * twoTo (s + 1074))
    (heven : nearestEven k (twoTo s) % 2 = 0 → (twoTo 52 + f) % 2 = 0) : Nearest k (ofParts e f) := by
  refine nearest_of_units hk (isFinite_ofParts he hf) ?_ ?_
  · rw [units_ofParts he hf hpositive, hunits, Int.natCast_mul]
  · rwa [mantissa_ofParts he hf hpositive]

/-- Rounding up can make a power of two of the leading digits, which has its 53rd digit one place
higher. -/
theorem nearest_of_large (hk : k ≠ 0) (hlog : k.log2 = 52 + s) (hs : s ≤ 11) :
    Nearest k (ofNat k) := by
  have hlow : twoTo 52 * twoTo s ≤ k := by
    rw [← twoTo_add, ← hlog]
    exact Nat.log2_self_le hk
  have hhigh : k < twoTo 53 * twoTo s := by
    rw [← twoTo_add, show 53 + s = k.log2 + 1 by omega]
    exact Nat.lt_log2_self
  have hfirst := le_nearestEven (twoTo_pos s) hlow
  have hlast := nearestEven_le (twoTo_pos s) hhigh
  rw [ofNat_of_large hk hlog hs hlast]
  rcases Nat.lt_or_eq_of_le hlast with hlt | heq
  · have hcode : (s + 1074) * twoTo 52 + nearestEven k (twoTo s) =
        (s + 1075) * twoTo 52 + (nearestEven k (twoTo s) - twoTo 52) := by
      rw [twoTo_52] at hfirst ⊢
      omega
    have hf : nearestEven k (twoTo s) - twoTo 52 < twoTo 52 := by
      rw [twoTo_53] at hlt
      rw [twoTo_52]
      omega
    rw [hcode]
    refine nearest_ofParts (e := s + 1075) (by omega) (by omega) hf hlow ?_ ?_
    · rw [Nat.add_sub_cancel' hfirst]
      rfl
    · rw [Nat.add_sub_cancel' hfirst]
      exact id
  · have hcode : (s + 1074) * twoTo 52 + nearestEven k (twoTo s) = (s + 1076) * twoTo 52 + 0 := by
      rw [heq, twoTo_52, twoTo_53]
      omega
    rw [hcode]
    refine nearest_ofParts (e := s + 1076) (by omega) (by omega) (twoTo_pos 52) hlow ?_ ?_
    · rw [heq, Nat.add_zero, ← twoTo_add, ← twoTo_add,
        show 52 + (s + 1076 - 1) = 53 + (s + 1074) by omega]
    · rw [twoTo_52]
      exact fun _ => rfl

theorem nearest_ofNat (hk : k < 2 ^ 64) : Nearest k (ofNat k) := by
  by_cases hzero : k = 0
  · rw [hzero]
    exact nearest_zero
  by_cases hlog : k.log2 ≤ 52
  · obtain ⟨hfinite, -, hunits⟩ := exact_of_small hzero hlog
    exact nearest_of_exact hfinite hunits
  · have hlt : k.log2 < 64 := (Nat.log2_lt hzero).2 hk
    exact nearest_of_large (s := k.log2 - 52) hzero (by omega) (by omega)

end

end Number

end CoercionTrace
