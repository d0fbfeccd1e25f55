import CoercionTrace.Proofs.Number.Nearest
import Mathlib.Algebra.Order.Field.Power
import Mathlib.Data.Rat.Floor

/-!
# The values of numbers

A finite number is a rational. Main statements: its whole part is its value without the fraction
(`truncate_eq`), and integers of up to 53 binary digits are the values of the numbers that they become
(`value_ofInt`).
-/

namespace CoercionTrace

namespace Number

def value (n : Number) : ℚ := (if n.negative then -1 else 1) * (n.mantissa * 2 ^ n.exponent)

def towardZero (q : ℚ) : ℤ := if 0 ≤ q then ⌊q⌋ else ⌈q⌉

theorem cast_twoTo (k : Nat) : (twoTo k : ℚ) = 2 ^ k := by
  rw [twoTo]
  exact Nat.cast_pow 2 k

theorem value_eq_units (n : Number) : n.value = n.units / unitsOfOne := by
  have hexponent : ((n.exponent + 1074).toNat : ℤ) = n.exponent + 1074 :=
    Int.toNat_of_nonneg (by linarith [n.exponent_ge])
  have hpower : (2 : ℚ) ^ (n.exponent + 1074).toNat = 2 ^ n.exponent * 2 ^ 1074 := by
    rw [← zpow_natCast, hexponent, zpow_add₀ (by norm_num)]
    rfl
  rw [value, units, unitsOfOne, cast_twoTo, eq_div_iff (by positivity)]
  push_cast
  rw [cast_twoTo, hpower]
  generalize (2 : ℚ) ^ 1074 = one
  split <;> ring

theorem value_negate (n : Number) : n.negate.value = -n.value := by
  rw [value_eq_units, value_eq_units, units_negate, Int.cast_neg, neg_div]

theorem magnitude_eq (n : Number) : (n.mantissa * 2 ^ n.exponent : ℚ) =
    ((n.mantissa * twoTo n.exponent.toNat : ℕ) : ℤ) / (twoTo (-n.exponent).toNat : ℕ) := by
  have hexponent : n.exponent = (n.exponent.toNat : ℤ) - ((-n.exponent).toNat : ℤ) := by omega
  have hpower : (2 : ℚ) ^ n.exponent = 2 ^ n.exponent.toNat / 2 ^ (-n.exponent).toNat := by
    conv_lhs => rw [hexponent]
    rw [zpow_sub₀ (by norm_num), zpow_natCast, zpow_natCast]
  push_cast
  rw [cast_twoTo, cast_twoTo, hpower, mul_div_assoc]

theorem floor_magnitude (n : Number) : ⌊(n.mantissa * 2 ^ n.exponent : ℚ)⌋ =
    (n.mantissa * twoTo n.exponent.toNat / twoTo (-n.exponent).toNat : ℕ) := by
  rw [magnitude_eq, Rat.floor_intCast_div_natCast, Int.natCast_div]

theorem towardZero_neg {q : ℚ} (hq : 0 ≤ q) : towardZero (-q) = -⌊q⌋ := by
  rw [towardZero]
  split
  · next h =>
    have hzero : q = 0 := le_antisymm (by linarith) hq
    simp [hzero]
  · exact Int.ceil_neg

theorem truncate_eq (n : Number) : n.truncate = towardZero n.value := by
  have hmagnitude : (0 : ℚ) ≤ n.mantissa * 2 ^ n.exponent := by positivity
  rw [truncate, value, ← floor_magnitude]
  split
  · rw [neg_one_mul, towardZero_neg hmagnitude]
  · rw [one_mul, towardZero, if_pos hmagnitude]

theorem exact_ofNat {k : Nat} (hk : k < 2 ^ 53) :
    (ofNat k).isFinite = true ∧ (ofNat k).negative = false ∧ (ofNat k).value = k := by
  by_cases hzero : k = 0
  · subst hzero
    have hparts : (ofNat 0).isFinite = true ∧ (ofNat 0).negative = false ∧ (ofNat 0).mantissa = 0 := by
      decide
    obtain ⟨hfinite, hnegative, hmantissa⟩ := hparts
    refine ⟨hfinite, hnegative, ?_⟩
    rw [value, hmantissa]
    simp
  · have hlog : k.log2 ≤ 52 := Nat.le_of_lt_succ ((Nat.log2_lt hzero).2 hk)
    obtain ⟨hfinite, hnegative, hunits⟩ := exact_of_small hzero hlog
    have hone : (unitsOfOne : ℚ) ≠ 0 := Nat.cast_ne_zero.2 (twoTo_pos 1074).ne'
    refine ⟨hfinite, hnegative, ?_⟩
    rw [value_eq_units, hunits]
    push_cast
    exact mul_div_cancel_right₀ _ hone

theorem isFinite_ofInt {i : ℤ} (hi : i.natAbs < 2 ^ 53) : (ofInt i).isFinite = true := by
  obtain ⟨hfinite, -⟩ := exact_ofNat hi
  rw [ofNat] at hfinite
  rw [ofInt, withSign]
  split
  · rw [isFinite_negate, hfinite]
  · exact hfinite

theorem value_ofInt {i : ℤ} (hi : i.natAbs < 2 ^ 53) : (ofInt i).value = i := by
  obtain ⟨-, -, hvalue⟩ := exact_ofNat hi
  rw [ofNat] at hvalue
  rw [ofInt, withSign]
  split
  · next hnegative =>
    rw [value_negate, hvalue, ← Int.cast_natCast, Int.ofNat_natAbs_of_nonpos (by simp at hnegative; omega)]
    simp
  · next hpositive =>
    rw [hvalue, ← Int.cast_natCast, Int.natAbs_of_nonneg (by simpa using hpositive)]

end Number

end CoercionTrace
