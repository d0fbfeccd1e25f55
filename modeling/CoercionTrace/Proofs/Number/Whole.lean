import CoercionTrace.Number.Basic
import Mathlib.Algebra.Group.Nat.Defs
import Mathlib.Data.Nat.Log

/-!
# Whole numbers

Main statement: natural numbers up to `2 ^ 53` are numbers (`Number.clamp_ofNat`).
-/

namespace CoercionTrace

namespace Number

theorem twoTo_add (i j : Nat) : twoTo (i + j) = twoTo i * twoTo j := Nat.pow_add 2 i j

theorem twoTo_pos (k : Nat) : 0 < twoTo k := Nat.two_pow_pos k

theorem twoTo_52 : twoTo 52 = 4503599627370496 := by decide

theorem twoTo_53 : twoTo 53 = 9007199254740992 := by decide

theorem twoTo_63 : twoTo 63 = 9223372036854775808 := by decide

def ofParts (exponent fraction : Nat) : Number := ⟨UInt64.ofNat (exponent * twoTo 52 + fraction)⟩

section

variable {e f : Nat} (he : e < 2047) (hf : f < twoTo 52)
include he hf

theorem toNat_ofParts : (ofParts e f).bits.toNat = e * twoTo 52 + f := by
  rw [ofParts]
  refine UInt64.toNat_ofNat_of_lt' ?_
  rw [twoTo_52] at hf ⊢
  simp only [UInt64.size]
  omega

theorem negative_ofParts : (ofParts e f).negative = false := by
  rw [negative, toNat_ofParts he hf, decide_eq_false_iff_not, twoTo_63, twoTo_52]
  rw [twoTo_52] at hf
  omega

theorem exponentField_ofParts : (ofParts e f).exponentField = e := by
  rw [exponentField, toNat_ofParts he hf, twoTo_52]
  rw [twoTo_52] at hf
  omega

theorem fraction_ofParts : (ofParts e f).fraction = f := by
  rw [fraction, toNat_ofParts he hf, twoTo_52]
  rw [twoTo_52] at hf
  omega

end

theorem clamp_ofParts {n limit shift f : Nat} (hlimit : n ≤ limit) (hshift : shift ≤ 52)
    (hf : f < twoTo 52) (hn : twoTo 52 + f = n * twoTo shift) :
    (ofParts (1075 - shift) f).clamp limit = n := by
  have he : 1075 - shift < 2047 := by omega
  have hnonzero : 1075 - shift ≠ 0 := by omega
  have hfinite : ((ofParts (1075 - shift) f).exponentField == 2047) = false := by
    rw [exponentField_ofParts he hf, beq_eq_false_iff_ne]
    omega
  have hexponent : (ofParts (1075 - shift) f).exponent = -(shift : Int) := by
    rw [exponent, exponentField_ofParts he hf, if_neg hnonzero]
    omega
  have htruncate : (ofParts (1075 - shift) f).truncate = n := by
    have hup : (-(shift : Int)).toNat = 0 := by omega
    rw [truncate, negative_ofParts he hf, hexponent, mantissa, exponentField_ofParts he hf,
      if_neg hnonzero, fraction_ofParts he hf, hn, hup, Int.neg_neg, Int.toNat_natCast]
    simp [show twoTo 0 = 1 from rfl, Nat.mul_div_cancel n (twoTo_pos shift)]
  rw [clamp, isNaN, isInfinite, hfinite, negative_ofParts he hf, htruncate]
  simpa using Nat.min_eq_right hlimit

theorem nearestEven_one (n : Nat) : nearestEven n 1 = n := by
  simp [nearestEven, Nat.mod_one]

variable {n : Nat}

theorem ratioLog_one (hn : n ≠ 0) : ratioLog n 1 = n.log2 := by
  have hle : twoTo n.log2 ≤ n := Nat.log2_self_le hn
  have hone : twoTo 0 = 1 := rfl
  have hlog : Nat.log2 1 = 0 := by decide
  simp [ratioLog, hlog, hone, hle]

theorem leading_bounds (hn : n ≠ 0) (hlog : n.log2 ≤ 52) :
    twoTo 52 ≤ n * twoTo (52 - n.log2) ∧ n * twoTo (52 - n.log2) < twoTo 53 := by
  have hlow : twoTo n.log2 ≤ n := Nat.log2_self_le hn
  have hhigh : n < twoTo (n.log2 + 1) := Nat.lt_log2_self
  constructor
  · calc twoTo 52 = twoTo n.log2 * twoTo (52 - n.log2) := by
          rw [← twoTo_add, Nat.add_sub_cancel' hlog]
      _ ≤ n * twoTo (52 - n.log2) := Nat.mul_le_mul_right _ hlow
  · calc n * twoTo (52 - n.log2) < twoTo (n.log2 + 1) * twoTo (52 - n.log2) :=
          Nat.mul_lt_mul_of_pos_right hhigh (twoTo_pos _)
      _ = twoTo 53 := by
          rw [← twoTo_add]
          congr 1
          omega

theorem ofNat_eq (hn : n ≠ 0) (hlog : n.log2 ≤ 52) :
    ofNat n = ofParts (1075 - (52 - n.log2)) (n * twoTo (52 - n.log2) - twoTo 52) := by
  obtain ⟨hlow, hhigh⟩ := leading_bounds hn hlog
  have hq : max ((n.log2 : Int) - 52) (-1074) = (n.log2 : Int) - 52 := by omega
  have hup : (-((n.log2 : Int) - 52)).toNat = 52 - n.log2 := by omega
  have hdown : ((n.log2 : Int) - 52).toNat = 0 := by omega
  have hfield : ((n.log2 : Int) - 52 + 1074).toNat = n.log2 + 1022 := by omega
  have hone : 1 * twoTo 0 = 1 := rfl
  rw [ofNat, round, if_neg hn, ratioLog_one hn]
  dsimp only
  rw [hq, hup, hdown, hfield, hone, nearestEven_one]
  generalize n * twoTo (52 - n.log2) = m at *
  have hcode : (n.log2 + 1022) * twoTo 52 + m =
      (1075 - (52 - n.log2)) * twoTo 52 + (m - twoTo 52) := by
    rw [show 1075 - (52 - n.log2) = n.log2 + 1022 + 1 by omega,
      show (n.log2 + 1022 + 1) * twoTo 52 = (n.log2 + 1022) * twoTo 52 + twoTo 52 from
        Nat.succ_mul _ _, Nat.add_assoc, Nat.add_sub_cancel' hlow]
  rw [hcode, if_neg]
  · rfl
  · rw [twoTo_52, twoTo_53] at *
    omega

theorem clamp_ofNat {limit : Nat} (hn : n ≤ 2 ^ 53) (hlimit : n ≤ limit) :
    (ofNat n).clamp limit = n := by
  rcases Nat.eq_zero_or_pos n with rfl | hpositive
  · have hzero : (ofNat 0).isNaN = false ∧ (ofNat 0).isInfinite = false ∧
        (ofNat 0).negative = false ∧ (ofNat 0).truncate = 0 := by decide +kernel
    simp [clamp, hzero]
  rcases Nat.lt_or_eq_of_le hn with hlt | rfl
  · have hnonzero : n ≠ 0 := Nat.ne_of_gt hpositive
    have hlog : n.log2 ≤ 52 := Nat.le_of_lt_succ ((Nat.log2_lt hnonzero).2 hlt)
    obtain ⟨hlow, hhigh⟩ := leading_bounds hnonzero hlog
    rw [ofNat_eq hnonzero hlog]
    refine clamp_ofParts hlimit (Nat.sub_le _ _) ?_ (Nat.add_sub_cancel' hlow)
    rw [twoTo_52, twoTo_53] at *
    omega
  · have hparts : (ofNat (2 ^ 53)).isNaN = false ∧ (ofNat (2 ^ 53)).isInfinite = false ∧
        (ofNat (2 ^ 53)).negative = false ∧ (ofNat (2 ^ 53)).truncate = 2 ^ 53 := by
      decide +kernel
    obtain ⟨hnan, hinfinite, hnegative, htruncate⟩ := hparts
    rw [clamp, hnan, hinfinite, hnegative, htruncate]
    exact Nat.min_eq_right hlimit

end Number

end CoercionTrace
