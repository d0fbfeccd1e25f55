import CoercionTrace.Monitor.Conversion
import CoercionTrace.Proofs.Number.Value
import Mathlib.Data.Int.Bitwise
import Mathlib.Data.Int.ModEq

/-!
# Bitwise operators

Words of bits are integers in two's complement, and so are the operands of the bitwise operators. Main
statement: the operators compute on the 32-bit integers that their operands are congruent to, and the
result is that integer (`bitwise_exact`).
-/

namespace CoercionTrace

namespace Word

theorem testBit_eq_false {m k : Nat} (h : m ≤ k) : m.testBit k = false :=
  Nat.testBit_lt_two_pow (lt_of_le_of_lt h Nat.lt_two_pow_self)

theorem eq_of_testBit {a b : ℤ} (h : ∀ k, a.testBit k = b.testBit k) : a = b := by
  cases a with
  | ofNat m =>
    cases b with
    | ofNat n => exact congrArg Int.ofNat (Nat.eq_of_testBit_eq h)
    | negSucc n =>
      have hk := h (m + n)
      simp [Int.testBit, testBit_eq_false] at hk
  | negSucc m =>
    cases b with
    | ofNat n =>
      have hk := h (m + n)
      simp [Int.testBit, testBit_eq_false] at hk
    | negSucc n =>
      have hbits : ∀ k, m.testBit k = n.testBit k := fun k => Bool.not_inj (h k)
      exact congrArg Int.negSucc (Nat.eq_of_testBit_eq hbits)

variable {w : Nat}

theorem testBit_toInt (x : BitVec w) (k : Nat) :
    x.toInt.testBit k = if k < w then x.getLsbD k else x.msb := by
  rw [BitVec.toInt_eq_msb_cond]
  split
  · next hmsb =>
    have hneg : (x.toNat : ℤ) - (2 ^ w : ℕ) = Int.negSucc (2 ^ w - (x.toNat + 1)) := by
      have hlt := x.isLt
      rw [Int.negSucc_eq]
      omega
    have hbit : (Int.negSucc (2 ^ w - (x.toNat + 1))).testBit k =
        !(2 ^ w - (x.toNat + 1)).testBit k := rfl
    rw [hneg, hbit, Nat.testBit_two_pow_sub_succ x.isLt, BitVec.testBit_toNat]
    split
    · next hk => simp [hk]
    · next hk => simp [hk, hmsb]
  · next hmsb =>
    have hbit : (x.toNat : ℤ).testBit k = x.toNat.testBit k := rfl
    rw [hbit, BitVec.testBit_toNat]
    split
    · rfl
    · next hk => rw [BitVec.getLsbD_of_ge x k (Nat.le_of_not_lt hk), Bool.eq_false_of_not_eq_true hmsb]

theorem toInt_or (x y : BitVec w) : (x ||| y).toInt = x.toInt.lor y.toInt := by
  apply eq_of_testBit
  intro k
  rw [Int.testBit_lor, testBit_toInt, testBit_toInt, testBit_toInt]
  split <;> simp

theorem toInt_and (x y : BitVec w) : (x &&& y).toInt = x.toInt.land y.toInt := by
  apply eq_of_testBit
  intro k
  rw [Int.testBit_land, testBit_toInt, testBit_toInt, testBit_toInt]
  split <;> simp

theorem toInt_xor (x y : BitVec w) : (x ^^^ y).toInt = x.toInt.xor y.toInt := by
  apply eq_of_testBit
  intro k
  rw [Int.testBit_lxor, testBit_toInt, testBit_toInt, testBit_toInt]
  split <;> simp

theorem toInt_shiftLeft (x : BitVec w) (k : Nat) :
    (x <<< k).toInt = (x.toInt * 2 ^ k).bmod (2 ^ w) := by
  rw [BitVec.toInt_shiftLeft, Nat.shiftLeft_eq, BitVec.toInt_eq_toNat_bmod x, Int.bmod_mul_bmod]
  push_cast
  rfl

theorem toInt_sshiftRight (x : BitVec w) (k : Nat) : (x.sshiftRight k).toInt = x.toInt / 2 ^ k := by
  rw [BitVec.toInt_sshiftRight, Int.shiftRight_eq_div_pow]
  push_cast
  rfl

theorem toNat_ushiftRight (x : BitVec w) (k : Nat) : (x >>> k).toNat = x.toNat / 2 ^ k := by
  rw [BitVec.toNat_ushiftRight, Nat.shiftRight_eq_div_pow]

end Word

namespace Number

variable {n : Number}

theorem toInt32_of_not_isFinite (h : n.isFinite = false) : n.toInt32 = 0 := by
  rw [toInt32, h]
  rfl

theorem toInt32_eq_bmod (h : n.isFinite = true) : n.toInt32 = n.truncate.bmod (2 ^ 32) := by
  have hlow : 0 ≤ n.truncate % 0x100000000 := Int.emod_nonneg _ (by decide)
  have hlt : (n.truncate % 0x100000000).toNat < UInt32.size := by
    have hhigh : n.truncate % 0x100000000 < 0x100000000 := Int.emod_lt_of_pos _ (by decide)
    change _ < 4294967296
    omega
  have hclamp : UInt32.ofNatClamp (n.truncate % 0x100000000).toNat = UInt32.ofNatLT _ hlt := dif_pos hlt
  rw [toInt32, h, if_neg (by decide)]
  dsimp only
  rw [hclamp, ← Int32.toInt_toBitVec, UInt32.toBitVec_toInt32, UInt32.toBitVec_ofNatLT,
    BitVec.toInt_eq_toNat_bmod, BitVec.toNat_ofNatLT, Int.toNat_of_nonneg hlow]
  exact Int.emod_bmod n.truncate (2 ^ 32)

theorem toInt32_bounds (n : Number) : -2 ^ 31 ≤ n.toInt32 ∧ n.toInt32 < 2 ^ 31 := by
  by_cases hfinite : n.isFinite = true
  · rw [toInt32_eq_bmod hfinite, Int.bmod_def]
    split <;> omega
  · rw [toInt32_of_not_isFinite (Bool.eq_false_iff.2 hfinite)]
    decide

theorem eq_toInt32_iff (hfinite : n.isFinite = true) (i : ℤ) :
    i = n.toInt32 ↔ -2 ^ 31 ≤ i ∧ i < 2 ^ 31 ∧ i ≡ towardZero n.value [ZMOD 2 ^ 32] := by
  rw [toInt32_eq_bmod hfinite, ← truncate_eq, Int.ModEq, Int.bmod_def]
  generalize n.truncate = t
  split <;> omega

theorem toInt_toWord (n : Number) : n.toWord.toInt = n.toInt32 := by
  have hbounds := n.toInt32_bounds
  rw [toWord, BitVec.toInt_ofInt, Int.bmod_def]
  split <;> omega

theorem toNat_toWord (n : Number) : (n.toWord.toNat : ℤ) = n.toInt32 % 2 ^ 32 := by
  have hpower : ((2 ^ 32 : ℕ) : ℤ) = 2 ^ 32 := Nat.cast_pow 2 32
  rw [toWord, BitVec.toNat_ofInt, hpower]
  exact Int.toNat_of_nonneg (Int.emod_nonneg _ (by decide))

theorem shiftCount_eq (n : Number) : n.shiftCount = (n.toInt32 % 32).toNat := by
  have hword := n.toNat_toWord
  rw [shiftCount]
  omega

theorem ofUnsigned_eq (x : BitVec 32) : ofUnsigned x = ofInt x.toNat := by
  have hsign : decide ((x.toNat : ℤ) < 0) = false := decide_eq_false (Int.natCast_nonneg _).not_gt
  rw [ofUnsigned, ofInt, ofNat, Int.natAbs_natCast, hsign, withSign, if_neg Bool.false_ne_true]

end Number

open Number

/-- What the bitwise operators do to integers. A shift to the left may carry bits into the sign or out of
the integer, and a shift to the right by `>>>` takes the operand for an integer without sign. -/
def integerOperation : String → Option (ℤ → ℤ → ℤ)
  | "|" => some Int.lor
  | "&" => some Int.land
  | "^" => some Int.xor
  | "<<" => some fun a b => (a * 2 ^ (b % 32).toNat).bmod (2 ^ 32)
  | ">>" => some fun a b => a / 2 ^ (b % 32).toNat
  | ">>>" => some fun a b => a % 2 ^ 32 / 2 ^ (b % 32).toNat
  | _ => none

variable {σ : Type} {operator : String} {op : NumericOperator} {f : ℤ → ℤ → ℤ}

theorem binary_number (call : Call σ) (l r : Number) (hsum : operator ≠ "+")
    (hop : NumericOperator.ofSymbol? operator = some op) :
    HostM.binary call operator (.number l) (.number r) = pure (.number (op.apply l r)) := by
  rw [HostM.binary, if_neg hsum, hop]
  rfl

theorem word_of_operation (h : integerOperation operator = some f) (l r : Number) :
    operator ≠ "+" ∧ ∃ op, NumericOperator.ofSymbol? operator = some op ∧ ∃ x : BitVec 32,
      if operator = ">>>" then op.apply l r = ofUnsigned x ∧ f l.toInt32 r.toInt32 = x.toNat
      else op.apply l r = ofSigned x ∧ f l.toInt32 r.toInt32 = x.toInt := by
  unfold integerOperation at h
  split at h <;> cases h
  · refine ⟨by decide, .bitOr, rfl, l.toWord ||| r.toWord, rfl, ?_⟩
    rw [Word.toInt_or, toInt_toWord, toInt_toWord]
  · refine ⟨by decide, .bitAnd, rfl, l.toWord &&& r.toWord, rfl, ?_⟩
    rw [Word.toInt_and, toInt_toWord, toInt_toWord]
  · refine ⟨by decide, .bitXor, rfl, l.toWord ^^^ r.toWord, rfl, ?_⟩
    rw [Word.toInt_xor, toInt_toWord, toInt_toWord]
  · refine ⟨by decide, .shiftLeft, rfl, l.toWord <<< r.shiftCount, rfl, ?_⟩
    rw [Word.toInt_shiftLeft, toInt_toWord, shiftCount_eq]
  · refine ⟨by decide, .shiftRight, rfl, l.toWord.sshiftRight r.shiftCount, rfl, ?_⟩
    rw [Word.toInt_sshiftRight, toInt_toWord, shiftCount_eq]
  · refine ⟨by decide, .shiftRightZero, rfl, l.toWord >>> r.shiftCount, rfl, ?_⟩
    rw [Word.toNat_ushiftRight, shiftCount_eq, Int.natCast_div, toNat_toWord]
    push_cast
    rfl

/-- A finite number has the one 32-bit integer that is congruent to its whole part, and a number that is
not finite has zero. The bitwise operators compute on these integers, shift counts taken modulo 32, and
their results are the integers that come out, each in its range. -/
theorem bitwise_exact (call : Call σ) (l r : Number) :
    (∀ n : Number, if n.isFinite = true then ∀ i : ℤ,
        i = n.toInt32 ↔ -2 ^ 31 ≤ i ∧ i < 2 ^ 31 ∧ i ≡ towardZero n.value [ZMOD 2 ^ 32]
      else n.toInt32 = 0) ∧
    ∀ operator f, integerOperation operator = some f →
      HostM.binary call operator (.number l) (.number r) =
        pure (.number (.ofInt (f l.toInt32 r.toInt32))) ∧
      (ofInt (f l.toInt32 r.toInt32)).isFinite = true ∧
      (ofInt (f l.toInt32 r.toInt32)).value = f l.toInt32 r.toInt32 ∧
      if operator = ">>>" then 0 ≤ f l.toInt32 r.toInt32 ∧ f l.toInt32 r.toInt32 < 2 ^ 32
      else -2 ^ 31 ≤ f l.toInt32 r.toInt32 ∧ f l.toInt32 r.toInt32 < 2 ^ 31 := by
  constructor
  · intro n
    split
    · next hfinite => exact eq_toInt32_iff hfinite
    · next hfinite => exact toInt32_of_not_isFinite (Bool.eq_false_iff.2 hfinite)
  · intro operator f h
    obtain ⟨hsum, op, hop, x, hx⟩ := word_of_operation h l r
    rw [binary_number call l r hsum hop]
    generalize f l.toInt32 r.toInt32 = i at hx ⊢
    by_cases hunsigned : operator = ">>>"
    · rw [if_pos hunsigned] at hx ⊢
      obtain ⟨happly, rfl⟩ := hx
      have hlt : x.toNat < 2 ^ 32 := x.isLt
      have hsmall : (x.toNat : ℤ).natAbs < 2 ^ 53 := by omega
      rw [happly, ofUnsigned_eq]
      exact ⟨rfl, isFinite_ofInt hsmall, value_ofInt hsmall, by omega, by omega⟩
    · rw [if_neg hunsigned] at hx ⊢
      obtain ⟨happly, rfl⟩ := hx
      have hlow : -2 ^ 31 ≤ x.toInt := x.le_toInt
      have hhigh : x.toInt < 2 ^ 31 := x.toInt_lt
      have hsmall : x.toInt.natAbs < 2 ^ 53 := by omega
      rw [happly]
      exact ⟨rfl, isFinite_ofInt hsmall, value_ofInt hsmall, hlow, hhigh⟩

theorem bitwise_exact_negativeCount :
    let noProgram : Call Unit := fun _ _ _ => pure .undefined
    let operand : Number := ⟨0xbff8000000000000⟩
    let count : Number := ⟨0xbff0000000000000⟩
    operand.isFinite = true ∧ operand.toInt32 = -1 ∧ -1 ≡ towardZero operand.value [ZMOD 2 ^ 32] ∧
      HostM.binary noProgram ">>>" (.number operand) (.number count) = pure (.number (.ofInt 1)) ∧
      (ofInt 1).value = 1 := by
  intro noProgram operand count
  obtain ⟨hintegers, hoperators⟩ := bitwise_exact noProgram operand count
  have hfinite : operand.isFinite = true := by decide
  have hoperand : operand.toInt32 = -1 := by decide
  have hcount : count.toInt32 = -1 := by decide
  have hunique := hintegers operand
  rw [if_pos hfinite] at hunique
  obtain ⟨hbinary, -, hvalue, -⟩ := hoperators ">>>" _ rfl
  have hone : (-1 % 2 ^ 32 / 2 ^ (-1 % 32 : ℤ).toNat : ℤ) = 1 := by decide
  rw [hoperand, hcount, hone] at hbinary hvalue
  exact ⟨hfinite, hoperand, ((hunique (-1)).1 hoperand.symm).2.2, hbinary, hvalue.trans Int.cast_one⟩

end CoercionTrace
