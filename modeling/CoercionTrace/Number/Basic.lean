/-!
# Numbers

A `Number` is a binary64 value given by its bits: a sign, and a magnitude `m · 2^q` that is zero,
finite or infinite, or no number at all. `Number.round` takes the quotient of two naturals to the
nearest number, a tie going to the even mantissa.
-/

namespace CoercionTrace

structure Number where
  bits : UInt64
  deriving DecidableEq, Inhabited

namespace Number

def twoTo (k : Nat) : Nat := Nat.pow 2 k

def tenTo (k : Nat) : Nat := Nat.pow 10 k

def negative (n : Number) : Bool := twoTo 63 ≤ n.bits.toNat

def exponentField (n : Number) : Nat := n.bits.toNat / twoTo 52 % 2048

def fraction (n : Number) : Nat := n.bits.toNat % twoTo 52

def isNaN (n : Number) : Bool := n.exponentField == 2047 && n.fraction != 0

def isInfinite (n : Number) : Bool := n.exponentField == 2047 && n.fraction == 0

def isFinite (n : Number) : Bool := n.exponentField != 2047

def isZero (n : Number) : Bool := n.exponentField == 0 && n.fraction == 0

def mantissa (n : Number) : Nat :=
  if n.exponentField = 0 then n.fraction else twoTo 52 + n.fraction

def exponent (n : Number) : Int :=
  if n.exponentField = 0 then -1074 else (n.exponentField : Int) - 1075

def nan : Number := ⟨0x7ff8000000000000⟩

def infinity : Number := ⟨0x7ff0000000000000⟩

def zero : Number := ⟨0⟩

def negate (n : Number) : Number := ⟨n.bits ^^^ 0x8000000000000000⟩

def withSign (negative : Bool) (n : Number) : Number := if negative then n.negate else n

def ratioLog (num den : Nat) : Int :=
  let k : Int := (Nat.log2 num : Int) - (Nat.log2 den : Int)
  if den * twoTo k.toNat ≤ num * twoTo (-k).toNat then k else k - 1

def nearestEven (num den : Nat) : Nat :=
  let q := num / den
  let r := num % den
  if den < 2 * r ∨ (2 * r = den ∧ q % 2 = 1) then q + 1 else q

/-- The number nearest to `num / den`, a tie going to the even mantissa; `den` is positive. -/
def round (num den : Nat) : Number :=
  if num = 0 then zero
  else
    let q : Int := max (ratioLog num den - 52) (-1074)
    let m := nearestEven (num * twoTo (-q).toNat) (den * twoTo q.toNat)
    let code := (q + 1074).toNat * twoTo 52 + m
    if 2047 * twoTo 52 ≤ code then infinity else ⟨UInt64.ofNat code⟩

def ofNat (n : Nat) : Number := round n 1

def ofInt (i : Int) : Number := withSign (i < 0) (round i.natAbs 1)

def scale (m : Nat) (q : Int) : Number := round (m * twoTo q.toNat) (twoTo (-q).toNat)

/-- The number nearest to `d · 10^x`. Beyond some three hundred digits on either side the answer is
infinite or zero. -/
def ofDecimal (d : Nat) (x : Int) : Number :=
  if d = 0 then zero
  else
    let lead : Int := (Nat.log2 d : Int) * 30103 / 100000 + x
    if 400 < lead then infinity
    else if lead < -400 then zero
    else round (d * tenTo x.toNat) (tenTo (-x).toNat)

def truncate (n : Number) : Int :=
  let magnitude := n.mantissa * twoTo n.exponent.toNat / twoTo (-n.exponent).toNat
  if n.negative then -(magnitude : Int) else magnitude

def clamp (limit : Nat) (n : Number) : Nat :=
  if n.isNaN || n.negative then 0
  else if n.isInfinite then limit
  else min limit n.truncate.toNat

/-- Equality of numbers, where both zeros are equal and so is no number with itself. -/
def same (a b : Number) : Bool :=
  a == b || (a.isNaN && b.isNaN) || (a.isZero && b.isZero)

end Number

end CoercionTrace
