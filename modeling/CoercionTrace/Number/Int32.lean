import CoercionTrace.Number.Basic

/-!
# Thirty-two bit integers

The bitwise operators act on two's complement integers of 32 bits. A number is taken to the one
that is congruent to its whole part modulo `2^32`; shift counts are taken modulo 32.
-/

namespace CoercionTrace

namespace Number

/-- The whole part modulo `2^32`, as a word without sign and then with one; zero when `n` is not
finite. -/
def toInt32 (n : Number) : Int :=
  if !n.isFinite then 0
  else
    let modulo := n.truncate % 0x100000000
    (UInt32.ofNatClamp modulo.toNat).toInt32.toInt

def toWord (n : Number) : BitVec 32 := BitVec.ofInt 32 n.toInt32

def shiftCount (n : Number) : Nat := n.toWord.toNat % 32

def ofSigned (w : BitVec 32) : Number := ofInt w.toInt

def ofUnsigned (w : BitVec 32) : Number := ofNat w.toNat

end Number

end CoercionTrace
