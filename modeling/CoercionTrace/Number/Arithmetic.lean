import CoercionTrace.Number.Basic

/-!
# Arithmetic

The four operations and the power are those of binary64. The remainder is exact and takes the sign
of the dividend.
-/

namespace CoercionTrace

namespace Number

def toFloat (n : Number) : Float := Float.ofBits n.bits

def ofFloat (f : Float) : Number := if f.isNaN then nan else ⟨f.toBits⟩

def add (a b : Number) : Number := ofFloat (a.toFloat + b.toFloat)

def sub (a b : Number) : Number := ofFloat (a.toFloat - b.toFloat)

def mul (a b : Number) : Number := ofFloat (a.toFloat * b.toFloat)

def div (a b : Number) : Number := ofFloat (a.toFloat / b.toFloat)

def pow (a b : Number) : Number := ofFloat (a.toFloat.pow b.toFloat)

/-- What is left of `a` after taking away `b` as often as it fits, computed without rounding. -/
def rem (a b : Number) : Number :=
  if a.isNaN || b.isNaN || a.isInfinite || b.isZero then nan
  else if b.isInfinite then a
  else
    let q := min a.exponent b.exponent
    let m := a.mantissa * twoTo (a.exponent - q).toNat % (b.mantissa * twoTo (b.exponent - q).toNat)
    withSign a.negative (scale m q)

end Number

end CoercionTrace
