import CoercionTrace.Number.Basic

/-!
# Shortest decimals

The decimal with the fewest digits that still reads back to a number. The numbers that round to
`m · 2^q` fill an interval whose ends are half way to the neighbours and belong to it when `m` is
even; on each grid of decimals, coarsest first, the value's two neighbours are tried, and of two
that lie in the interval the nearer is taken, the upper one when they are equally near.
-/

namespace CoercionTrace

namespace Number

structure Decimal where
  digits : Nat
  exponent : Int
  deriving DecidableEq

/-- A finite positive magnitude and the ends of its rounding interval, over one denominator. -/
structure Interval where
  low : Nat
  value : Nat
  high : Nat
  den : Nat
  closed : Bool

/-- The interval of the magnitude `m · 2^q`. Below a power of two the neighbour is half as far. -/
def interval (n : Number) : Interval :=
  let up := twoTo n.exponent.toNat
  let den := 4 * twoTo (-n.exponent).toNat
  let m := n.mantissa
  let below := if n.fraction = 0 ∧ 1 < n.exponentField then 1 else 2
  { low := (4 * m - below) * up, value := 4 * m * up, high := (4 * m + 2) * up, den,
    closed := m % 2 = 0 }

def Interval.holds (i : Interval) (d : Decimal) : Bool :=
  let point := d.digits * tenTo d.exponent.toNat * i.den
  let unit := tenTo (-d.exponent).toNat
  if i.closed then i.low * unit ≤ point && point ≤ i.high * unit
  else i.low * unit < point && point < i.high * unit

/-- The neighbour of the value on the grid of multiples of `10^x` that lies in the interval, the
nearer one if both do. -/
def Interval.onGrid (i : Interval) (x : Int) : Option Decimal :=
  let num := i.value * tenTo (-x).toNat
  let den := i.den * tenTo x.toNat
  let lower : Decimal := ⟨num / den, x⟩
  let upper : Decimal := ⟨num / den + 1, x⟩
  match i.holds lower, i.holds upper with
  | true, true => some (if 2 * (num % den) < den then lower else upper)
  | true, false => some lower
  | false, true => some upper
  | false, false => none

/-- The exponent of the leading digit of `num / den`: the largest `k` with `10^k ≤ num / den`. -/
def leadingPlace (num den : Nat) : Int :=
  let guess : Int := (ratioLog num den * 30103) / 100000
  let fits (k : Int) : Bool := den * tenTo k.toNat ≤ num * tenTo (-k).toNat
  if fits (guess + 1) then guess + 1 else if fits guess then guess else guess - 1

def Interval.search (i : Interval) (place : Int) : Nat → Nat → Option Decimal
  | 0, _ => none
  | tries + 1, count =>
    match i.onGrid (place - count) with
    | some d => some d
    | none => Interval.search i place tries (count + 1)

/-- The shortest decimal that reads back to the magnitude of a finite nonzero number. -/
def shortest (n : Number) : Decimal :=
  let i := n.interval
  (i.search (leadingPlace i.value i.den) 17 0).getD ⟨0, 0⟩

end Number

end CoercionTrace
