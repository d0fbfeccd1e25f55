import CoercionTrace.Number.Shortest

/-!
# Numbers as text

A number is written with the fewest digits that read back to it: positionally from one millionth
up to a thousand trillion million, and otherwise with a signed exponent. Zero has no sign.
-/

namespace CoercionTrace

namespace Number

def digitChars (n : Nat) : List Char := (toString n).toList

def positional (d : Decimal) : List Char :=
  let ds := digitChars d.digits
  if 0 ≤ d.exponent then ds ++ List.replicate d.exponent.toNat '0'
  else
    let places := (-d.exponent).toNat
    if places < ds.length then
      ds.take (ds.length - places) ++ '.' :: ds.drop (ds.length - places)
    else '0' :: '.' :: List.replicate (places - ds.length) '0' ++ ds

def scientific (d : Decimal) : List Char :=
  let ds := digitChars d.digits
  let place : Int := d.exponent + (ds.length - 1 : Nat)
  let mantissa := match ds with
    | [] => []
    | [c] => [c]
    | c :: rest => c :: '.' :: rest
  mantissa ++ 'e' :: (if place < 0 then '-' else '+') :: digitChars place.natAbs

def Decimal.strip (d : Decimal) : Nat → Decimal
  | 0 => d
  | steps + 1 =>
    if d.digits % 10 = 0 ∧ d.digits ≠ 0 then
      Decimal.strip ⟨d.digits / 10, d.exponent + 1⟩ steps
    else d

def positionalPlace (place : Int) : Bool := -6 ≤ place && place < 21

def toText (n : Number) : String :=
  if n.isNaN then "NaN"
  else if n.isInfinite then if n.negative then "-Infinity" else "Infinity"
  else if n.isZero then "0"
  else
    let d := n.shortest.strip 20
    let place : Int := d.exponent + ((digitChars d.digits).length - 1 : Nat)
    let text := if positionalPlace place then positional d else scientific d
    String.ofList (if n.negative then '-' :: text else text)

end Number

end CoercionTrace
