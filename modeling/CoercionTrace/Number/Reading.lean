import CoercionTrace.Number.Basic
import CoercionTrace.Text.Blank

/-!
# Numbers read from text

White space at both ends is ignored and the empty text is zero. What is left is `Infinity` or a
decimal, either with an optional sign, or an unsigned literal of radix sixteen, eight or two that
fits 64 bits. Anything else is no number.
-/

namespace CoercionTrace

namespace Number

def digitValue (radix : Nat) (c : Char) : Option Nat :=
  let v :=
    if '0' ≤ c ∧ c ≤ '9' then c.toNat - 48
    else if 'a' ≤ c ∧ c ≤ 'f' then c.toNat - 87
    else if 'A' ≤ c ∧ c ≤ 'F' then c.toNat - 55
    else radix
  if v < radix then some v else none

def foldDigits (radix : Nat) : Nat → List Char → Option Nat
  | acc, [] => some acc
  | acc, c :: rest => (digitValue radix c).bind fun v => foldDigits radix (acc * radix + v) rest

/-- One or more digits, after a plus sign that may be left out. -/
def readRadix (radix : Nat) (s : List Char) : Option Nat :=
  let digits := match s with
    | '+' :: rest => rest
    | _ => s
  if digits.isEmpty then none else foldDigits radix 0 digits

def radixLiteral : List Char → Option (Nat × List Char)
  | '0' :: 'x' :: rest => some (16, rest)
  | '0' :: 'X' :: rest => some (16, rest)
  | '0' :: 'o' :: rest => some (8, rest)
  | '0' :: 'O' :: rest => some (8, rest)
  | '0' :: 'b' :: rest => some (2, rest)
  | '0' :: 'B' :: rest => some (2, rest)
  | _ => none

def asciiDigit (c : Char) : Bool := '0' ≤ c && c ≤ '9'

def decimalValue (ds : List Char) : Nat := ds.foldl (fun n c => n * 10 + (c.toNat - 48)) 0

/-- An exponent mark, an optional sign and one or more digits; or nothing at all. -/
def readExponent : List Char → Option Int
  | [] => some 0
  | e :: rest =>
    if e = 'e' ∨ e = 'E' then
      let (negative, digits) := match rest with
        | '-' :: ds => (true, ds)
        | '+' :: ds => (false, ds)
        | ds => (false, ds)
      if digits.isEmpty || !digits.all asciiDigit then none
      else some (if negative then -(decimalValue digits : Int) else decimalValue digits)
    else none

/-- Digits with an optional point and an optional exponent, at least one digit before the
exponent. -/
def readDecimal (s : List Char) : Option Number :=
  let whole := s.takeWhile asciiDigit
  let rest := s.dropWhile asciiDigit
  let (part, rest) := match rest with
    | '.' :: after => (after.takeWhile asciiDigit, after.dropWhile asciiDigit)
    | _ => ([], rest)
  if whole.isEmpty && part.isEmpty then none
  else (readExponent rest).map fun x => ofDecimal (decimalValue (whole ++ part)) (x - part.length)

def radixLimit : Nat := 0x10000000000000000

def readUnsigned (signed : Bool) (s : List Char) : Option Number :=
  if s = "Infinity".toList then some infinity
  else match radixLiteral s with
    | some (radix, digits) =>
      if signed then none
      else (readRadix radix digits).bind fun n => if n < radixLimit then some (ofNat n) else none
    | none => readDecimal s

def ofText (text : String) : Number :=
  match Text.trim text.toList with
  | [] => zero
  | '-' :: rest => ((readUnsigned true rest).map negate).getD nan
  | '+' :: rest => (readUnsigned true rest).getD nan
  | s => (readUnsigned false s).getD nan

end Number

end CoercionTrace
