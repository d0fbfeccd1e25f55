import CoercionTrace.Number.Arithmetic
import CoercionTrace.Number.Int32

/-!
# Numeric operators

The binary operators on numbers, by symbol. The bitwise ones act on 32-bit integers.
-/

namespace CoercionTrace

inductive NumericOperator
  | subtract
  | multiply
  | divide
  | remainder
  | power
  | bitOr
  | bitAnd
  | bitXor
  | shiftLeft
  | shiftRight
  | shiftRightZero
  deriving DecidableEq

namespace NumericOperator

def ofSymbol? : String → Option NumericOperator
  | "-" => some .subtract
  | "*" => some .multiply
  | "/" => some .divide
  | "%" => some .remainder
  | "**" => some .power
  | "|" => some .bitOr
  | "&" => some .bitAnd
  | "^" => some .bitXor
  | "<<" => some .shiftLeft
  | ">>" => some .shiftRight
  | ">>>" => some .shiftRightZero
  | _ => none

def apply (op : NumericOperator) (a b : Number) : Number :=
  match op with
  | .subtract => a.sub b
  | .multiply => a.mul b
  | .divide => a.div b
  | .remainder => a.rem b
  | .power => a.pow b
  | .bitOr => .ofSigned (a.toWord ||| b.toWord)
  | .bitAnd => .ofSigned (a.toWord &&& b.toWord)
  | .bitXor => .ofSigned (a.toWord ^^^ b.toWord)
  | .shiftLeft => .ofSigned (a.toWord <<< b.shiftCount)
  | .shiftRight => .ofSigned (a.toWord.sshiftRight b.shiftCount)
  | .shiftRightZero => .ofUnsigned (a.toWord >>> b.shiftCount)

end NumericOperator

end CoercionTrace
