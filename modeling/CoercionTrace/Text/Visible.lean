import CoercionTrace.Text.Printable
import CoercionTrace.Text.GraphemeExtend
import CoercionTrace.Text.Quoted

/-!
# Visible form

The form in which a text is shown for inspection: between quotes, with every character that is
not visible on its own given by its code point.
-/

namespace CoercionTrace.Text

def hexDigits (n : Nat) : List Char :=
  if _h : n < 16 then [hexDigit n] else hexDigits (n / 16) ++ [hexDigit (n % 16)]
termination_by n
decreasing_by omega

/-- A character that follows another in the same visible unit is given by its code point too. -/
def visibleChar (c : Char) : List Char :=
  if c = '\x00' then ['\\', '0']
  else if c = '\t' then ['\\', 't']
  else if c = '\r' then ['\\', 'r']
  else if c = '\n' then ['\\', 'n']
  else if c = '\\' then ['\\', '\\']
  else if c = '"' then ['\\', '"']
  else if isPrintable c && !isGraphemeExtend c then [c]
  else ['\\', 'u', '\x7b'] ++ hexDigits c.toNat ++ ['\x7d']

def visible (text : String) : String := Quoted.literal visibleChar text

end CoercionTrace.Text
