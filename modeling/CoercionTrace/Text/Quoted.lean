/-!
# Quoted literals

A literal is a text between double quotes in which the quote, the backslash and the control
characters are spelled out. `json` writes the literals of a data file; `script` writes those of a
program, where the two line separators are spelled out too.
-/

namespace CoercionTrace.Text

def hexDigit (n : Nat) : Char :=
  if n < 10 then Char.ofNat (48 + n) else Char.ofNat (87 + n)

def hexFour (n : Nat) : List Char :=
  [hexDigit (n / 4096 % 16), hexDigit (n / 256 % 16), hexDigit (n / 16 % 16), hexDigit (n % 16)]

namespace Quoted

def jsonChar (c : Char) : List Char :=
  if c = '"' then ['\\', '"']
  else if c = '\\' then ['\\', '\\']
  else if c = '\x08' then ['\\', 'b']
  else if c = '\x0c' then ['\\', 'f']
  else if c = '\n' then ['\\', 'n']
  else if c = '\r' then ['\\', 'r']
  else if c = '\t' then ['\\', 't']
  else if c.toNat < 0x20 then '\\' :: 'u' :: hexFour c.toNat
  else [c]

def scriptChar (c : Char) : List Char :=
  if c = '\u2028' ∨ c = '\u2029' then '\\' :: 'u' :: hexFour c.toNat else jsonChar c

def literal (spell : Char → List Char) (text : String) : String :=
  String.ofList ('"' :: text.toList.flatMap spell ++ ['"'])

def json (text : String) : String := literal jsonChar text

def script (text : String) : String := literal scriptChar text

end Quoted

end CoercionTrace.Text
