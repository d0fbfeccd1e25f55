import CoercionTrace.Document.Basic

/-!
# Reading documents

The reader accepts exactly the texts of the format: no comments, no trailing commas, nothing before
or after the value but blanks. Each step returns what is left of the text.
-/

namespace CoercionTrace

namespace Document

def isSpace (c : Char) : Bool := c == ' ' || c == '\t' || c == '\n' || c == '\r'

def skipSpace (s : List Char) : List Char := s.dropWhile isSpace

def isDigit (c : Char) : Bool := '0' ≤ c && c ≤ '9'

def digits (s : List Char) : Option (List Char × List Char) :=
  let ds := s.takeWhile isDigit
  if ds.isEmpty then none else some (ds, s.dropWhile isDigit)

def whole : List Char → Option (List Char × List Char)
  | '0' :: rest => if (rest.head?.map isDigit).getD false then none else some (['0'], rest)
  | s => digits s

def decimals : List Char → Option (List Char × List Char)
  | '.' :: rest => (digits rest).map fun p => ('.' :: p.1, p.2)
  | s => some ([], s)

def power : List Char → Option (List Char × List Char)
  | e :: rest =>
    if e = 'e' ∨ e = 'E' then
      match rest with
      | '+' :: after => (digits after).map fun p => (e :: '+' :: p.1, p.2)
      | '-' :: after => (digits after).map fun p => (e :: '-' :: p.1, p.2)
      | _ => (digits rest).map fun p => (e :: p.1, p.2)
    else some ([], e :: rest)
  | [] => some ([], [])

def numberLiteral (s : List Char) : Option (String × List Char) := do
  let (sign, s) := match s with
    | '-' :: rest => (['-'], rest)
    | _ => ([], s)
  let (i, s) ← whole s
  let (d, s) ← decimals s
  let (e, s) ← power s
  return (String.ofList (sign ++ i ++ d ++ e), s)

def hexValue (c : Char) : Option Nat :=
  if '0' ≤ c ∧ c ≤ '9' then some (c.toNat - 48)
  else if 'a' ≤ c ∧ c ≤ 'f' then some (c.toNat - 87)
  else if 'A' ≤ c ∧ c ≤ 'F' then some (c.toNat - 55)
  else none

def hexFour : List Char → Option (Nat × List Char)
  | a :: b :: c :: d :: rest => do
    let a ← hexValue a
    let b ← hexValue b
    let c ← hexValue c
    let d ← hexValue d
    return (a * 4096 + b * 256 + c * 16 + d, rest)
  | _ => none

def simpleEscape : Char → Option Char
  | '"' => some '"'
  | '\\' => some '\\'
  | '/' => some '/'
  | 'b' => some '\x08'
  | 'f' => some '\x0c'
  | 'n' => some '\n'
  | 'r' => some '\r'
  | 't' => some '\t'
  | _ => none

/-- The pieces of a string up to its closing quote: characters, and numbers given by escapes. -/
def pieces : Nat → List Char → Option (List (Char ⊕ Nat) × List Char)
  | 0, _ => none
  | _, [] => none
  | fuel + 1, c :: rest =>
    if c = '"' then some ([], rest)
    else if c = '\\' then
      match rest with
      | 'u' :: after => do
        let (n, after) ← hexFour after
        let (ps, s) ← pieces fuel after
        return (.inr n :: ps, s)
      | e :: after => do
        let d ← simpleEscape e
        let (ps, s) ← pieces fuel after
        return (.inl d :: ps, s)
      | [] => none
    else if c.toNat < 0x20 then none
    else do
      let (ps, s) ← pieces fuel rest
      return (.inl c :: ps, s)

def isHighSurrogate (n : Nat) : Bool := 0xD800 ≤ n && n ≤ 0xDBFF

def isLowSurrogate (n : Nat) : Bool := 0xDC00 ≤ n && n ≤ 0xDFFF

/-- The text that pieces stand for. A surrogate counts only as half of a pair. -/
def assemble : List (Char ⊕ Nat) → Option (List Char)
  | [] => some []
  | .inl c :: rest => (assemble rest).map (c :: ·)
  | .inr n :: rest =>
    if isLowSurrogate n then none
    else if isHighSurrogate n then
      match rest with
      | .inr m :: after =>
        if isLowSurrogate m then
          (assemble after).map
            (Char.ofNat (0x10000 + (n - 0xD800) * 0x400 + (m - 0xDC00)) :: ·)
        else none
      | _ => none
    else (assemble rest).map (Char.ofNat n :: ·)

def stringBody (s : List Char) : Option (Option String × List Char) :=
  (pieces (s.length + 1) s).map fun p => ((assemble p.1).map String.ofList, p.2)

def expect (word : String) (s : List Char) : Option (List Char) :=
  if word.toList.isPrefixOf s then some (s.drop word.length) else none

mutual

def value : Nat → List Char → Option (Document × List Char)
  | 0, _ => none
  | fuel + 1, s =>
    match skipSpace s with
    | '\x7b' :: rest =>
      match skipSpace rest with
      | '\x7d' :: after => some (.object [], after)
      | after => (members fuel after).map fun p => (.object p.1, p.2)
    | '[' :: rest =>
      match skipSpace rest with
      | ']' :: after => some (.array [], after)
      | after => (elements fuel after).map fun p => (.array p.1, p.2)
    | '"' :: rest => (stringBody rest).map fun p => (.string p.1, p.2)
    | 't' :: rest => (expect "rue" rest).map fun s => (.bool true, s)
    | 'f' :: rest => (expect "alse" rest).map fun s => (.bool false, s)
    | 'n' :: rest => (expect "ull" rest).map fun s => (.null, s)
    | other => (numberLiteral other).map fun p => (.number p.1, p.2)

def elements : Nat → List Char → Option (List Document × List Char)
  | 0, _ => none
  | fuel + 1, s => do
    let (first, s) ← value fuel s
    match skipSpace s with
    | ']' :: rest => return ([first], rest)
    | ',' :: rest =>
      let (others, s) ← elements fuel rest
      return (first :: others, s)
    | _ => none

def members : Nat → List Char → Option (List (Option String × Document) × List Char)
  | 0, _ => none
  | fuel + 1, s => do
    let (name, s) ← match skipSpace s with
      | '"' :: rest => stringBody rest
      | _ => none
    let s ← match skipSpace s with
      | ':' :: rest => some rest
      | _ => none
    let (first, s) ← value fuel s
    match skipSpace s with
    | '\x7d' :: rest => return ([(name, first)], rest)
    | ',' :: rest =>
      let (others, s) ← members fuel rest
      return ((name, first) :: others, s)
    | _ => none

end

def read? (text : String) : Option Document :=
  match value (text.length + 1) text.toList with
  | some (d, rest) => if (skipSpace rest).isEmpty then some d else none
  | none => none

end Document

end CoercionTrace
