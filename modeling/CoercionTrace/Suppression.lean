import CoercionTrace.Diagnostic
import CoercionTrace.Text.Blank
import CoercionTrace.Text.Word

/-!
# Suppressed lines

A line may end in a comment that switches instrumentation: `off` for every line after it until
`on`, `ignore` for the next line only. A directive that changes nothing is worth a diagnostic and
an unknown verb abandons the file.
-/

namespace CoercionTrace

def splitLines : List Char → List (List Char)
  | [] => [[]]
  | c :: rest =>
    if c = '\n' then [] :: splitLines rest
    else match splitLines rest with
      | [] => [[c]]
      | line :: lines => (c :: line) :: lines

def dropCarriageReturn (line : List Char) : List Char :=
  if line.getLast? = some '\r' then line.dropLast else line

namespace Directive

def ofVerb? : String → Option Directive
  | "on" => some .on
  | "off" => some .off
  | "ignore" => some .ignore
  | _ => none

def verbAt? (s : List Char) : Option String :=
  if "//".toList.isPrefixOf s then
    let label := (s.drop 2).dropWhile Text.isBlank
    if "JSane:".toList.isPrefixOf label then
      let rest := (label.drop 6).dropWhile Text.isBlank
      let verb := rest.takeWhile Text.isWord
      if verb.isEmpty || !(rest.dropWhile Text.isWord).all Text.isBlank then none
      else some (String.ofList verb)
    else none
  else none

def verbIn? : List Char → Option String
  | [] => none
  | c :: rest => (verbAt? (c :: rest)).or (verbIn? rest)

end Directive

structure LineEffect where
  off : Bool
  next : Bool
  complaint : Option Complaint := none

def Directive.effect (off : Bool) (d : Directive) : LineEffect :=
  match d with
  | .ignore => { off, next := true, complaint := if off then some (.duplicateDirective d) else none }
  | .off => { off := true, next := true,
              complaint := if off then some (.duplicateDirective d) else none }
  | .on => { off := false, next := false,
             complaint := if off then none else some (.duplicateDirective d) }

structure Suppression where
  rows : List Bool := []
  deriving DecidableEq, Inhabited

namespace Suppression

def isSuppressed (s : Suppression) (row : Nat) : Bool := s.rows.getD row false

def any (s : Suppression) : Bool := s.rows.any id

/-- For each line from `row` on, whether the line after it is suppressed; with the diagnostics. -/
def scanLines (file : String) (off : Bool) (row : Nat) :
    List (List Char) → Except InstrumentError (List Bool × List Diagnostic)
  | [] => .ok ([], [])
  | line :: rest => do
    let effect ← match Directive.verbIn? (dropCarriageReturn line) with
      | none => .ok { off, next := off : LineEffect }
      | some verb => match Directive.ofVerb? verb with
        | some d => .ok (d.effect off)
        | none => .error (.unknownDirective file (row + 1) verb)
    let (flags, diagnostics) ← scanLines file effect.off (row + 1) rest
    let here := effect.complaint.toList.map fun c => { file, line := row + 1, complaint := c }
    return (effect.next :: flags, here ++ diagnostics)

def scan (file : String) (source : List Char) :
    Except InstrumentError (Suppression × List Diagnostic) := do
  let (flags, diagnostics) ← scanLines file false 0 (splitLines source)
  return (⟨false :: flags.dropLast⟩, diagnostics)

end Suppression

end CoercionTrace
