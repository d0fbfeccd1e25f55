/-!
# Fresh names

Names made for generated variables. All of them begin with a run of dollar signs longer than any
run in the program text, so none of them occurs in it.
-/

namespace CoercionTrace

def longestDollarRun (current longest : Nat) : List Char → Nat
  | [] => max current longest
  | c :: rest =>
    if c = '$' then longestDollarRun (current + 1) longest rest
    else longestDollarRun 0 (max current longest) rest

/-- A source of names: how many dollar signs they begin with, and the next number. -/
structure NameSupply where
  dollars : Nat
  next : Nat := 0
  deriving DecidableEq, Inhabited

inductive NameUse
  | temporary
  | traceId
  deriving DecidableEq

def NameUse.stem : NameUse → String
  | .temporary => "t"
  | .traceId => "ft"

namespace NameSupply

def forProgram (text : List Char) : NameSupply :=
  { dollars := max 2 (longestDollarRun 0 0 text + 1) }

def stem (s : NameSupply) : String := String.ofList (List.replicate s.dollars '$')

def fresh (s : NameSupply) (use : NameUse) : String × NameSupply :=
  (s.stem ++ use.stem ++ toString s.next, { s with next := s.next + 1 })

def freshMany (s : NameSupply) : List NameUse → List String
  | [] => []
  | use :: rest => let (name, s') := s.fresh use; name :: freshMany s' rest

end NameSupply

end CoercionTrace
