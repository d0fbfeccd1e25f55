/-!
# Character ranges

Character classes given as ascending lists of closed ranges of code points.
-/

namespace CoercionTrace.Text

abbrev Ranges := List (Nat × Nat)

def Ranges.contains (r : Ranges) (c : Char) : Bool :=
  r.any fun p => p.1 ≤ c.toNat && c.toNat ≤ p.2

end CoercionTrace.Text
