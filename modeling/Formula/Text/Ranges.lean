/-!
# Sets of characters

A property of characters that is defined by a standard is given as the list of the ranges of code
points that have it, both ends included.
-/

namespace Formula.Text

abbrev Ranges := List (Nat × Nat)

/-- Membership of a character in a list of ranges. -/
def Ranges.contains (ranges : Ranges) (c : Char) : Bool :=
  ranges.any fun (low, high) => low ≤ c.toNat && c.toNat ≤ high

end Formula.Text
