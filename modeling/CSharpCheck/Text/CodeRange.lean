/-!
# Ranges of code points

A property of characters is given as a list of inclusive ranges of code points.
-/

namespace CSharpCheck

/-- An inclusive range of code points. -/
abbrev CodeRange := Nat × Nat

/-- Whether the character lies in one of the ranges. -/
def inRanges (ranges : List CodeRange) (c : Char) : Bool :=
  ranges.any fun (low, high) ↦ low ≤ c.toNat && c.toNat ≤ high

end CSharpCheck
