/-!
# Ranges of code points

A property of characters is given by the ranges of code points that have it.
-/

namespace CalcBasic.Text

/-- Whether a code point lies in one of the ranges, whose ends belong to them. -/
def inRanges (ranges : List (Nat × Nat)) (n : Nat) : Bool :=
  ranges.any fun r => r.1 ≤ n && n ≤ r.2

end CalcBasic.Text
