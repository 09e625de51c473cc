/-!
# Sets of code points

A property of characters is given by the ranges of code points that have it, in ascending order.
-/

namespace HeaderBinding

/-- Ranges of code points, both ends included. -/
abbrev CodeRanges := List (Nat × Nat)

def CodeRanges.contains (ranges : CodeRanges) (code : Nat) : Bool :=
  ranges.any fun range => range.1 ≤ code && code ≤ range.2

end HeaderBinding
