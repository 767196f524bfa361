/-!
# Sets of characters as lists of ranges
-/

namespace ManifestSync.Text

/-- Whether a code point lies in one of the ranges, both ends of each included. -/
def inRanges (ranges : List (Nat × Nat)) (n : Nat) : Bool :=
  ranges.any fun (low, high) => low ≤ n && n ≤ high

end ManifestSync.Text
