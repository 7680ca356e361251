/-!
# Ranges of code points

Character classes beyond ASCII are tables of ranges in increasing order. A range is given by its
first code point and the number of its code points.
-/

namespace NestLayers.Text

/-- Whether a code point lies in one of the ranges. The ranges increase, so the search
ends at the first one that starts beyond the code point. -/
def inRanges (n : Nat) : List (Nat × Nat) → Bool
  | [] => false
  | (first, count) :: rest => if n < first then false else n < first + count || inRanges n rest

end NestLayers.Text
