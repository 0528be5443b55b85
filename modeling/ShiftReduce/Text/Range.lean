/-!
# Ranges of characters

A property of characters is given by the code points that have it, as a list of
ranges in ascending order.
-/

namespace ShiftReduce.Text

/-- Whether a character lies in one of the ranges, both ends of each included. -/
def inRanges (ranges : List (Nat × Nat)) (c : Char) : Bool :=
  ranges.any fun (first, last) => first ≤ c.toNat && c.toNat ≤ last

end ShiftReduce.Text
