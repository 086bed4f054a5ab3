/-!
# Ranges of code points

Unicode properties are given as lists of ranges of code points.
-/

namespace GraphMachine
namespace Text

/-- Whether a code point lies in one of the ranges, whose ends are included. -/
def inRanges (ranges : List (Nat × Nat)) (n : Nat) : Bool :=
  ranges.any fun (low, high) => low ≤ n && n ≤ high

end Text
end GraphMachine
