/-!
Sets of code points given by closed intervals.
-/

namespace FileCensus.Text

def inRanges (ranges : Array (Nat × Nat)) (n : Nat) : Bool :=
    ranges.any fun r => r.1 ≤ n && n ≤ r.2

end FileCensus.Text
