/-! # Ranges of codes

A long table of ranges is given by its runs, each as the number of codes that are left out before it and the number of
codes that it has. -/

namespace LayerLoops.Text

/-- The inclusive ranges of runs of codes from `start` on. -/
def rangesFrom (start : Nat) : List (Nat × Nat) → List (Nat × Nat)
  | [] => []
  | (gap, count) :: runs => (start + gap, start + gap + count - 1) :: rangesFrom (start + gap + count) runs

def inRanges (ranges : List (Nat × Nat)) (c : Char) : Bool :=
  ranges.any fun r => r.1 ≤ c.toNat && c.toNat ≤ r.2

end LayerLoops.Text
