/-!
# `InodeStore.Text.Ranges` — sets of code points

A set of code points is a list of closed ranges. `inRanges` looks a code point up, `ascending` tells
whether the ranges are in order and apart, and `count` how many code points such ranges hold.
-/

namespace InodeStore.Text

/-- Is a code point in one of the ranges? -/
def inRanges (ranges : List (Nat × Nat)) (n : Nat) : Bool :=
  ranges.any fun r => r.1 ≤ n && n ≤ r.2

/-- Are the ranges in order, with something between any two of them? -/
def ascending : List (Nat × Nat) → Bool
  | [] => true
  | [r] => r.1 ≤ r.2
  | r :: s :: rest => r.1 ≤ r.2 && r.2 + 1 < s.1 && ascending (s :: rest)

/-- The number of code points in ranges that are apart. -/
def count : List (Nat × Nat) → Nat
  | [] => 0
  | r :: rest => (r.2 + 1 - r.1) + count rest

/-- A code point is in the set when a range holds it. -/
theorem inRanges_iff (ranges : List (Nat × Nat)) (n : Nat) :
    inRanges ranges n = true ↔ ∃ r ∈ ranges, r.1 ≤ n ∧ n ≤ r.2 := by
  simp [inRanges]

end InodeStore.Text
