/-!
# Sets of characters given by ranges

A property of characters is a table of ranges of code points. Membership is decided by looking the
code point up in the table, in any order: the tables are short enough, and ASCII never needs them.
-/

namespace StockFlow.Text

/-- Ranges of code points, both ends included. -/
abbrev Ranges := List (Nat × Nat)

/-- Whether a code point lies in one of the ranges. -/
def Ranges.holds (ranges : Ranges) (n : Nat) : Bool := ranges.any fun r => r.1 ≤ n && n ≤ r.2

theorem Ranges.holds_iff {ranges : Ranges} {n : Nat} :
    ranges.holds n = true ↔ ∃ r ∈ ranges, r.1 ≤ n ∧ n ≤ r.2 := by
  simp [Ranges.holds]

end StockFlow.Text
