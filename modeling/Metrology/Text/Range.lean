/-!
# Ranges of code points

A set of characters given by the closed ranges of code points that make it up.
-/
namespace Metrology.Text

def inRanges (ranges : List (Nat × Nat)) (c : Char) : Bool :=
  ranges.any fun r => r.1 ≤ c.toNat && c.toNat ≤ r.2

theorem inRanges_iff {ranges : List (Nat × Nat)} {c : Char} :
    inRanges ranges c = true ↔ ∃ r ∈ ranges, r.1 ≤ c.toNat ∧ c.toNat ≤ r.2 := by
  simp [inRanges]

end Metrology.Text
