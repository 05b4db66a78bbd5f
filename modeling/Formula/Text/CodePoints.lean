/-
# Formula.Text.CodePoints — sets of characters given by ranges of code points
-/

namespace Formula.Text

set_option autoImplicit false

/-- A set of characters as a list of ranges of code points, ends included. -/
abbrev CodePoints := List (Nat × Nat)

/-- Whether a character lies in one of the ranges. -/
def CodePoints.has (ranges : CodePoints) (c : Char) : Bool :=
  ranges.any fun (first, last) => first ≤ c.toNat && c.toNat ≤ last

theorem CodePoints.has_iff (ranges : CodePoints) (c : Char) :
    ranges.has c = true ↔ ∃ r ∈ ranges, r.1 ≤ c.toNat ∧ c.toNat ≤ r.2 := by
  simp [CodePoints.has]

end Formula.Text
