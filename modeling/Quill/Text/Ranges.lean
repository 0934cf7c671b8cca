/-!
# Sets of code points as ranges

A property of characters is given as a list of closed ranges of code points. Membership is
decided by running through the list, so a table can be read, counted and reasoned about as
ordinary data.
-/

set_option autoImplicit false

namespace Quill.Text

/-- Closed ranges of code points, each as its first and its last member. -/
abbrev Ranges := List (Nat × Nat)

/-- Whether a code point lies in one of the ranges. -/
def Ranges.contains (ranges : Ranges) (code : Nat) : Bool :=
  ranges.any fun range => range.1 ≤ code && code ≤ range.2

/-- Membership in a table is membership in one of its ranges. -/
theorem Ranges.contains_iff (ranges : Ranges) (code : Nat) :
    ranges.contains code = true ↔ ∃ range ∈ ranges, range.1 ≤ code ∧ code ≤ range.2 := by
  simp [Ranges.contains]

end Quill.Text
