/-!
# Sets of characters given by ranges of code points

A property of characters that a standard fixes by enumeration is written here as a list of
closed ranges of code points.  A character has the property when one of the ranges holds its
code point; the order of the ranges does not matter for the answer.
-/

namespace RubyLint.Text

/-- A closed range of code points. -/
abbrev CodeRange := Nat × Nat

def inRanges (ranges : List CodeRange) (c : Char) : Bool :=
  ranges.any fun range => range.1 ≤ c.toNat && c.toNat ≤ range.2

theorem inRanges_iff (ranges : List CodeRange) (c : Char) :
    inRanges ranges c ↔ ∃ range ∈ ranges, range.1 ≤ c.toNat ∧ c.toNat ≤ range.2 := by
  simp [inRanges]

end RubyLint.Text
