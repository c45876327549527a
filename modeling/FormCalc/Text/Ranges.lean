/-!
# Sets of characters as code point ranges

A property of characters is a list of ranges, both ends included.
-/

namespace FormCalc.Text

/-- The first and the last code point of a range. -/
abbrev CodeRange := Nat × Nat

/-- Whether the character lies in one of the ranges. -/
def within (ranges : List CodeRange) (c : Char) : Bool :=
  ranges.any fun r => r.1 ≤ c.toNat && c.toNat ≤ r.2

end FormCalc.Text
