set_option autoImplicit false

/-! # Sets of characters given by ranges of code points

A character class is stored as the list of its ranges, both ends included. -/

namespace ScriptLang.Text

/-- A set of code points, as ranges with both ends included. -/
abbrev CodeRanges := List (Nat × Nat)

/-- Whether the code point of `c` lies in one of the ranges. -/
def CodeRanges.contains (ranges : CodeRanges) (c : Char) : Bool :=
  ranges.any fun (first, last) => first ≤ c.toNat && c.toNat ≤ last

end ScriptLang.Text
