/-
UnitLexer.Text.CharRange — sets of characters given by ranges of code points.

The Unicode properties this library asks for are tables of closed ranges; one
membership test serves them all.
-/

namespace UnitLexer.Text

/-- A closed range of code points, first and last. -/
abbrev CharRange := Nat × Nat

/-- The code point of the character lies in one of the ranges. -/
def inRanges (c : Char) (ranges : List CharRange) : Bool :=
  ranges.any fun r => r.1 ≤ c.toNat && c.toNat ≤ r.2

end UnitLexer.Text
