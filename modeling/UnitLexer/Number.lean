/-
UnitLexer.Number — numeric literals.

A literal is digits, a fraction, or both, and then perhaps an exponent:
`[0-9]*\.?[0-9]+([eE][-+]?[0-9]+)?`. A point or an `e` belongs to the literal
only when digits follow it, so `1.` is the number `1` before a point and `1e`
the number `1` before a name.
-/
import UnitLexer.Text.Leading

namespace UnitLexer

/-- The digits at the start of the input. -/
def leadingDigits (cs : List Char) : List Char :=
  cs.takeWhile Char.isDigit

/-- A point and the digits after it; nothing when no digit follows the point. -/
def leadingFraction : List Char → List Char
  | '.' :: cs => if leadingDigits cs = [] then [] else '.' :: leadingDigits cs
  | _ => []

/-- Digits, with a sign in front or without; nothing when there is no digit. -/
def leadingInteger : List Char → List Char
  | '+' :: cs => if leadingDigits cs = [] then [] else '+' :: leadingDigits cs
  | '-' :: cs => if leadingDigits cs = [] then [] else '-' :: leadingDigits cs
  | cs => leadingDigits cs

/-- An `e` and the integer after it; nothing when no integer follows the `e`. -/
def leadingExponent : List Char → List Char
  | 'e' :: cs => if leadingInteger cs = [] then [] else 'e' :: leadingInteger cs
  | 'E' :: cs => if leadingInteger cs = [] then [] else 'E' :: leadingInteger cs
  | _ => []

/-- The digits and the fraction of a literal, before its exponent. -/
def leadingMantissa (cs : List Char) : List Char :=
  let whole := leadingDigits cs
  whole ++ leadingFraction (cs.drop whole.length)

/-- The numeric literal at the start of the input; empty if there is none. -/
def leadingNumber (cs : List Char) : List Char :=
  let mantissa := leadingMantissa cs
  if mantissa = [] then [] else mantissa ++ leadingExponent (cs.drop mantissa.length)

/-! ## A literal is the start of the input -/

theorem leadingDigits_isPrefix (cs : List Char) : leadingDigits cs <+: cs :=
  List.takeWhile_prefix Char.isDigit

theorem leadingFraction_isPrefix (cs : List Char) : leadingFraction cs <+: cs := by
  unfold leadingFraction
  split
  · split
    · exact List.nil_prefix
    · simpa using leadingDigits_isPrefix _
  · exact List.nil_prefix

theorem leadingInteger_isPrefix (cs : List Char) : leadingInteger cs <+: cs := by
  unfold leadingInteger
  split
  · split
    · exact List.nil_prefix
    · simpa using leadingDigits_isPrefix _
  · split
    · exact List.nil_prefix
    · simpa using leadingDigits_isPrefix _
  · exact leadingDigits_isPrefix _

theorem leadingExponent_isPrefix (cs : List Char) : leadingExponent cs <+: cs := by
  unfold leadingExponent
  split
  · split
    · exact List.nil_prefix
    · simpa using leadingInteger_isPrefix _
  · split
    · exact List.nil_prefix
    · simpa using leadingInteger_isPrefix _
  · exact List.nil_prefix

theorem leadingNumber_isPrefix (cs : List Char) : leadingNumber cs <+: cs := by
  have mantissa : leadingMantissa cs <+: cs :=
    append_isPrefix (leadingDigits_isPrefix cs) (leadingFraction_isPrefix _)
  unfold leadingNumber
  dsimp only
  split
  · exact List.nil_prefix
  · exact append_isPrefix mantissa (leadingExponent_isPrefix _)

end UnitLexer
