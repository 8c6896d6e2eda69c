/-
UnitLexer.Text.CharClass — the character classes the rules scan by.

All classes are ASCII except the two for unit words, which also admit the
alphabetic characters beyond ASCII: `µ` and `Ω` are letters of unit symbols,
while names, numbers and operators are spelled in ASCII alone.
-/
import UnitLexer.Text.Alphabetic

namespace UnitLexer

/-- A space or a tab: white space that stays on its line. -/
def isBlank (c : Char) : Bool :=
  c == ' ' || c == '\t'

/-- White space, line breaks included. -/
def isSpace (c : Char) : Bool :=
  isBlank c || c == '\r' || c == '\n'

/-- A character that may start a name. -/
def isWordStart (c : Char) : Bool :=
  c.isAlpha || c == '_'

/-- A character that may continue a name. -/
def isWordChar (c : Char) : Bool :=
  c.isAlphanum || c == '_'

/-- A character that may start a unit word. -/
def isUnitStart (c : Char) : Bool :=
  isWordStart c || (0x80 ≤ c.toNat && Text.isAlphabetic c)

/-- A character that may continue a unit word. -/
def isUnitChar (c : Char) : Bool :=
  isUnitStart c || c.isDigit

/-- The characters that runs of operators and symbols are made of. -/
def symbolChars : List Char :=
  ['=', '>', '<', '!', '~', '?', ':', '&', '|', '+', '-', '*', '/', '^', '%']

/-- A character of an operator or symbol run. -/
def isSymbol (c : Char) : Bool :=
  symbolChars.contains c

/-! ## How the classes meet -/

theorem isSpace_of_isBlank {c : Char} (h : isBlank c = true) : isSpace c = true := by
  simp [isSpace, h]

theorem isWordChar_of_isWordStart {c : Char} (h : isWordStart c = true) : isWordChar c = true := by
  simp only [isWordStart, Bool.or_eq_true] at h
  rcases h with h | h <;> simp [isWordChar, Char.isAlphanum, h]

theorem isUnitStart_of_isWordStart {c : Char} (h : isWordStart c = true) : isUnitStart c = true := by
  simp [isUnitStart, h]

theorem isUnitChar_of_isUnitStart {c : Char} (h : isUnitStart c = true) : isUnitChar c = true := by
  simp [isUnitChar, h]

end UnitLexer
