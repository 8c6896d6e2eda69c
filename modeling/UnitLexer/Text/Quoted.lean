/-
UnitLexer.Text.Quoted — text in double quotes, on one line and readable.

A quoted text shows every character that can be seen as itself and writes the
others by an escape, so a text with line breaks, quotes or controls in it
still occupies a single line and is told from every other text.
-/
import UnitLexer.Text.Combining
import UnitLexer.Text.Unprintable

namespace UnitLexer.Text

/-- The code point in lower-case hexadecimal, without leading zeros. -/
def hexDigits (c : Char) : List Char :=
  Nat.toDigits 16 c.toNat

/-- What stands for a character between the quotes: a short escape where there
is one, the code point in braces for what cannot be seen or would join the
character before it, and otherwise the character. A single quote needs no
escape. -/
def quotedChar (c : Char) : List Char :=
  if c = '\x00' then ['\\', '0']
  else if c = '\t' then ['\\', 't']
  else if c = '\r' then ['\\', 'r']
  else if c = '\n' then ['\\', 'n']
  else if c = '"' then ['\\', '"']
  else if c = '\\' then ['\\', '\\']
  else if isCombining c || isUnprintable c then ['\\', 'u', '{'] ++ hexDigits c ++ ['}']
  else [c]

/-- The text between double quotes. -/
def quoted (s : String) : String :=
  String.ofList ('"' :: s.toList.flatMap quotedChar ++ ['"'])

end UnitLexer.Text
