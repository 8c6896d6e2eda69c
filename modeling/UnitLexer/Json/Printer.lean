/-
UnitLexer.Json.Printer — JSON values as text.

`Json.compact` writes no white space. `Json.pretty` puts every item and member
on a line of its own, two spaces deeper than what holds it, and writes the
empty array and the empty object without a line break. Characters beyond ASCII
are written as themselves in both.
-/
import UnitLexer.Json.Basic

namespace UnitLexer.Json

/-! ## §1 Strings and scalars -/

/-- The lower-case hexadecimal digit of a number below sixteen. -/
def hexDigit (n : Nat) : Char :=
  Nat.digitChar n

/-- What stands for a character in a JSON string: quotes, backslashes and the
controls below U+0020 are escaped, the latter by a letter where there is one. -/
def escapedChar (c : Char) : List Char :=
  if c = '"' then ['\\', '"']
  else if c = '\\' then ['\\', '\\']
  else if c = '\x08' then ['\\', 'b']
  else if c = '\x0c' then ['\\', 'f']
  else if c = '\n' then ['\\', 'n']
  else if c = '\r' then ['\\', 'r']
  else if c = '\t' then ['\\', 't']
  else if c.toNat < 0x20 then
    ['\\', 'u', '0', '0', hexDigit (c.toNat / 16), hexDigit (c.toNat % 16)]
  else [c]

/-- A JSON string. -/
def stringText (s : String) : List Char :=
  '"' :: s.toList.flatMap escapedChar ++ ['"']

/-- A truth value. -/
def boolText (b : Bool) : List Char :=
  if b then ['t', 'r', 'u', 'e'] else ['f', 'a', 'l', 's', 'e']

/-! ## §2 Compact text -/

mutual

/-- The text of a value without white space. -/
def compactText : Json → List Char
  | .null => ['n', 'u', 'l', 'l']
  | .bool b => boolText b
  | .number n => Nat.toDigits 10 n
  | .string s => stringText s
  | .array [] => ['[', ']']
  | .array (j :: js) => '[' :: compactText j ++ compactItems js
  | .object [] => ['{', '}']
  | .object ((k, j) :: ms) => '{' :: stringText k ++ ':' :: compactText j ++ compactMembers ms

/-- The further items of an array, to its end. -/
def compactItems : List Json → List Char
  | [] => [']']
  | j :: js => ',' :: compactText j ++ compactItems js

/-- The further members of an object, to its end. -/
def compactMembers : List (String × Json) → List Char
  | [] => ['}']
  | (k, j) :: ms => ',' :: stringText k ++ ':' :: compactText j ++ compactMembers ms

end

/-- The value on one line, without white space. -/
def compact (j : Json) : String :=
  String.ofList (compactText j)

/-! ## §3 Text on several lines -/

/-- A line break and the indentation of a depth. -/
def newline (depth : Nat) : List Char :=
  '\n' :: List.replicate (2 * depth) ' '

mutual

/-- The text of a value that stands at a depth, on as many lines as it needs. -/
def prettyText (depth : Nat) : Json → List Char
  | .null => ['n', 'u', 'l', 'l']
  | .bool b => boolText b
  | .number n => Nat.toDigits 10 n
  | .string s => stringText s
  | .array [] => ['[', ']']
  | .array (j :: js) =>
    '[' :: newline (depth + 1) ++ prettyText (depth + 1) j ++ prettyItems depth js
  | .object [] => ['{', '}']
  | .object ((k, j) :: ms) =>
    '{' :: newline (depth + 1) ++ stringText k ++ ':' :: ' ' :: prettyText (depth + 1) j ++
      prettyMembers depth ms

/-- The further items of an array that stands at a depth, to its end. -/
def prettyItems (depth : Nat) : List Json → List Char
  | [] => newline depth ++ [']']
  | j :: js => ',' :: newline (depth + 1) ++ prettyText (depth + 1) j ++ prettyItems depth js

/-- The further members of an object that stands at a depth, to its end. -/
def prettyMembers (depth : Nat) : List (String × Json) → List Char
  | [] => newline depth ++ ['}']
  | (k, j) :: ms =>
    ',' :: newline (depth + 1) ++ stringText k ++ ':' :: ' ' :: prettyText (depth + 1) j ++
      prettyMembers depth ms

end

/-- The value on several lines. -/
def pretty (j : Json) : String :=
  String.ofList (prettyText 0 j)

end UnitLexer.Json
