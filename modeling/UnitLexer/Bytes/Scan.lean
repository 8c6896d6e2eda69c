/-
UnitLexer.Bytes.Scan — the rules as they scan a source.

A rule gets a cursor and answers with the lengths of what it has found there,
in bytes, or it asks for a cut that is refused. What it looks up in the tables
it cuts out of the source. The rules, and the order in which a mode tries them,
are those of the grammar.
-/
import UnitLexer.Bytes.Cursor
import UnitLexer.Rule.Literal
import UnitLexer.Rule.Quantity

namespace UnitLexer.Bytes

open Rule (parenthesis)

/-! ## §1 Answers -/

/-- A classified run of bytes. -/
structure Piece where
  kind : Kind
  length : Nat
  deriving DecidableEq, Repr

/-- The answer of a rule that applies. -/
structure Scanned where
  pieces : List Piece
  transition : Transition
  deriving DecidableEq, Repr

namespace Scanned

/-- How many bytes a step takes. -/
def length (s : Scanned) : Nat :=
  s.pieces.foldr (fun p n => p.length + n) 0

/-- A step that takes one piece. -/
def one (kind : Kind) (length : Nat) (transition : Transition) : Scanned :=
  ⟨[⟨kind, length⟩], transition⟩

/-- A step that takes one piece, unless it would be empty. -/
def one? (kind : Kind) (length : Nat) (transition : Transition) : Option Scanned :=
  if length = 0 then none else some (one kind length transition)

/-- A step that takes adjacent pieces, the empty ones left out. -/
def several (pieces : List Piece) (transition : Transition) : Scanned :=
  ⟨pieces.filter fun p => p.length ≠ 0, transition⟩

/-- Leave the mode without taking anything. -/
def handBack : Scanned :=
  ⟨[], .pop⟩

end Scanned

/-- A rule of a mode: a step, nothing where the rule does not apply, or no answer
at all where a cut is refused. -/
abbrev Scan := Tables → Cursor → Except Refusal (Option Scanned)

/-! ## §2 What stands at a cursor -/

/-- How many digits there are from an index on. -/
def digitsFrom (bytes : List UInt8) (i : Nat) : Nat :=
  ((bytes.drop i).takeWhile (codeIn Char.isDigit)).length

/-- Where the digits and the fraction of a literal end. -/
def mantissaEnd? (bytes : List UInt8) : Option Nat :=
  let whole := digitsFrom bytes 0
  if bytes[whole]? = some '.'.toUInt8 ∧ 0 < digitsFrom bytes (whole + 1) then
    some (whole + 1 + digitsFrom bytes (whole + 1))
  else if 0 < whole then some whole
  else none

/-- Where the exponent behind a mantissa ends, which is the end of the mantissa
where there is none. -/
def exponentEnd (bytes : List UInt8) (mantissa : Nat) : Nat :=
  if bytes[mantissa]? = some 'e'.toUInt8 ∨ bytes[mantissa]? = some 'E'.toUInt8 then
    let sign := mantissa + 1
    let digits :=
      if bytes[sign]? = some '+'.toUInt8 ∨ bytes[sign]? = some '-'.toUInt8 then sign + 1 else sign
    if 0 < digitsFrom bytes digits then digits + digitsFrom bytes digits else mantissa
  else mantissa

/-- The length of the numeric literal that the bytes start with. -/
def scanNumber? (bytes : List UInt8) : Option Nat :=
  (mantissaEnd? bytes).map (exponentEnd bytes)

/-- The length of the name at the cursor, zero if there is none. -/
def nameLength (c : Cursor) : Nat :=
  if codeIn isWordStart c.current then (c.eatWhile (codeIn isWordChar)).pos - c.pos else 0

/-- The length of the unit word at the cursor, zero if there is none. -/
def unitWordLength (c : Cursor) : Except Refusal Nat := do
  match ← c.char? with
  | some d =>
    if isUnitStart d then return (← c.eatCharWhile isUnitChar).pos - c.pos else return 0
  | none => return 0

/-- The length of the unit word at the cursor if it reads as a unit. -/
def unitLength? (ts : Tables) (c : Cursor) : Except Refusal (Option Nat) := do
  let n ← unitWordLength c
  if n = 0 then return none
  else return if ts.isUnit (← c.lookahead n) then some n else none

/-- The cursor behind blanks and opening parentheses. -/
def skipOpenings (c : Cursor) : Cursor :=
  if h : c.eatBlanks.current = '('.toUInt8 then
    have hle : c.pos ≤ c.eatBlanks.pos := Cursor.le_pos_eatWhile ..
    have hlt : c.eatBlanks.pos < c.eatBlanks.source.utf8ByteSize :=
      Cursor.lt_of_current_ne_zero (by rw [h]; decide)
    skipOpenings (c.eatBlanks.advance 1)
  else c.eatBlanks
termination_by c.source.utf8ByteSize - c.pos
decreasing_by
  rw [Cursor.source_eatBlanks] at hlt
  simp only [Cursor.source_advance, Cursor.source_eatBlanks, Cursor.pos_advance]
  omega

/-- A parenthesis stands at the cursor, and the first word past blanks and further
parentheses is a unit. -/
def opensUnitGroup (ts : Tables) (c : Cursor) : Except Refusal Bool := do
  if c.current = '('.toUInt8 then return (← unitLength? ts (skipOpenings c)).isSome
  else return false

/-- The quote at the cursor. -/
def quote? (c : Cursor) : Option Quote :=
  Quote.ofChar? (Char.ofUInt8 c.current)

/-- The end of the line, if nothing up to there closes a string: no quote outside
an escape, and no backslash at the end. -/
def unclosedEnd? (quote : Quote) (c : Cursor) : Option Cursor :=
  if h : c.atLineEnd then some c
  else
    have hend : c.atEnd = false := by simp_all [Cursor.atLineEnd]
    have hlt : c.pos < c.source.utf8ByteSize := Cursor.atEnd_eq_false.mp hend
    have hchar : c.pos < c.advanceChar.pos := Cursor.lt_pos_advanceChar hend
    have hescape : (c.advance 1).pos ≤ (c.advance 1).advanceChar.pos := Cursor.le_pos_advanceChar _
    if c.current = quote.char.toUInt8 then none
    else if c.current = '\\'.toUInt8 then
      if (c.advance 1).atLineEnd then none else unclosedEnd? quote (c.advance 1).advanceChar
    else unclosedEnd? quote c.advanceChar
termination_by c.source.utf8ByteSize - c.pos
decreasing_by
  all_goals
    simp only [Cursor.source_advanceChar, Cursor.source_advance, Cursor.pos_advance] at *
    omega

/-! ## §3 Rules of one shape -/

namespace Scan

/-- Takes the longest run of bytes in a class. -/
def run (p : Char → Bool) (kind : Kind) (transition : Transition) : Scan :=
  fun _ c => return Scanned.one? kind ((c.eatWhile (codeIn p)).pos - c.pos) transition

/-- Takes one of the listed characters, of one byte each. -/
def oneOf (chars : List Char) (kind : Kind) (transition : Transition) : Scan :=
  fun _ c =>
    return if c.current ∈ chars.map Char.toUInt8 then some (.one kind 1 transition) else none

/-- Takes a word that reads as a unit. -/
def unit (transition : Transition) : Scan :=
  fun ts c => return (← unitLength? ts c).map fun n => .one .unit n transition

/-- Takes a parenthesis that opens a group of units. -/
def group (transition : Transition) : Scan :=
  fun ts c => return if ← opensUnitGroup ts c then some (.one parenthesis 1 transition) else none

/-- Applies everywhere and hands the input back to the enclosing mode. -/
def handBack : Scan :=
  fun _ _ => return some .handBack

/-! ## §4 The root -/

/-- A hash and the rest of its line. -/
def comment : Scan := fun _ c => do
  if c.current = '#'.toUInt8 then return some (.one .comment ((← c.eatLine).pos - c.pos) .stay)
  else return none

/-- A numeric literal; a unit may follow. -/
def number : Scan := fun _ c => do
  return (scanNumber? (bytesOf (← c.unread))).map fun n => .one .number n (.push .expectUnit)

/-- `def`, white space and a name. -/
def declaration : Scan := fun _ c => do
  if ['d', 'e', 'f'].isPrefixOf (← c.unread).toList then
    let gap := c.advance 3
    let name := gap.eatWhile (codeIn isSpace)
    if name.pos - gap.pos = 0 ∨ nameLength name = 0 then return none
    else return some (.several
      [⟨.keyword, 3⟩, ⟨.space, name.pos - gap.pos⟩, ⟨.declaration, nameLength name⟩] .stay)
  else return none

/-- A name, perhaps blanks, and an opening parenthesis. -/
def call : Scan := fun ts c => do
  if nameLength c = 0 then return none
  else
    let name ← c.lookahead (nameLength c)
    let gap := c.advance (nameLength c)
    if name ∈ ts.keywords then return none
    else if gap.eatBlanks.current ≠ '('.toUInt8 then return none
    else return some (.several
      [⟨if name ∈ ts.builtins then .builtin else .call, nameLength c⟩,
        ⟨.space, gap.eatBlanks.pos - gap.pos⟩, ⟨parenthesis, 1⟩] .stay)

/-- A word: a keyword, a builtin, a known unit or a plain name, in that order. -/
def word : Scan := fun ts c => do
  let name ← c.lookahead (nameLength c)
  let unitWord ← unitWordLength c
  if nameLength c ≠ 0 ∧ name ∈ ts.keywords then return some (.one .keyword (nameLength c) .stay)
  else if nameLength c ≠ 0 ∧ name ∈ ts.builtins then
    return some (.one .builtin (nameLength c) .stay)
  else if unitWord ≠ 0 ∧ (← c.lookahead unitWord) ∈ ts.knownUnits then
    return some (.one .unit unitWord .stay)
  else if nameLength c ≠ 0 ∧ name ∈ ts.knownUnits then
    return some (.one .unit (nameLength c) .stay)
  else return Scanned.one? .identifier (nameLength c) .stay

/-- A quote whose string its line does not close. -/
def unclosedString : Scan := fun _ c =>
  return do
    let quote ← quote? c
    let stop ← unclosedEnd? quote (c.advance 1)
    some (.one .brokenString (stop.pos - c.pos) .stay)

/-- A quote that opens a string. -/
def stringOpening : Scan := fun _ c =>
  return (quote? c).map fun quote => .one .quote 1 (.push (.string quote))

/-- A bracket, classified by its shape. -/
def bracket : Scan := fun _ c =>
  return (Bracket.ofChar? (Char.ofUInt8 c.current)).map fun shape => .one (.bracket shape) 1 .stay

/-- The longest run of symbol characters: an operator if the tables list it. -/
def symbolRun : Scan := fun ts c => do
  let stop := c.eatWhile (codeIn isSymbol)
  if stop.pos - c.pos = 0 then return none
  else
    let kind := if (← stop.textSince c.pos) ∈ ts.operators then Kind.operator else .symbol
    return some (.one kind (stop.pos - c.pos) .stay)

/-! ## §5 Strings -/

/-- A backslash and a character on the same line. -/
def stringEscape : Scan := fun _ c =>
  if c.current = '\\'.toUInt8 then
    if (c.advance 1).atLineEnd then return none
    else return some (.one .escape ((c.advance 1).advanceChar.pos - c.pos) .stay)
  else return none

/-! ## §6 Units -/

/-- The exponent: digits with a sign or without. -/
def exponent : Scan := fun _ c =>
  let digits := if c.current ∈ ['-', '+'].map Char.toUInt8 then c.advance 1 else c
  let stop := digits.eatWhile (codeIn Char.isDigit)
  return if 0 < stop.pos - digits.pos then some (.one .exponent (stop.pos - c.pos) .pop) else none

/-- A word in a group: a unit if it reads as one, else a name. -/
def groupWord : Scan := fun ts c => do
  let n ← unitWordLength c
  if n = 0 then return none
  else
    let kind := if ts.isUnit (← c.lookahead n) then Kind.unit else .identifier
    return some (.one kind n .stay)

end Scan

/-! ## §7 Modes -/

open Scan

/-- White space of any kind. -/
def whitespaceRules : List Scan :=
  [run isSpace .space .stay]

/-- The rules of a mode, in order of precedence. -/
def rules : Mode → List Scan
  | .root =>
    [comment, number, declaration, call, word] ++ whitespaceRules ++
      [unclosedString, stringOpening, oneOf [',', '.', ':'] .delimiter .stay, bracket, symbolRun]
  | .whitespace => whitespaceRules
  | .string quote =>
    [run (fun c => c != '\\' && c != quote.char && c != '\n') .string .stay, stringEscape,
      oneOf [quote.char] .quote .pop, oneOf ['\\'] .brokenString .pop, handBack]
  | .expectUnit =>
    [run isBlank .space (.replace .expectUnitAfterSpace), unit (.replace .unitExpression),
      group (.replaceThenPush .unitExpression .unitGroup), handBack]
  | .expectUnitAfterSpace =>
    [unit (.replace .unitExpression), group (.replaceThenPush .unitExpression .unitGroup), handBack]
  | .unitExpression =>
    [run isBlank .space .stay, oneOf ['*', '/'] .unitOperator .stay,
      oneOf ['^'] .unitOperator (.push .unitExponent), unit .stay, group (.push .unitGroup),
      handBack]
  | .unitExponent =>
    [exponent, run isBlank .space .stay, oneOf ['*', '/'] .unitOperator .pop, handBack]
  | .unitGroup =>
    [run isSpace .space .stay, groupWord, oneOf ['*', '/'] .unitOperator .stay,
      oneOf ['^'] .unitOperator (.push .unitExponent), oneOf ['('] parenthesis (.push .unitGroup),
      oneOf [')'] parenthesis .pop]

/-- The answer of the first rule that applies. -/
def firstAnswer (ts : Tables) (c : Cursor) : List Scan → Except Refusal (Option Scanned)
  | [] => return none
  | r :: rs => do
    match ← r ts c with
    | some s => return some s
    | none => firstAnswer ts c rs

end UnitLexer.Bytes
