/-
UnitLexer.Kind — what a token can be.

The kinds are a closed set. Each has a dotted scope name (`string.escape`,
`operator.unit`, …): themes choose styles by it and token dumps print it. No
two kinds share a scope, so a dump tells the kind (`Kind.ofScope?_scope`).
-/

namespace UnitLexer

/-! ## §1 Brackets -/

/-- The bracket shapes. -/
inductive Bracket where
  | curly
  | square
  | parenthesis
  deriving DecidableEq, Repr

namespace Bracket

/-- Every shape. -/
def all : List Bracket := [.curly, .square, .parenthesis]

/-- The character that opens the pair. -/
def opening : Bracket → Char
  | .curly => '{'
  | .square => '['
  | .parenthesis => '('

/-- The character that closes the pair. -/
def closing : Bracket → Char
  | .curly => '}'
  | .square => ']'
  | .parenthesis => ')'

/-- The shape a bracket character belongs to. -/
def ofChar? (c : Char) : Option Bracket :=
  all.find? fun b => b.opening == c || b.closing == c

/-- The scope of a bracket of this shape. -/
def scope : Bracket → String
  | .curly => "delimiter.curly"
  | .square => "delimiter.square"
  | .parenthesis => "delimiter.parenthesis"

end Bracket

/-! ## §2 Kinds -/

/-- The classification of a token. -/
inductive Kind where
  /-- A reserved word. -/
  | keyword
  /-- A name that is nothing else. -/
  | identifier
  /-- The name of a built-in function. -/
  | builtin
  /-- The name a function is declared under. -/
  | declaration
  /-- A name that an opening parenthesis follows. -/
  | call
  /-- A numeric literal. -/
  | number
  /-- A unit symbol, with or without an SI prefix. -/
  | unit
  /-- The exponent of a unit. -/
  | exponent
  /-- A product, quotient or power sign between units. -/
  | unitOperator
  /-- A symbol run listed as an operator. -/
  | operator
  /-- Any other symbol run. -/
  | symbol
  /-- A comma, point or colon. -/
  | delimiter
  /-- One character of a bracket pair. -/
  | bracket (shape : Bracket)
  /-- The inside of a string, escapes apart. -/
  | string
  /-- A backslash and the character it escapes. -/
  | escape
  /-- The quote that opens or closes a string. -/
  | quote
  /-- What is left of a string that its line does not close. -/
  | brokenString
  /-- A comment, up to the end of its line. -/
  | comment
  /-- A run of white space. -/
  | space
  /-- A character no rule accepts. -/
  | invalid
  deriving DecidableEq, Repr

namespace Kind

/-- Every kind, words first and invalid characters last. -/
def all : List Kind :=
  [.keyword, .identifier, .builtin, .declaration, .call, .number, .unit, .exponent,
    .unitOperator, .operator, .symbol, .delimiter] ++ Bracket.all.map .bracket ++
  [.string, .escape, .quote, .brokenString, .comment, .space, .invalid]

/-- The dotted scope name of a kind. -/
def scope : Kind → String
  | .keyword => "keyword"
  | .identifier => "identifier"
  | .builtin => "predefined"
  | .declaration => "function.declaration"
  | .call => "function.call"
  | .number => "number"
  | .unit => "unit"
  | .exponent => "number.unit"
  | .unitOperator => "operator.unit"
  | .operator => "operator"
  | .symbol => "symbol"
  | .delimiter => "delimiter"
  | .bracket shape => shape.scope
  | .string => "string"
  | .escape => "string.escape"
  | .quote => "string.quote"
  | .brokenString => "string.invalid"
  | .comment => "comment"
  | .space => "white"
  | .invalid => "invalid"

/-- The kind a scope names. -/
def ofScope? (scope : String) : Option Kind :=
  all.find? fun k => k.scope == scope

theorem mem_all (k : Kind) : k ∈ all := by
  cases k with
  | bracket b => cases b <;> decide
  | _ => decide

/-- A kind is read back from its scope. -/
theorem ofScope?_scope (k : Kind) : ofScope? k.scope = some k := by
  cases k with
  | bracket b => cases b <;> decide
  | _ => decide

/-- No two kinds share a scope. -/
theorem scope_inj {k l : Kind} (h : k.scope = l.scope) : k = l := by
  have := ofScope?_scope k
  rw [h, ofScope?_scope l] at this
  exact (Option.some.inj this).symm

end Kind

end UnitLexer
