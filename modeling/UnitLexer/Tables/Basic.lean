/-
UnitLexer.Tables.Basic — the words the rules look up.

The rules classify by membership: which names are reserved or built in, which
symbol runs are operators, which words are units. All of that is data, so new
units or keywords need no new rule. `Table` names the seven tables and holds
their standard contents; `Tables` is what the rules consult.
-/

namespace UnitLexer

/-! ## §1 The tables by name -/

/-- Names one of the tables. -/
inductive Table where
  | keywords
  | builtins
  | operators
  | siPrefixes
  | baseUnits
  | otherUnits
  | knownUnits
  deriving DecidableEq, Repr

namespace Table

/-- Every table, in the order of listings and configurations. -/
def all : List Table :=
  [.keywords, .builtins, .operators, .siPrefixes, .baseUnits, .otherUnits, .knownUnits]

/-- The key of the table in listings and configurations. -/
def name : Table → String
  | .keywords => "keywords"
  | .builtins => "builtins"
  | .operators => "operators"
  | .siPrefixes => "si_prefixes"
  | .baseUnits => "base_si_units"
  | .otherUnits => "other_units"
  | .knownUnits => "known_units"

/-- The table a key names. -/
def ofName? (name : String) : Option Table :=
  all.find? fun t => t.name == name

/-- The standard contents of the table.

Word operators are listed among the operators although a name is never a
symbol run. Prefixes go from large to small. The known units, recognised
without a number before them, hold no prefixed form but `kg`, so that `ms` or
`pm` remain names of the user's own. -/
def standard : Table → List String
  | .keywords =>
    ["if", "elif", "else", "for", "while", "repeat", "until", "switch", "case", "default", "break",
      "continue", "return", "def", "in", "and", "nand", "nor", "not", "or", "xor", "xnor", "mand",
      "mor"]
  | .builtins =>
    ["sin", "cos", "tan", "asin", "acos", "atan", "atan2", "exp", "log", "log10", "log2", "sqrt",
      "avg", "sum", "cross", "normalize", "abs", "floor", "ceil", "round"]
  | .operators =>
    ["+", "-", "*", "/", "%", "^", "!", "[]", "=", "+=", "-=", "*=", "/=", "%=", "^=", "==", "!=",
      "<", "<=", ">", ">=", "and", "nand", "nor", "not", "or", "xor", "xnor", "mand", "mor"]
  | .siPrefixes =>
    ["Y", "Z", "E", "P", "T", "G", "M", "k", "h", "da", "d", "c", "m", "µ", "u", "n", "p", "f", "a",
      "z", "y"]
  | .baseUnits =>
    ["m", "g", "s", "A", "K", "mol", "cd", "Hz", "N", "Pa", "J", "W", "C", "V", "F", "Ω", "H"]
  | .otherUnits => ["min", "h", "bar", "L"]
  | .knownUnits =>
    ["m", "s", "kg", "A", "K", "mol", "cd", "N", "Pa", "J", "W", "C", "V", "F", "Ω", "Hz", "H", "g",
      "L", "min", "h", "bar"]

theorem mem_all (t : Table) : t ∈ all := by
  cases t <;> decide

/-- A table is found by its key. -/
theorem ofName?_name (t : Table) : ofName? t.name = some t := by
  cases t <;> decide

end Table

/-! ## §2 The tables in use -/

/-- The tables the rules consult. For all but the prefixes only membership
counts; the prefixes are tried in the order they stand in. -/
structure Tables where
  keywords : List String
  builtins : List String
  operators : List String
  siPrefixes : List String
  baseUnits : List String
  otherUnits : List String
  knownUnits : List String
  deriving DecidableEq, Repr

/-- The contents of one table. -/
def Tables.entries (ts : Tables) : Table → List String
  | .keywords => ts.keywords
  | .builtins => ts.builtins
  | .operators => ts.operators
  | .siPrefixes => ts.siPrefixes
  | .baseUnits => ts.baseUnits
  | .otherUnits => ts.otherUnits
  | .knownUnits => ts.knownUnits

end UnitLexer
