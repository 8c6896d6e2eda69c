/-
UnitLexer.Json.Basic — JSON values.

The values this library writes: token dumps, table listings and
configurations. Numbers are offsets and so natural. An object keeps its
members in the order given.
-/

namespace UnitLexer

/-- A JSON value. -/
inductive Json where
  | null
  | bool (b : Bool)
  | number (n : Nat)
  | string (s : String)
  | array (items : List Json)
  | object (members : List (String × Json))
  deriving Repr

namespace Json

/-- An array of strings. -/
def strings (ss : List String) : Json :=
  .array (ss.map .string)

end Json

end UnitLexer
