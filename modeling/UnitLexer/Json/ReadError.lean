/-
UnitLexer.Json.ReadError — what can be wrong with a JSON text.

Reading goes from left to right and stops at the first problem, whether it is
one of spelling or one of types. Each cause has one constructor here and its
wording in `ReadError.message`.
-/
import UnitLexer.Decimal
import UnitLexer.Text.Quoted

namespace UnitLexer.Json

/-- What was found where something else was expected. -/
inductive Found where
  | null
  | bool (b : Bool)
  | integer (n : Int)
  | floating (x : Decimal)
  | string (s : String)
  | array
  | object
  deriving DecidableEq, Repr

/-- What is said about it. -/
def Found.text : Found → String
  | .null => "null"
  | .bool b => "boolean `" ++ toString b ++ "`"
  | .integer n => "integer `" ++ toString n ++ "`"
  | .floating x => "floating point `" ++ x.text ++ "`"
  | .string s => "string " ++ Text.quoted s
  | .array => "sequence"
  | .object => "map"

/-- The first problem of a JSON text. -/
inductive ReadError where
  /-- The text ends inside an array. -/
  | arrayUnended
  /-- The text ends inside an object. -/
  | objectUnended
  /-- The text ends inside a string. -/
  | stringUnended
  /-- The text ends where a value should stand. -/
  | valueMissing
  /-- No colon after a key. -/
  | colonExpected
  /-- An array goes on with neither a comma nor its end. -/
  | arrayEndExpected
  /-- An object goes on with neither a comma nor its end. -/
  | objectEndExpected
  /-- A broken `true`, `false` or `null`. -/
  | literalBroken
  /-- No value starts like this. -/
  | valueExpected
  /-- A backslash that escapes nothing. -/
  | escapeInvalid
  /-- A broken number. -/
  | numberInvalid
  /-- A number beyond the largest double. -/
  | numberOutOfRange
  /-- A control character in a string. -/
  | controlCharacter
  /-- A member that does not start with a string. -/
  | keyNotString
  /-- A surrogate escape without its other half. -/
  | surrogateLone
  /-- The second half of a surrogate pair is missing. -/
  | surrogateUnended
  /-- A comma before the end of an array or object. -/
  | commaTrailing
  /-- Something after the value. -/
  | charactersTrailing
  /-- A value of another type than expected. -/
  | typeInvalid (found : Found) (expected : String)
  /-- A key that is none of the fields. -/
  | fieldUnknown (key : String) (fields : List String)
  /-- A field given twice. -/
  | fieldDuplicate (key : String)
  deriving DecidableEq, Repr

/-- What is said about the problem. -/
def ReadError.message : ReadError → String
  | .arrayUnended => "EOF while parsing a list"
  | .objectUnended => "EOF while parsing an object"
  | .stringUnended => "EOF while parsing a string"
  | .valueMissing => "EOF while parsing a value"
  | .colonExpected => "expected `:`"
  | .arrayEndExpected => "expected `,` or `]`"
  | .objectEndExpected => "expected `,` or `\x7d`"
  | .literalBroken => "expected ident"
  | .valueExpected => "expected value"
  | .escapeInvalid => "invalid escape"
  | .numberInvalid => "invalid number"
  | .numberOutOfRange => "number out of range"
  | .controlCharacter => "control character (\\u0000-\\u001F) found while parsing a string"
  | .keyNotString => "key must be a string"
  | .surrogateLone => "lone leading surrogate in hex escape"
  | .surrogateUnended => "unexpected end of hex escape"
  | .commaTrailing => "trailing comma"
  | .charactersTrailing => "trailing characters"
  | .typeInvalid found expected => "invalid type: " ++ found.text ++ ", expected " ++ expected
  | .fieldUnknown key fields =>
    "unknown field `" ++ key ++ "`, expected one of " ++
      ", ".intercalate (fields.map fun f => "`" ++ f ++ "`")
  | .fieldDuplicate key => "duplicate field `" ++ key ++ "`"

end UnitLexer.Json
