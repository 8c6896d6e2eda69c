/-
UnitLexer.Dump — tokens and tables written out.

A token stream is dumped as one line a token, or as a JSON array; tables as a
JSON object. Every dump ends its last line.
-/
import UnitLexer.Json.Printer
import UnitLexer.Lexer
import UnitLexer.Text.Quoted

namespace UnitLexer

/-- The two forms of a token dump. -/
inductive DumpFormat where
  /-- A line for each token: scope, span and quoted text. -/
  | lines
  /-- An array of objects. -/
  | json
  deriving DecidableEq, Repr, Inhabited

namespace Token

/-- The token on a line: its scope, its span and its text in quotes. -/
def line (t : Token) : String :=
  t.kind.scope ++ " " ++ t.span.text ++ " " ++ Text.quoted t.text ++ "\n"

/-- The token as a JSON object. -/
def toJson (t : Token) : Json :=
  .object
    [("kind", .string t.kind.scope), ("text", .string t.text), ("start", .number t.start),
      ("end", .number t.stop)]

end Token

/-- The dump of a token stream. -/
def dumpTokens (format : DumpFormat) (tokens : List Token) : String :=
  match format with
  | .lines => String.join (tokens.map Token.line)
  | .json => (Json.array (tokens.map Token.toJson)).pretty ++ "\n"

/-- The dump of a source's tokens. -/
def dumpSource (ts : Tables) (format : DumpFormat) (source : String) : String :=
  dumpTokens format (tokenize ts source)

/-- The listing of all tables as a JSON object. -/
def Tables.toJson (ts : Tables) : Json :=
  .object (Table.all.map fun t => (t.name, .strings (ts.listing t)))

/-- The dump of the tables. -/
def Tables.dump (ts : Tables) : String :=
  ts.toJson.pretty ++ "\n"

end UnitLexer
