/-
UnitLexer.Config.Text — configurations as JSON.

Reading and writing side by side. Every key may be left out when reading, and
`null` stands for contents that are not replaced; writing gives every key.
-/
import UnitLexer.Config.Basic
import UnitLexer.Json.Printer

namespace UnitLexer

/-! ## §1 Reading -/

namespace TableEdit

/-- The keys of an edit. -/
def fields : List (Json.Reader.Field TableEdit) :=
  [⟨"replace", fun e => do
      let es ← Json.Reader.optional Json.Reader.strings
      pure { e with replace := es }⟩,
    ⟨"add", fun e => do
      let es ← Json.Reader.strings
      pure { e with add := es }⟩,
    ⟨"remove", fun e => do
      let es ← Json.Reader.strings
      pure { e with remove := es }⟩]

/-- Reads the edit of one table. -/
def reader : Json.Reader TableEdit :=
  Json.Reader.record "struct ListEdit" fields {}

end TableEdit

namespace Config

/-- The keys of a configuration. -/
def fields : List (Json.Reader.Field Config) :=
  Table.all.map fun t =>
    ⟨t.name, fun c => do
      let e ← TableEdit.reader
      pure (c.set t e)⟩

/-- Reads a configuration. -/
def reader : Json.Reader Config :=
  Json.Reader.record "struct TablesConfig" fields {}

/-- The configuration a text holds. -/
def ofJson (text : String) : Except ConfigError Config :=
  match reader.readAll text with
  | .ok c => .ok c
  | .error e => .error (.malformed e)

end Config

/-! ## §2 Writing -/

/-- The edit of one table as a JSON object. -/
def TableEdit.toJson (e : TableEdit) : Json :=
  .object
    [("replace",
      match e.replace with
      | some es => .strings es
      | none => .null),
      ("add", .strings e.add), ("remove", .strings e.remove)]

/-- The configuration as a JSON object. -/
def Config.toJson (c : Config) : Json :=
  .object (Table.all.map fun t => (t.name, (c.edit t).toJson))

end UnitLexer
