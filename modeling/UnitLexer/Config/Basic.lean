/-
UnitLexer.Config.Basic — edits of the tables, checked before they are applied.

A configuration holds an edit for every table. An edit replaces the contents,
then adds, then removes. What it brings in must be something the lexer can
produce for that table: a unit with `*` in it could never match, so it is
refused as the mistake it is. What it removes is not checked.
-/
import UnitLexer.Json.Reader
import UnitLexer.Tables.WordLists
import UnitLexer.Word

namespace UnitLexer

/-! ## §1 Edits -/

/-- The edit of one table. -/
structure TableEdit where
  /-- New contents, in place of all there is. -/
  replace : Option (List String) := none
  /-- Entries to add. -/
  add : List String := []
  /-- Entries to remove. -/
  remove : List String := []
  deriving DecidableEq, Repr, Inhabited

namespace TableEdit

/-- The edit asks for nothing. -/
def isNoop (e : TableEdit) : Bool :=
  e.replace.isNone && e.add.isEmpty && e.remove.isEmpty

/-- The entries the edit brings in, in the order they are checked. -/
def introduced (e : TableEdit) : List String :=
  e.replace.getD [] ++ e.add

/-- The lists with a table edited. -/
def apply (e : TableEdit) (t : Table) (ls : WordLists) : WordLists :=
  let replaced :=
    match e.replace with
    | some es => ls.replace t es
    | none => ls
  (replaced.add t e.add).remove t e.remove

end TableEdit

/-- An edit for every table. -/
structure Config where
  edit : Table → TableEdit := fun _ => {}

/-- The configuration with the edit of one table exchanged. -/
def Config.set (c : Config) (t : Table) (e : TableEdit) : Config :=
  ⟨fun u => if u = t then e else c.edit u⟩

/-! ## §2 What a table can hold -/

/-- Why an entry is refused. -/
inductive EntryFault where
  | empty
  | notName
  | notOperator
  | notUnitWord
  deriving DecidableEq, Repr

/-- What is said about the entry. -/
def EntryFault.message : EntryFault → String
  | .empty => "entries must not be empty"
  | .notName => "must be an ASCII identifier"
  | .notOperator => "must be a symbol run, `[]` or a word operator"
  | .notUnitWord => "must be a single unit word"

/-- What is wrong with an entry of a table, if anything is. -/
def Table.fault? (t : Table) (entry : String) : Option EntryFault :=
  if entry = "" then some .empty
  else
    match t with
    | .keywords | .builtins => if isName entry then none else some .notName
    | .operators =>
      if entry = "[]" ∨ isSymbolRun entry ∨ isName entry then none else some .notOperator
    | .siPrefixes | .baseUnits | .otherUnits | .knownUnits =>
      if isUnitWord entry then none else some .notUnitWord

/-! ## §3 Errors -/

/-- Why there is no configuration, or none that can be applied. -/
inductive ConfigError where
  /-- The file cannot be read. -/
  | unreadable (path : String)
  /-- The text is no configuration. -/
  | malformed (cause : Json.ReadError)
  /-- An entry cannot be in its table. -/
  | entryInvalid (table : Table) (entry : String) (fault : EntryFault)
  deriving DecidableEq, Repr

/-- What is said about the error. -/
def ConfigError.message : ConfigError → String
  | .unreadable path => "cannot read tables config `" ++ path ++ "`"
  | .malformed cause => "malformed tables config: " ++ cause.message
  | .entryInvalid table entry fault =>
    "invalid " ++ table.name ++ " entry " ++ Text.quoted entry ++ ": " ++ fault.message

/-! ## §4 Checking and applying -/

namespace Config

/-- All entries the configuration brings in, with their tables, in the order
they are checked. -/
def introduced (c : Config) : List (Table × String) :=
  Table.all.flatMap fun t => (c.edit t).introduced.map fun e => (t, e)

/-- The first entry that its table cannot hold. -/
def firstFault? (c : Config) : Option ConfigError :=
  c.introduced.findSome? fun (t, e) => (t.fault? e).map fun f => .entryInvalid t e f

/-- Checks every entry the configuration brings in. -/
def validate (c : Config) : Except ConfigError Unit :=
  match c.firstFault? with
  | some e => .error e
  | none => .ok ()

/-- The lists with every table edited; tables with nothing to do are passed over. -/
def editAll (c : Config) (ls : WordLists) : WordLists :=
  Table.all.foldl (fun ls t => if (c.edit t).isNoop then ls else (c.edit t).apply t ls) ls

/-- Checks the configuration and applies it. -/
def apply (c : Config) (ls : WordLists) : Except ConfigError WordLists := do
  c.validate
  .ok (c.editAll ls)

end Config

end UnitLexer
