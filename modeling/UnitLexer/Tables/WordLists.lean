/-
UnitLexer.Tables.WordLists — the tables while they are being edited.

Edits replace, add or remove entries of one table at a time; entries keep the
order in which they came, and none is listed twice. `WordLists.toTables` fixes
the lists for the rules: prefixes are put longest first, so that `da` is tried
before `d`, and those of one length stay in the order they were declared in.
-/
import UnitLexer.Tables.Basic
import UnitLexer.Tables.Sorting

namespace UnitLexer

/-- A list of entries for every table. -/
structure WordLists where
  entries : Table → List String

namespace WordLists

/-! ## §1 Edits -/

/-- The standard contents of every table. -/
def standard : WordLists :=
  ⟨Table.standard⟩

/-- The lists with one of them exchanged. -/
def set (ls : WordLists) (t : Table) (es : List String) : WordLists :=
  ⟨fun u => if u = t then es else ls.entries u⟩

@[simp] theorem entries_set (ls : WordLists) (t u : Table) (es : List String) :
    (ls.set t es).entries u = if u = t then es else ls.entries u := rfl

/-- The list with an entry at its end, unless the entry is there already. -/
def insertEntry (es : List String) (e : String) : List String :=
  if e ∈ es then es else es ++ [e]

/-- Adds entries at the end of a table, passing over those already there. -/
def add (ls : WordLists) (t : Table) (es : List String) : WordLists :=
  ls.set t (es.foldl insertEntry (ls.entries t))

/-- Gives a table new contents. -/
def replace (ls : WordLists) (t : Table) (es : List String) : WordLists :=
  (ls.set t []).add t es

/-- Removes entries from a table; those it does not hold are passed over. -/
def remove (ls : WordLists) (t : Table) (es : List String) : WordLists :=
  ls.set t ((ls.entries t).filter fun e => e ∉ es)

/-- What an edit does with its entries. -/
inductive Action where
  | replace
  | add
  | remove
  deriving DecidableEq, Repr

/-- An edit of one table. -/
structure Edit where
  action : Action
  table : Table
  entries : List String
  deriving DecidableEq, Repr

/-- The lists after an edit. -/
def apply (ls : WordLists) (e : Edit) : WordLists :=
  match e.action with
  | .replace => ls.replace e.table e.entries
  | .add => ls.add e.table e.entries
  | .remove => ls.remove e.table e.entries

/-! ## §2 Tables for the rules -/

/-- The longer text first. -/
def longerFirst (a b : String) : Bool :=
  b.length ≤ a.length

/-- The tables these lists make. -/
def toTables (ls : WordLists) : Tables where
  keywords := ls.entries .keywords
  builtins := ls.entries .builtins
  operators := ls.entries .operators
  siPrefixes := sortBy longerFirst (ls.entries .siPrefixes)
  baseUnits := ls.entries .baseUnits
  otherUnits := ls.entries .otherUnits
  knownUnits := ls.entries .knownUnits

/-- Making tables changes no table's set of entries. -/
theorem mem_entries_toTables (ls : WordLists) (t : Table) (e : String) :
    e ∈ ls.toTables.entries t ↔ e ∈ ls.entries t := by
  cases t <;> simp [toTables, Tables.entries]

end WordLists

/-- The tables with standard contents. -/
def Tables.standard : Tables :=
  WordLists.standard.toTables

/-! ## §3 Listing -/

/-- The contents of a table for display: in code point order, the prefixes in
the order they are tried. -/
def Tables.listing (ts : Tables) : Table → List String
  | .siPrefixes => ts.siPrefixes
  | t => sortBy (fun a b => decide (a ≤ b)) (ts.entries t)

end UnitLexer
