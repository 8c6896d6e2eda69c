/-
UnitLexer.Reading — unit words read as units.

A word is read as an SI prefix and a base unit if it can be, with the longest
prefix possible, and else as a unit without a prefix. That settles the
classic ambiguities: `ms` is the millisecond, `dam` the decametre and not the
deci-`am`, and `mol`, which is no prefix before a base unit, the mole.
-/
import UnitLexer.Tables.WordLists

namespace UnitLexer

/-- A unit word taken apart. -/
structure Reading where
  /-- The SI prefix, if the unit has one. -/
  siPrefix : Option String
  /-- The unit the prefix scales, or the whole word. -/
  base : String
  deriving DecidableEq, Repr

namespace Tables

/-- The word as the prefix before a base unit. -/
def prefixed? (ts : Tables) (word p : String) : Option Reading :=
  match p.toList.isPrefixOf? word.toList with
  | some (c :: cs) =>
    let base := String.ofList (c :: cs)
    if base ∈ ts.baseUnits then some ⟨some p, base⟩ else none
  | _ => none

/-- The word as a unit of its own. -/
def unprefixed? (ts : Tables) (word : String) : Option Reading :=
  if word ∈ ts.baseUnits ∨ word ∈ ts.otherUnits then some ⟨none, word⟩ else none

/-- How the word reads as a unit: with the first prefix that fits, and failing
that without one. -/
def reading? (ts : Tables) (word : String) : Option Reading :=
  (ts.siPrefixes.findSome? (ts.prefixed? word)).or (ts.unprefixed? word)

/-- The word reads as a unit. -/
def isUnit (ts : Tables) (word : String) : Bool :=
  (ts.reading? word).isSome

end Tables

end UnitLexer
