/-
UnitLexer.Rule.Quantity — the unit of a number.

After a number these rules look for a unit, with blanks before it or none,
and after the first unit for the rest of a compound expression such as
`kg*m/s^2`, `(kg*m)/s^2` or `s^-1`. What cannot continue the expression is
handed back. A parenthesised group is different: it lasts until its closing
parenthesis, over line breaks too.
-/
import UnitLexer.Rule.Basic
import UnitLexer.Number
import UnitLexer.Word
import UnitLexer.Reading

namespace UnitLexer

/-- The unit word at the start of the input if it reads as a unit, else nothing. -/
def leadingUnit (ts : Tables) (cs : List Char) : List Char :=
  let word := leadingUnitWord cs
  if word ≠ [] ∧ ts.isUnit (String.ofList word) then word else []

/-- The input starts with a parenthesis that opens a group of units: past
blanks and further parentheses the first word is a unit. -/
def opensUnitGroup (ts : Tables) (cs : List Char) : Bool :=
  cs.head? = some '(' && leadingUnit ts (cs.dropWhile fun c => c == '(' || isBlank c) ≠ []

namespace Rule

/-- Parentheses have one kind wherever they stand. -/
def parenthesis : Kind :=
  .bracket .parenthesis

/-! ## §1 The first unit after a number -/

/-- Blanks between a number and its unit. -/
def unitGap : Rule :=
  .run isBlank .space (.replace .expectUnitAfterSpace)

/-- The unit of the number. -/
def firstUnit : Rule :=
  fun ts cs => Step.one? .unit (leadingUnit ts cs) (.replace .unitExpression)

/-- The number's unit starts with a group. -/
def firstGroup : Rule := fun ts cs =>
  if opensUnitGroup ts cs then
    some (.one parenthesis ['('] (.replaceThenPush .unitExpression .unitGroup))
  else none

/-! ## §2 Unit expressions -/

/-- Blanks in a unit expression. They are taken before it is known whether the
expression goes on: in `1 m + 2` the blank before `+` is among them. -/
def unitBlank : Rule :=
  .run isBlank .space .stay

/-- A product or quotient sign between units. -/
def unitProduct : Rule :=
  .oneOf ['*', '/'] .unitOperator .stay

/-- A power sign; an exponent may follow. -/
def unitPower : Rule :=
  .oneOf ['^'] .unitOperator (.push .unitExponent)

/-- A further unit. -/
def furtherUnit : Rule :=
  fun ts cs => Step.one? .unit (leadingUnit ts cs) .stay

/-- A further group. -/
def furtherGroup : Rule := fun ts cs =>
  if opensUnitGroup ts cs then some (.one parenthesis ['('] (.push .unitGroup)) else none

/-! ## §3 Exponents -/

/-- The exponent: digits with a sign or without. -/
def exponent : Rule :=
  fun _ cs => Step.one? .exponent (leadingInteger cs) .pop

/-- A product or quotient sign where an exponent was expected: there is none,
and the expression goes on. -/
def productForExponent : Rule :=
  .oneOf ['*', '/'] .unitOperator .pop

/-! ## §4 Groups -/

/-- A word in a group: a unit if it reads as one, else a name. -/
def groupWord : Rule := fun ts cs =>
  let word := leadingUnitWord cs
  Step.one? (if ts.isUnit (String.ofList word) then .unit else .identifier) word .stay

/-- A group inside the group. -/
def nestedGroup : Rule :=
  .oneOf ['('] parenthesis (.push .unitGroup)

/-- The parenthesis that closes the innermost group. -/
def groupClosing : Rule :=
  .oneOf [')'] parenthesis .pop

end Rule

/-! ## §5 What the rules take is there -/

theorem leadingUnit_isPrefix (ts : Tables) (cs : List Char) : leadingUnit ts cs <+: cs := by
  unfold leadingUnit
  dsimp only
  split
  · exact leadingUnitWord_isPrefix cs
  · exact List.nil_prefix

/-- A group opens with a parenthesis. -/
theorem parenthesis_isPrefix_of_opensUnitGroup {ts : Tables} {cs : List Char}
    (h : opensUnitGroup ts cs = true) : ['('] <+: cs := by
  simp only [opensUnitGroup, Bool.and_eq_true, decide_eq_true_eq] at h
  obtain ⟨ds, rfl⟩ := List.head?_eq_some_iff.mp h.1
  exact ⟨ds, rfl⟩

namespace Rule

theorem faithful_unit (t : Transition) :
    Faithful fun ts cs => Step.one? .unit (leadingUnit ts cs) t :=
  fun h => Step.takes_of_one? (leadingUnit_isPrefix _ _) h

theorem faithful_group (t : Transition) : Faithful fun ts cs =>
    if opensUnitGroup ts cs then some (.one parenthesis ['('] t) else none := by
  intro ts cs s h
  dsimp only at h
  split at h
  · next ho =>
    obtain rfl := Option.some.inj h
    exact Step.takes_one (parenthesis_isPrefix_of_opensUnitGroup ho) (by simp)
  · contradiction

theorem faithful_exponent : Faithful exponent :=
  fun h => Step.takes_of_one? (leadingInteger_isPrefix _) h

theorem faithful_groupWord : Faithful groupWord :=
  fun h => Step.takes_of_one? (leadingUnitWord_isPrefix _) h

end Rule

end UnitLexer
