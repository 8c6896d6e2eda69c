/-
UnitLexer.Grammar — the rules of every mode.

The rules of a mode are tried in the order they are listed, and the first that
applies wins: order is precedence, no search for the longest match takes
place. Every mode but the root and the unit group ends in a rule that hands
the input back, so what a mode cannot use goes to the mode that entered it.
-/
import UnitLexer.Rule.Literal
import UnitLexer.Rule.Name
import UnitLexer.Rule.Punctuation
import UnitLexer.Rule.Quantity

namespace UnitLexer

namespace Mode

open Rule

/-- The rules of a mode, in order of precedence. -/
def rules : Mode → List Rule
  | .root =>
    [comment, number, declaration, call, word, spaces, unclosedString, stringOpening,
      delimiter, bracket, symbolRun]
  | .whitespace => [spaces]
  | .string quote =>
    [stringText quote, stringEscape, stringClosing quote, danglingBackslash, handBack]
  | .expectUnit => [unitGap, firstUnit, firstGroup, handBack]
  | .expectUnitAfterSpace => [firstUnit, firstGroup, handBack]
  | .unitExpression =>
    [unitBlank, unitProduct, unitPower, furtherUnit, furtherGroup, handBack]
  | .unitExponent => [exponent, unitBlank, productForExponent, handBack]
  | .unitGroup => [spaces, groupWord, unitProduct, unitPower, nestedGroup, groupClosing]

/-- The step of the first rule that applies. -/
def step? (m : Mode) (ts : Tables) (cs : List Char) : Option Step :=
  m.rules.findSome? fun rule => rule ts cs

/-! ## Every rule is faithful -/

theorem faithful_of_mem_rules (m : Mode) : ∀ r ∈ m.rules, r.Faithful := by
  have hfirstUnit : firstUnit.Faithful := faithful_unit _
  have hfirstGroup : firstGroup.Faithful := faithful_group _
  have hfurtherUnit : furtherUnit.Faithful := faithful_unit _
  have hfurtherGroup : furtherGroup.Faithful := faithful_group _
  match m with
  | .root =>
    simp [rules, spaces, delimiter, faithful_comment, faithful_number, faithful_declaration,
      faithful_call, faithful_word, faithful_run, faithful_unclosedString, faithful_stringOpening,
      faithful_oneOf, faithful_bracket, faithful_symbolRun]
  | .whitespace => simp [rules, spaces, faithful_run]
  | .string quote =>
    simp [rules, stringText, stringClosing, danglingBackslash, faithful_run,
      faithful_stringEscape, faithful_oneOf, faithful_handBack]
  | .expectUnit =>
    simp [rules, unitGap, faithful_run, hfirstUnit, hfirstGroup, faithful_handBack]
  | .expectUnitAfterSpace =>
    simp [rules, hfirstUnit, hfirstGroup, faithful_handBack]
  | .unitExpression =>
    simp [rules, unitBlank, unitProduct, unitPower, faithful_run, faithful_oneOf, hfurtherUnit,
      hfurtherGroup, faithful_handBack]
  | .unitExponent =>
    simp [rules, unitBlank, productForExponent, faithful_exponent, faithful_run, faithful_oneOf,
      faithful_handBack]
  | .unitGroup =>
    simp [rules, spaces, unitProduct, unitPower, nestedGroup, groupClosing, faithful_run,
      faithful_groupWord, faithful_oneOf]

/-- What a mode takes is the start of the input. -/
theorem takes_of_step? {m : Mode} {ts : Tables} {cs : List Char} {s : Step}
    (h : m.step? ts cs = some s) : s.Takes cs := by
  obtain ⟨r, hr, hs⟩ := List.exists_of_findSome?_eq_some h
  exact faithful_of_mem_rules m r hr hs

end Mode

end UnitLexer
