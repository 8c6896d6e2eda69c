/-
UnitLexer.Rule.Punctuation — white space, delimiters, brackets and symbol runs.
-/
import UnitLexer.Rule.Basic
import UnitLexer.Text.CharClass

namespace UnitLexer.Rule

/-- White space of any kind. -/
def spaces : Rule :=
  .run isSpace .space .stay

/-- A comma, a point or a colon. -/
def delimiter : Rule :=
  .oneOf [',', '.', ':'] .delimiter .stay

/-- A bracket, classified by its shape. -/
def bracket : Rule
  | _, c :: _ => (Bracket.ofChar? c).map fun shape => .one (.bracket shape) [c] .stay
  | _, [] => none

/-- The longest run of symbol characters: an operator if the tables list it. -/
def symbolRun : Rule := fun ts cs =>
  let text := cs.takeWhile isSymbol
  Step.one? (if String.ofList text ∈ ts.operators then .operator else .symbol) text .stay

/-! ## What the rules take is there -/

theorem faithful_bracket : Faithful bracket := by
  intro ts cs s h
  unfold bracket at h
  split at h
  · obtain ⟨shape, -, rfl⟩ := Option.map_eq_some_iff.mp h
    exact Step.takes_one ⟨_, rfl⟩ (by simp)
  · contradiction

theorem faithful_symbolRun : Faithful symbolRun :=
  fun h => Step.takes_of_one? (List.takeWhile_prefix isSymbol) h

end UnitLexer.Rule
