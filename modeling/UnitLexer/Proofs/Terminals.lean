/-
UnitLexer.Proofs.Terminals — how the pieces of a quantity are read.

A quantity is a number, blanks and a unit expression. Each of its pieces is
read as one lexeme in the mode in which it can stand, and each lemma here says
so for one kind of piece, with the open modes before and after it. A piece is
found whole because what follows it cannot continue it. Inside an expression
and inside a group the same pieces are read the same way, by other rules
(`ReadsUnits`); only a group in an expression needs the look-ahead.
-/
import UnitLexer.Proofs.Answers
import UnitLexer.Proofs.Run
import UnitLexer.Proofs.UnitGrammar

namespace UnitLexer

open Rule

/-! ## §1 Rules that decline -/

theorem run_eq_none {p : Char → Bool} {k : Kind} {t : Transition} {ts : Tables} {cs : List Char}
    (h : Stops p cs) : run p k t ts cs = none := by
  simp [run, Step.one?, takeWhile_eq_nil_of_stops h]

theorem oneOf_eq_none {chars : List Char} {k : Kind} {t : Transition} {ts : Tables} {c : Char}
    {cs : List Char} (h : c ∉ chars) : oneOf chars k t ts (c :: cs) = none := by
  simp [oneOf, h]

/-- A rule that takes one of some characters declines where a unit starts. -/
theorem oneOf_eq_none_of_isUnitStart {chars : List Char} {k : Kind} {t : Transition} {ts : Tables}
    {c : Char} {cs : List Char} (h : isUnitStart c = true)
    (hchars : chars.any isUnitStart = false) : oneOf chars k t ts (c :: cs) = none := by
  refine oneOf_eq_none fun hc => ?_
  rw [List.any_eq_true.mpr ⟨c, hc, h⟩] at hchars
  contradiction

/-- Past the rule for blanks an expression looks for a sign, a unit or a group. -/
theorem step?_unitExpression_cons {ts : Tables} {c : Char} (h : isBlank c = false)
    (cs : List Char) : Mode.step? .unitExpression ts (c :: cs) =
      [unitProduct, unitPower, furtherUnit, furtherGroup, handBack].findSome? fun rule =>
        rule ts (c :: cs) := by
  have hblank : unitBlank ts (c :: cs) = none := run_eq_none (stops_cons.mpr h)
  simp only [Mode.step?, Mode.rules, List.findSome?_cons, hblank]

/-- Past the rules for white space and words a group looks for a sign or a
parenthesis. -/
theorem step?_unitGroup_cons {ts : Tables} {c : Char} (hspace : isSpace c = false)
    (hstart : isUnitStart c = false) (cs : List Char) : Mode.step? .unitGroup ts (c :: cs) =
      [unitProduct, unitPower, nestedGroup, groupClosing].findSome? fun rule =>
        rule ts (c :: cs) := by
  have hspaces : spaces ts (c :: cs) = none := run_eq_none (stops_cons.mpr hspace)
  have hword : groupWord ts (c :: cs) = none := by
    have hstops : Stops isUnitStart (c :: cs) := stops_cons.mpr hstart
    simp [groupWord, leadingUnitWord_of_stops hstops, Step.one?]
  simp only [Mode.step?, Mode.rules, List.findSome?_cons, hspaces, hword]

/-! ## §2 Where a unit or a group comes next -/

section

variable {ts : Tables} {cs : List Char}

theorem exists_cons_of_leadingUnit (h : leadingUnit ts cs ≠ []) :
    ∃ c tail, cs = c :: tail ∧ isUnitStart c = true := by
  cases cs with
  | nil => exact absurd rfl h
  | cons c tail =>
    refine ⟨c, tail, rfl, ?_⟩
    by_contra hc
    exact h (leadingUnit_of_stops (by simpa using hc))

theorem exists_cons_of_opensUnitGroup (h : opensUnitGroup ts cs = true) :
    ∃ tail, cs = '(' :: tail := by
  obtain ⟨tail, htail⟩ := parenthesis_isPrefix_of_opensUnitGroup h
  exact ⟨tail, htail.symm⟩

theorem step?_unitExpression_of_leadingUnit (h : leadingUnit ts cs ≠ []) :
    Mode.step? .unitExpression ts cs = some (.one .unit (leadingUnit ts cs) .stay) := by
  obtain ⟨c, tail, rfl, hc⟩ := exists_cons_of_leadingUnit h
  have hproduct : unitProduct ts (c :: tail) = none := oneOf_eq_none_of_isUnitStart hc (by decide)
  have hpower : unitPower ts (c :: tail) = none := oneOf_eq_none_of_isUnitStart hc (by decide)
  have hunit : furtherUnit ts (c :: tail) = some (.one .unit (leadingUnit ts (c :: tail)) .stay) :=
    furtherUnit_eq_some.mpr ⟨h, rfl⟩
  rw [step?_unitExpression_cons (isBlank_of_isSpace (isSpace_of_isUnitStart hc))]
  simp only [List.findSome?_cons, hproduct, hpower, hunit]

theorem step?_unitExpression_of_opensUnitGroup (h : opensUnitGroup ts cs = true) :
    Mode.step? .unitExpression ts cs = some (.one parenthesis ['('] (.push .unitGroup)) := by
  obtain ⟨tail, rfl⟩ := exists_cons_of_opensUnitGroup h
  have hunit : furtherUnit ts ('(' :: tail) = none := by
    have hstart : Stops isUnitStart ('(' :: tail) := stops_cons.mpr rfl
    simp [furtherUnit, leadingUnit_of_stops hstart, Step.one?]
  have hgroup : furtherGroup ts ('(' :: tail) = some (.one parenthesis ['('] (.push .unitGroup)) :=
    furtherGroup_eq_some.mpr ⟨h, rfl⟩
  rw [step?_unitExpression_cons rfl]
  simp [unitProduct, unitPower, oneOf, hunit, hgroup]

theorem step?_expectUnitAfterSpace_of_leadingUnit (h : leadingUnit ts cs ≠ []) :
    Mode.step? .expectUnitAfterSpace ts cs =
      some (.one .unit (leadingUnit ts cs) (.replace .unitExpression)) := by
  have hunit : firstUnit ts cs = some (.one .unit (leadingUnit ts cs) (.replace .unitExpression)) :=
    firstUnit_eq_some.mpr ⟨h, rfl⟩
  simp [Mode.step?, Mode.rules, hunit]

theorem step?_expectUnitAfterSpace_of_opensUnitGroup (h : opensUnitGroup ts cs = true) :
    Mode.step? .expectUnitAfterSpace ts cs =
      some (.one parenthesis ['('] (.replaceThenPush .unitExpression .unitGroup)) := by
  obtain ⟨tail, rfl⟩ := exists_cons_of_opensUnitGroup h
  have hunit : firstUnit ts ('(' :: tail) = none := by
    have hstart : Stops isUnitStart ('(' :: tail) := stops_cons.mpr (by decide)
    simp [firstUnit, leadingUnit_of_stops hstart, Step.one?]
  have hgroup : firstGroup ts ('(' :: tail) =
      some (.one parenthesis ['('] (.replaceThenPush .unitExpression .unitGroup)) :=
    firstGroup_eq_some.mpr ⟨h, rfl⟩
  simp [Mode.step?, Mode.rules, hunit, hgroup]

theorem opensUnitGroup_cons (h : leadingUnit ts (('(' :: cs).dropWhile opensOrBlank) ≠ []) :
    opensUnitGroup ts ('(' :: cs) = true := by
  rw [opensUnitGroup_eq, decide_eq_true h]
  rfl

/-- If past parentheses and blanks a unit comes, the input starts with a unit or
a group of units. -/
theorem leadingUnit_or_opensUnitGroup (h : leadingUnit ts (cs.dropWhile opensOrBlank) ≠ [])
    (hblank : Stops isBlank cs) : leadingUnit ts cs ≠ [] ∨ opensUnitGroup ts cs = true := by
  cases cs with
  | nil => exact .inl h
  | cons c tail =>
    by_cases hc : c = '('
    · subst hc
      exact .inr (opensUnitGroup_cons h)
    · have hstart : Stops opensOrBlank (c :: tail) :=
        stops_cons.mpr (by simp [opensOrBlank, hc, stops_cons.mp hblank])
      rw [dropWhile_eq_self_of_stops hstart] at h
      exact .inl h

/-- The first unit or group after a number is read as one in an expression, and
leaves the expression open. -/
theorem advance_expectUnitAfterSpace {c : Char} {below : List Mode}
    (h : leadingUnit ts (c :: cs) ≠ [] ∨ opensUnitGroup ts (c :: cs) = true) :
    advance ts c cs (.expectUnitAfterSpace :: below) =
      advance ts c cs (.unitExpression :: below) := by
  rcases h with h | h
  · have hne : ∀ t, (Step.one .unit (leadingUnit ts (c :: cs)) t).text ≠ [] :=
      fun t => by simpa using h
    have hfirst : (currentMode (.expectUnitAfterSpace :: below)).step? ts (c :: cs) = some _ :=
      step?_expectUnitAfterSpace_of_leadingUnit h
    have hlater : (currentMode (.unitExpression :: below)).step? ts (c :: cs) = some _ :=
      step?_unitExpression_of_leadingUnit h
    rw [advance_of_step? hfirst (hne _), advance_of_step? hlater (hne _)]
    rfl
  · have hfirst : (currentMode (.expectUnitAfterSpace :: below)).step? ts (c :: cs) = some _ :=
      step?_expectUnitAfterSpace_of_opensUnitGroup h
    have hlater : (currentMode (.unitExpression :: below)).step? ts (c :: cs) = some _ :=
      step?_unitExpression_of_opensUnitGroup h
    rw [advance_of_step? hfirst (by simp), advance_of_step? hlater (by simp)]
    rfl

/-- Units that come after a number and blanks are read as in an expression. -/
theorem Reads.after_gap {ls : List Lexeme} {frames below : List Mode}
    (h : Reads ts (.unitExpression :: below) cs ls frames [])
    (hlook : leadingUnit ts (cs.dropWhile opensOrBlank) ≠ []) (hblank : Stops isBlank cs) :
    Reads ts (.expectUnitAfterSpace :: below) cs ls frames [] := by
  cases cs with
  | nil => exact absurd rfl hlook
  | cons c tail =>
    have hstart := leadingUnit_or_opensUnitGroup hlook hblank
    exact h.of_advance_eq (advance_expectUnitAfterSpace hstart)

end

/-! ## §3 Pieces of a unit expression

`below` are the modes open around the expression or the group. -/

/-- The modes in which the pieces of a unit expression stand. -/
def ReadsUnits (m : Mode) : Prop :=
  m = .unitExpression ∨ m = .unitGroup

section

variable {ts : Tables} {m : Mode} {below : List Mode} {w g x rest : List Char}

theorem reads_unit (hm : ReadsUnits m) (hw : IsUnit ts w) (hrest : Stops isUnitChar rest) :
    Reads ts (m :: below) (w ++ rest) [⟨.unit, w⟩] (m :: below) rest := by
  refine Reads.of_step? (s := .one .unit w .stay) ?_ (by simp) (by simpa using hw.ne_nil)
  rcases hm with rfl | rfl
  · have hlead : leadingUnit ts (w ++ rest) ≠ [] := by
      rw [hw.leading hrest]
      exact hw.ne_nil
    rw [currentMode, step?_unitExpression_of_leadingUnit hlead, hw.leading hrest]
  · obtain ⟨c, tail, hwc, hc⟩ := hw.head
    have hspaces : spaces ts (w ++ rest) = none := by
      rw [hwc]
      exact run_eq_none (stops_cons.mpr (isSpace_of_isUnitStart hc))
    have hword : groupWord ts (w ++ rest) = some (.one .unit w .stay) := by
      simp [groupWord, hw.leadingWord hrest, Step.one?, hw.ne_nil, hw.reads]
    simp [currentMode, Mode.step?, Mode.rules, hspaces, hword]

theorem reads_blanks (hm : ReadsUnits m) (hg : ∀ c ∈ g, isBlank c = true) (hne : g ≠ [])
    (hrest : Stops isSpace rest) :
    Reads ts (m :: below) (g ++ rest) [⟨.space, g⟩] (m :: below) rest := by
  refine Reads.of_step? (s := .one .space g .stay) ?_ (by simp) (by simpa using hne)
  rcases hm with rfl | rfl
  · have hblank : unitBlank ts (g ++ rest) = some (.one .space g .stay) := by
      simp [unitBlank, run, takeWhile_append_of_all hg hrest.blank, Step.one?, hne]
    simp [currentMode, Mode.step?, Mode.rules, hblank]
  · have hspaces : spaces ts (g ++ rest) = some (.one .space g .stay) := by
      have hall : ∀ c ∈ g, isSpace c = true := fun c hc => isSpace_of_isBlank (hg c hc)
      simp [spaces, run, takeWhile_append_of_all hall hrest, Step.one?, hne]
    simp [currentMode, Mode.step?, Mode.rules, hspaces]

theorem reads_product {c : Char} (hm : ReadsUnits m) (hc : c = '*' ∨ c = '/') :
    Reads ts (m :: below) (c :: rest) [⟨.unitOperator, [c]⟩] (m :: below) rest := by
  refine Reads.of_step? (s := .one .unitOperator [c] .stay) ?_ (by simp) (by simp)
  have hproduct : unitProduct ts (c :: rest) = some (.one .unitOperator [c] .stay) := by
    simp [unitProduct, oneOf, hc]
  have hspace : isSpace c = false := by rcases hc with rfl | rfl <;> rfl
  have hstart : isUnitStart c = false := by rcases hc with rfl | rfl <;> rfl
  rcases hm with rfl | rfl
  · rw [currentMode, step?_unitExpression_cons (isBlank_of_isSpace hspace), List.findSome?_cons,
      hproduct]
  · rw [currentMode, step?_unitGroup_cons hspace hstart, List.findSome?_cons, hproduct]

theorem reads_power (hm : ReadsUnits m) :
    Reads ts (m :: below) ('^' :: rest) [⟨.unitOperator, ['^']⟩] (.unitExponent :: m :: below)
      rest := by
  refine Reads.of_step? (s := .one .unitOperator ['^'] (.push .unitExponent)) ?_ (by simp) (by simp)
  rcases hm with rfl | rfl
  · rw [currentMode, step?_unitExpression_cons rfl]
    simp [unitProduct, unitPower, oneOf]
  · rw [currentMode, step?_unitGroup_cons rfl rfl]
    simp [unitProduct, unitPower, oneOf]

theorem reads_exponent (hx : IsInteger x) (hrest : Stops Char.isDigit rest) :
    Reads ts (.unitExponent :: below) (x ++ rest) [⟨.exponent, x⟩] below rest := by
  refine Reads.of_step? (s := .one .exponent x .pop) ?_ (by simp) (by simpa using hx.ne_nil)
  have hexp : exponent ts (x ++ rest) = some (.one .exponent x .pop) := by
    simp [exponent, hx.leading hrest, Step.one?, hx.ne_nil]
  simp [currentMode, Mode.step?, Mode.rules, hexp]

/-- Blanks between a power sign and its exponent. -/
theorem reads_blanks_before_exponent (hg : ∀ c ∈ g, isBlank c = true) (hne : g ≠ [])
    (hrest : Stops isBlank rest) :
    Reads ts (.unitExponent :: below) (g ++ rest) [⟨.space, g⟩] (.unitExponent :: below) rest := by
  refine Reads.of_step? (s := .one .space g .stay) ?_ (by simp) (by simpa using hne)
  have hexp : exponent ts (g ++ rest) = none := by
    -- A blank neither is a digit nor a sign.
    have hint : leadingInteger (g ++ rest) = [] := by
      rw [← List.nil_append (g ++ rest), leadingInteger_append]
      · rfl
      · intro d hd
        cases g with
        | nil => exact absurd rfl hne
        | cons c g =>
          obtain rfl : c = d := by simpa using hd
          have hc := hg c (by simp)
          simp only [isBlank, Bool.or_eq_true, beq_iff_eq] at hc
          rcases hc with rfl | rfl <;> decide
    simp [exponent, hint, Step.one?]
  have hblank : unitBlank ts (g ++ rest) = some (.one .space g .stay) := by
    simp [unitBlank, run, takeWhile_append_of_all hg hrest, Step.one?, hne]
  simp [currentMode, Mode.step?, Mode.rules, hexp, hblank]

/-- A parenthesis opens a group inside a group, and in an expression where the
look-ahead finds a unit. -/
theorem reads_opening (hm : ReadsUnits m)
    (hopens : m = .unitExpression → opensUnitGroup ts ('(' :: rest) = true) :
    Reads ts (m :: below) ('(' :: rest) [⟨parenthesis, ['(']⟩] (.unitGroup :: m :: below) rest := by
  refine Reads.of_step? (s := .one parenthesis ['('] (.push .unitGroup)) ?_ (by simp) (by simp)
  rcases hm with rfl | rfl
  · exact step?_unitExpression_of_opensUnitGroup (hopens rfl)
  · rw [currentMode, step?_unitGroup_cons rfl rfl]
    simp [unitProduct, unitPower, nestedGroup, oneOf]

theorem reads_closing :
    Reads ts (.unitGroup :: below) (')' :: rest) [⟨parenthesis, [')']⟩] below rest := by
  refine Reads.of_step? (s := .one parenthesis [')'] .pop) ?_ (by simp) (by simp)
  rw [currentMode, step?_unitGroup_cons rfl rfl]
  simp [unitProduct, unitPower, nestedGroup, groupClosing, oneOf]

/-! ## §4 The start of a quantity -/

/-- A literal that is found is read, whatever follows it. -/
theorem reads_leadingNumber {n : List Char} (hne : n ≠ []) (h : leadingNumber (n ++ rest) = n) :
    Reads ts [] (n ++ rest) [⟨.number, n⟩] [.expectUnit] rest := by
  refine Reads.of_step? (s := .one .number n (.push .expectUnit)) ?_ (by simp) (by simpa using hne)
  have hn : IsNumber n := (isLongestNumber_iff.mpr ⟨hne, h⟩).isNumber
  have hcomment : comment ts (n ++ rest) = none := by
    cases hnc : n with
    | nil => exact absurd hnc hne
    | cons c tail =>
      have hc : c ≠ '#' := by
        rintro rfl
        exact absurd (hn.numberChar '#' (by simp [hnc])) (by decide)
      simp [comment, hc]
  have hnumber : number ts (n ++ rest) = some (.one .number n (.push .expectUnit)) := by
    simp [number, h, Step.one?, hne]
  simp [currentMode, Mode.step?, Mode.rules, hcomment, hnumber]

theorem reads_number {n : List Char} (hn : IsNumber n) (hrest : Stops isNumberChar rest) :
    Reads ts [] (n ++ rest) [⟨.number, n⟩] [.expectUnit] rest :=
  reads_leadingNumber hn.ne_nil (hn.leading hrest)

/-- Blanks after a number. -/
theorem reads_gap (hg : ∀ c ∈ g, isBlank c = true) (hne : g ≠ []) (hrest : Stops isBlank rest) :
    Reads ts (.expectUnit :: below) (g ++ rest) [⟨.space, g⟩] (.expectUnitAfterSpace :: below)
      rest := by
  refine Reads.of_step? (s := .one .space g (.replace .expectUnitAfterSpace)) ?_ (by simp)
    (by simpa using hne)
  have hgap : unitGap ts (g ++ rest) = some (.one .space g (.replace .expectUnitAfterSpace)) := by
    simp [unitGap, run, takeWhile_append_of_all hg hrest, Step.one?, hne]
  simp [currentMode, Mode.step?, Mode.rules, hgap]

end

end UnitLexer
