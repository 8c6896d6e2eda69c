/-
UnitLexer.Proofs.UnitSteps — what one step reads of the unit of a number.

While a unit is read every step reads one lexeme, and `UnitStep` lists all there
is: the modes that are open, the lexeme, and the modes after it. The list is
complete (`UnitStep.of_advance`), so what holds along a unit is shown by one case
analysis over it, without the rules. The first thing shown in this way is that
the open groups are the parentheses of the unit that are still open
(`UnitStep.nest_eq`).
-/
import UnitLexer.Proofs.Kinds

namespace UnitLexer

open Rule

/-! ## §1 How parentheses nest -/

/-- How deep parentheses are nested behind the lexeme, by how deep they are
nested before it. There is no answer where it closes one that is not open. -/
def Lexeme.nest (l : Lexeme) (depth : Nat) : Option Nat :=
  if l = ⟨parenthesis, ['(']⟩ then some (depth + 1)
  else if l = ⟨parenthesis, [')']⟩ then if depth = 0 then none else some (depth - 1)
  else some depth

/-- How deep parentheses are nested behind several lexemes. -/
def nesting (depth : Nat) (ls : List Lexeme) : Option Nat :=
  ls.foldlM (fun depth l => l.nest depth) depth

@[simp] theorem nest_opening (depth : Nat) :
    Lexeme.nest ⟨parenthesis, ['(']⟩ depth = some (depth + 1) := rfl

@[simp] theorem nest_closing_succ (depth : Nat) :
    Lexeme.nest ⟨parenthesis, [')']⟩ (depth + 1) = some depth := rfl

theorem nest_of_kind_ne {l : Lexeme} (h : l.kind ≠ parenthesis) (depth : Nat) :
    l.nest depth = some depth := by
  have hopening : l ≠ ⟨parenthesis, ['(']⟩ := fun hl => h (congrArg Lexeme.kind hl)
  have hclosing : l ≠ ⟨parenthesis, [')']⟩ := fun hl => h (congrArg Lexeme.kind hl)
  rw [Lexeme.nest, if_neg hopening, if_neg hclosing]

/-- Around parentheses that are open already a lexeme nests as without them,
unless it closes one of them. -/
theorem nest_add {l : Lexeme} {outer depth depth' : Nat}
    (h : l.nest (outer + depth) = some depth') :
    (∃ inner, depth' = outer + inner ∧ l.nest depth = some inner) ∨
      depth = 0 ∧ l = ⟨parenthesis, [')']⟩ := by
  by_cases hopening : l = ⟨parenthesis, ['(']⟩
  · subst hopening
    rw [nest_opening, Option.some.injEq] at h
    exact .inl ⟨depth + 1, by omega, nest_opening depth⟩
  · by_cases hclosing : l = ⟨parenthesis, [')']⟩
    · subst hclosing
      cases depth with
      | zero => exact .inr ⟨rfl, rfl⟩
      | succ depth =>
        rw [← Nat.add_assoc, nest_closing_succ, Option.some.injEq] at h
        exact .inl ⟨depth, h.symm, nest_closing_succ depth⟩
    · have hplain : ∀ d, l.nest d = some d := fun d => by
        rw [Lexeme.nest, if_neg hopening, if_neg hclosing]
      rw [hplain, Option.some.injEq] at h
      exact .inl ⟨depth, h.symm, hplain depth⟩

theorem nesting_append (depth : Nat) (ls ms : List Lexeme) :
    nesting depth (ls ++ ms) = (nesting depth ls).bind fun inner => nesting inner ms :=
  List.foldlM_append

theorem nesting_concat (depth : Nat) (ls : List Lexeme) (l : Lexeme) :
    nesting depth (ls ++ [l]) = (nesting depth ls).bind l.nest := by
  rw [nesting_append]
  congr 1
  funext inner
  simp [nesting]

/-! ## §2 The steps -/

/-- How many groups of units are open. -/
def openGroups (frames : List Mode) : Nat :=
  frames.count .unitGroup

@[simp] theorem openGroups_unitFrames (n : Nat) : openGroups (unitFrames n) = n := by
  simp [openGroups, unitFrames]

@[simp] theorem openGroups_exponent (n : Nat) :
    openGroups (.unitExponent :: unitFrames n) = n := by
  simp [openGroups, unitFrames]

/-- What a step can read while the unit of a number is read: in which modes,
which lexeme, and which modes are open then. -/
inductive UnitStep (ts : Tables) (cs : List Char) : List Mode → Lexeme → List Mode → Prop where
  /-- Blanks between the number and its unit. -/
  | gap (hne : cs.takeWhile isBlank ≠ []) :
      UnitStep ts cs [.expectUnit] ⟨.space, cs.takeWhile isBlank⟩ [.expectUnitAfterSpace]
  /-- The unit of the number. -/
  | firstUnit {m : Mode} (hm : m.AwaitsUnit) (h : leadingUnit ts cs ≠ []) :
      UnitStep ts cs [m] ⟨.unit, leadingUnit ts cs⟩ (unitFrames 0)
  /-- A group that the unit of the number starts with. -/
  | firstGroup {m : Mode} (hm : m.AwaitsUnit) (h : opensUnitGroup ts cs = true) :
      UnitStep ts cs [m] ⟨parenthesis, ['(']⟩ (unitFrames 1)
  /-- Blanks outside every group. -/
  | blank (hne : cs.takeWhile isBlank ≠ []) :
      UnitStep ts cs (unitFrames 0) ⟨.space, cs.takeWhile isBlank⟩ (unitFrames 0)
  /-- White space in a group. -/
  | space (n : Nat) (hne : cs.takeWhile isSpace ≠ []) :
      UnitStep ts cs (unitFrames (n + 1)) ⟨.space, cs.takeWhile isSpace⟩ (unitFrames (n + 1))
  /-- A further unit. -/
  | unit (n : Nat) (h : leadingUnit ts cs ≠ []) :
      UnitStep ts cs (unitFrames n) ⟨.unit, leadingUnit ts cs⟩ (unitFrames n)
  /-- A product or quotient sign. -/
  | product (n : Nat) {c : Char} {tail : List Char} (hcs : cs = c :: tail) (hc : c ∈ ['*', '/']) :
      UnitStep ts cs (unitFrames n) ⟨.unitOperator, [c]⟩ (unitFrames n)
  /-- A power sign. -/
  | power (n : Nat) {tail : List Char} (hcs : cs = '^' :: tail) :
      UnitStep ts cs (unitFrames n) ⟨.unitOperator, ['^']⟩ (.unitExponent :: unitFrames n)
  /-- A group outside every other. -/
  | group (h : opensUnitGroup ts cs = true) :
      UnitStep ts cs (unitFrames 0) ⟨parenthesis, ['(']⟩ (unitFrames 1)
  /-- A group inside another. -/
  | nested (n : Nat) {tail : List Char} (hcs : cs = '(' :: tail) :
      UnitStep ts cs (unitFrames (n + 1)) ⟨parenthesis, ['(']⟩ (unitFrames (n + 2))
  /-- The end of a group. -/
  | closing (n : Nat) {tail : List Char} (hcs : cs = ')' :: tail) :
      UnitStep ts cs (unitFrames (n + 1)) ⟨parenthesis, [')']⟩ (unitFrames n)
  /-- A word in a group that does not read as a unit. -/
  | identifier (n : Nat) (hne : leadingUnitWord cs ≠ []) (hunit : leadingUnit ts cs = []) :
      UnitStep ts cs (unitFrames (n + 1)) ⟨.identifier, leadingUnitWord cs⟩ (unitFrames (n + 1))
  /-- A character in a group that no rule accepts. -/
  | invalid (n : Nat) {c : Char} {tail : List Char} (hcs : cs = c :: tail)
      (hword : leadingUnitWord cs = []) (hspace : isSpace c = false) (hc : c ≠ '(') :
      UnitStep ts cs (unitFrames (n + 1)) ⟨.invalid, [c]⟩ (unitFrames (n + 1))
  /-- An exponent. -/
  | exponent (n : Nat) (h : leadingInteger cs ≠ []) :
      UnitStep ts cs (.unitExponent :: unitFrames n) ⟨.exponent, leadingInteger cs⟩ (unitFrames n)
  /-- Blanks before an exponent. -/
  | exponentBlank (n : Nat) (hne : cs.takeWhile isBlank ≠ []) :
      UnitStep ts cs (.unitExponent :: unitFrames n) ⟨.space, cs.takeWhile isBlank⟩
        (.unitExponent :: unitFrames n)
  /-- A product or quotient sign in place of an exponent. -/
  | noExponent (n : Nat) {c : Char} {tail : List Char} (hcs : cs = c :: tail)
      (hc : c ∈ ['*', '/']) :
      UnitStep ts cs (.unitExponent :: unitFrames n) ⟨.unitOperator, [c]⟩ (unitFrames n)

section

variable {ts : Tables} {c : Char} {cs : List Char} {frames mid : List Mode} {l : Lexeme}

namespace UnitStep

theorem text_ne_nil (h : UnitStep ts cs frames l mid) : l.text ≠ [] := by
  cases h <;> first | assumption | exact List.cons_ne_nil _ _

/-- The groups that are open after a step are the parentheses that are open then. -/
theorem nest_eq (h : UnitStep ts cs frames l mid) :
    l.nest (openGroups frames) = some (openGroups mid) := by
  cases h with
  | firstUnit hm | firstGroup hm => rcases hm with rfl | rfl <;> rfl
  | gap | blank | group => rfl
  | nested | closing => simp
  | space | unit | product | identifier | invalid | exponentBlank =>
    rw [nest_of_kind_ne (by simp [parenthesis])]
  | power | exponent | noExponent =>
    rw [nest_of_kind_ne (by simp [parenthesis]), openGroups_unitFrames, openGroups_exponent]

/-! ## §3 There are no others -/

theorem of_step?_first {m : Mode} {s : Step} (hm : m.AwaitsUnit) (hs : m.step? ts cs = some s)
    (hne : s.text ≠ []) :
    ∃ l, s.lexemes = [l] ∧ UnitStep ts cs [m] l (s.transition.apply [m]) := by
  rcases hm with rfl | rfl
  · cases Mode.answers_of_step? hs with
    | handBack => exact absurd rfl hne
    | one h =>
      cases h with
      | space hspans => contradiction
      | blank hm | unit hm | product hm | power hm => simp [Mode.CombinesUnits] at hm
      | gap hblank => exact ⟨_, rfl, .gap hblank⟩
      | firstUnit hm hunit => exact ⟨_, rfl, .firstUnit hm hunit⟩
      | firstGroup hm hopens => exact ⟨_, rfl, .firstGroup hm hopens⟩
  · cases Mode.answers_of_step? hs with
    | handBack => exact absurd rfl hne
    | one h =>
      cases h with
      | space hspans => contradiction
      | blank hm | unit hm | product hm | power hm => simp [Mode.CombinesUnits] at hm
      | firstUnit hm hunit => exact ⟨_, rfl, .firstUnit hm hunit⟩
      | firstGroup hm hopens => exact ⟨_, rfl, .firstGroup hm hopens⟩

theorem of_step?_unitExpression {s : Step} (hs : Mode.step? .unitExpression ts cs = some s)
    (hne : s.text ≠ []) :
    ∃ l, s.lexemes = [l] ∧ UnitStep ts cs (unitFrames 0) l (s.transition.apply (unitFrames 0)) := by
  cases Mode.answers_of_step? hs with
  | handBack => exact absurd rfl hne
  | one h =>
    cases h with
    | space hspans => contradiction
    | firstUnit hm | firstGroup hm => simp [Mode.AwaitsUnit] at hm
    | blank _ hblank => exact ⟨_, rfl, .blank hblank⟩
    | unit _ hunit => exact ⟨_, rfl, .unit 0 hunit⟩
    | product _ hcs hc => exact ⟨_, rfl, .product 0 hcs hc⟩
    | power _ hcs => exact ⟨_, rfl, .power 0 hcs⟩
    | group hopens => exact ⟨_, rfl, .group hopens⟩

theorem of_step?_unitExponent (n : Nat) {s : Step}
    (hs : Mode.step? .unitExponent ts cs = some s) (hne : s.text ≠ []) :
    ∃ l, s.lexemes = [l] ∧ UnitStep ts cs (.unitExponent :: unitFrames n) l
      (s.transition.apply (.unitExponent :: unitFrames n)) := by
  cases Mode.answers_of_step? hs with
  | handBack => exact absurd rfl hne
  | one h =>
    cases h with
    | space hspans => contradiction
    | firstUnit hm | firstGroup hm => simp [Mode.AwaitsUnit] at hm
    | unit hm | product hm | power hm => simp [Mode.CombinesUnits] at hm
    | blank _ hblank => exact ⟨_, rfl, .exponentBlank n hblank⟩
    | exponent hint => exact ⟨_, rfl, .exponent n hint⟩
    | noExponent hcs hc => exact ⟨_, rfl, .noExponent n hcs hc⟩

/-- A group has no rule that hands the input back. -/
theorem of_step?_unitGroup (n : Nat) {s : Step} (hs : Mode.step? .unitGroup ts cs = some s) :
    ∃ l, s.lexemes = [l] ∧
      UnitStep ts cs (unitFrames (n + 1)) l (s.transition.apply (unitFrames (n + 1))) := by
  cases Mode.answers_of_step? hs with
  | handBack hspans => contradiction
  | one h =>
    cases h with
    | firstUnit hm | firstGroup hm => simp [Mode.AwaitsUnit] at hm
    | blank hm => simp at hm
    | space _ hspace => exact ⟨_, rfl, .space n hspace⟩
    | unit _ hunit => exact ⟨_, rfl, .unit (n + 1) hunit⟩
    | product _ hcs hc => exact ⟨_, rfl, .product (n + 1) hcs hc⟩
    | power _ hcs => exact ⟨_, rfl, .power (n + 1) hcs⟩
    | nestedGroup hcs => exact ⟨_, rfl, .nested n hcs⟩
    | groupClosing hcs => exact ⟨_, rfl, .closing n hcs⟩
    | groupName hword hunit =>
      exact ⟨_, rfl, .identifier n hword (by simp [leadingUnit, hunit])⟩

theorem text_ne_nil_of_unitGroup {s : Step} (hs : Mode.step? .unitGroup ts cs = some s) :
    s.text ≠ [] := by
  obtain ⟨l, hl, hstep⟩ := of_step?_unitGroup 0 hs
  simpa [Step.text, hl] using hstep.text_ne_nil

end UnitStep

/-- What no rule of a group takes. -/
theorem of_step?_unitGroup_eq_none (h : Mode.step? .unitGroup ts (c :: cs) = none) :
    leadingUnitWord (c :: cs) = [] ∧ isSpace c = false ∧ c ≠ '(' := by
  have hnone := List.findSome?_eq_none_iff.mp h
  refine ⟨?_, ?_, ?_⟩
  · have hword := hnone groupWord (by simp [Mode.rules])
    by_contra hne
    simp [groupWord, Step.one?, hne] at hword
  · have hspace := hnone spaces (by simp [Mode.rules])
    cases hc : isSpace c with
    | false => rfl
    | true => simp [spaces, run, Step.one?, hc] at hspace
  · have hnested := hnone nestedGroup (by simp [Mode.rules])
    rintro rfl
    simp [nestedGroup, oneOf] at hnested

/-- A group that is open stays open until it is closed. -/
theorem settle_unitFrames_succ (n : Nat) :
    settle ts cs (unitFrames (n + 1)) = unitFrames (n + 1) := by
  cases hs : Mode.step? .unitGroup ts cs with
  | none => simp [unitFrames_succ, settle, hs]
  | some s => exact settle_eq_self hs (UnitStep.text_ne_nil_of_unitGroup hs)

/-- What is left of the open modes: all of them, none, or those of an exponent
without the exponent. -/
theorem settle_cases (ts : Tables) (cs : List Char) (h : OpenFrames frames) :
    settle ts cs frames = frames ∨ settle ts cs frames = [] ∨
      ∃ n, frames = .unitExponent :: unitFrames n ∧ settle ts cs frames = unitFrames n := by
  have hsingle : ∀ m : Mode, settle ts cs [m] = [m] ∨ settle ts cs [m] = [] :=
    fun m => settle_cons ts cs m []
  have hunit : ∀ n, settle ts cs (unitFrames n) = unitFrames n ∨
      settle ts cs (unitFrames n) = [] := by
    intro n
    cases n with
    | zero => exact hsingle .unitExpression
    | succ n => exact .inl (settle_unitFrames_succ n)
  cases h with
  | root => exact .inl rfl
  | string | expectUnit | expectUnitAfterSpace => exact (hsingle _).imp_right .inl
  | unit n => exact (hunit n).imp_right .inl
  | exponent n =>
    rcases settle_cons ts cs .unitExponent (unitFrames n) with hset | hset
    · exact .inl hset
    · rw [hset]
      exact .inr ((hunit n).symm.imp_right fun hn => ⟨n, rfl, hn⟩)

/-- While a unit is read every step is one of these. -/
theorem UnitStep.of_advance (h : OpenFrames frames)
    (hm : (currentMode (settle ts (c :: cs) frames)).inQuantity = true) :
    ∃ l mid, advance ts c cs frames = ([l], mid) ∧
      UnitStep ts (c :: cs) (settle ts (c :: cs) frames) l mid := by
  have hsettled : OpenFrames (settle ts (c :: cs) frames) := h.settle
  rcases advance_cases ts c cs frames with ⟨s, hs, hne, hadv⟩ | ⟨hnone, hadv⟩
  · suffices hstep : ∃ l, s.lexemes = [l] ∧ UnitStep ts (c :: cs) (settle ts (c :: cs) frames) l
        (s.transition.apply (settle ts (c :: cs) frames)) by
      obtain ⟨l, hl, hstep⟩ := hstep
      exact ⟨l, _, by rw [hadv, hl], hstep⟩
    generalize settle ts (c :: cs) frames = settled at hsettled hm hs
    cases hsettled with
    | root | string => simp [currentMode, Mode.inQuantity] at hm
    | expectUnit => exact of_step?_first (.inl rfl) hs hne
    | expectUnitAfterSpace => exact of_step?_first (.inr rfl) hs hne
    | exponent n => exact of_step?_unitExponent n hs hne
    | unit n =>
      cases n with
      | zero => exact of_step?_unitExpression hs hne
      | succ n => exact of_step?_unitGroup n hs
  · -- All modes but the group have a rule for everything.
    obtain ⟨n, hgroup⟩ : ∃ n, settle ts (c :: cs) frames = unitFrames (n + 1) := by
      cases hspans : (currentMode (settle ts (c :: cs) frames)).spansLines with
      | true =>
        generalize settle ts (c :: cs) frames = settled at hsettled hm hspans
        cases hsettled with
        | root | string | expectUnit | expectUnitAfterSpace | exponent =>
          simp [currentMode, Mode.spansLines, Mode.inQuantity] at hm hspans
        | unit n =>
          cases n with
          | zero => simp [currentMode, Mode.spansLines] at hspans
          | succ n => exact ⟨n, rfl⟩
      | false =>
        obtain ⟨s, hs⟩ := Option.isSome_iff_exists.mp (Mode.step?_isSome hspans ts (c :: cs))
        have hnil := hnone s hs
        cases hset : settle ts (c :: cs) frames with
        | nil =>
          rw [hset] at hm
          contradiction
        | cons m below =>
          rw [hset] at hs
          exact absurd hnil (text_ne_nil_of_settle hset hs)
    rw [hgroup] at hnone hadv ⊢
    cases hs : Mode.step? .unitGroup ts (c :: cs) with
    | some s => exact absurd (hnone s hs) (text_ne_nil_of_unitGroup hs)
    | none =>
      obtain ⟨hword, hspace, hc⟩ := of_step?_unitGroup_eq_none hs
      exact ⟨_, _, hadv, .invalid n rfl hword hspace hc⟩

end

end UnitLexer
