/-
UnitLexer.Proofs.UnitGrammar — the grammar of quantities.

A quantity is a number, blanks and a unit expression. An expression is a
sequence of factors with product and quotient signs between them; a factor is
a unit or a group in parentheses, with a power on it or none; blanks may stand
around every sign and inside every parenthesis. The three levels are one
family, so that a syntax tree is an expression of the grammar by its type, and
what is said about expressions is proved by one induction. Every leaf carries
the proof that it is a terminal.

`flat` writes an expression without its parentheses. It is again an expression
where each power stands on a unit, and then its terminals are those of the
first one with the parentheses left out (`lexemes_flat`, `text_flat`).
-/
import UnitLexer.Proofs.NumberGrammar

namespace UnitLexer

/-! ## §1 Units -/

theorem isSpace_iff {c : Char} :
    isSpace c = true ↔ c = ' ' ∨ c = '\t' ∨ c = '\r' ∨ c = '\n' := by
  simp [isSpace, isBlank, or_assoc]

theorem isBlank_iff {c : Char} : isBlank c = true ↔ c = ' ' ∨ c = '\t' := by
  simp [isBlank]

theorem isSpace_of_isUnitStart {c : Char} (h : isUnitStart c = true) : isSpace c = false := by
  cases hs : isSpace c with
  | false => rfl
  | true => rcases isSpace_iff.mp hs with rfl | rfl | rfl | rfl <;> exact absurd h (by decide)

theorem isBlank_of_isSpace {c : Char} (h : isSpace c = false) : isBlank c = false := by
  cases hb : isBlank c with
  | false => rfl
  | true => rw [isSpace_of_isBlank hb] at h; contradiction

theorem Stops.blank {rest : List Char} (h : Stops isSpace rest) : Stops isBlank rest :=
  h.mono fun _ => isSpace_of_isBlank

/-- A word that reads as a unit, as it stands in a source. -/
structure IsUnit (ts : Tables) (w : List Char) : Prop where
  word : leadingUnitWord w = w
  ne_nil : w ≠ []
  reads : ts.isUnit (String.ofList w) = true

namespace IsUnit

variable {ts : Tables} {w rest : List Char}

theorem head (h : IsUnit ts w) : ∃ c tail, w = c :: tail ∧ isUnitStart c = true := by
  cases w with
  | nil => exact absurd rfl h.ne_nil
  | cons c tail =>
    cases hc : isUnitStart c with
    | true => exact ⟨c, tail, rfl, hc⟩
    | false => exact absurd (h.word.symm.trans (leadingUnitWord_of_stops (by simpa))) h.ne_nil

theorem unitChar (h : IsUnit ts w) : ∀ c ∈ w, isUnitChar c = true := by
  intro c hc
  rw [← h.word] at hc
  exact isUnitChar_of_mem_leadingUnitWord hc

theorem leadingWord (h : IsUnit ts w) (hrest : Stops isUnitChar rest) :
    leadingUnitWord (w ++ rest) = w := by
  rw [leadingUnitWord_append hrest, h.word]

theorem leading (h : IsUnit ts w) (hrest : Stops isUnitChar rest) :
    leadingUnit ts (w ++ rest) = w := by
  simp [leadingUnit, h.leadingWord hrest, h.ne_nil, h.reads]

end IsUnit

/-! ## §2 Terminals -/

/-- A unit of an expression. -/
structure UnitWord (ts : Tables) where
  text : List Char
  isUnit : IsUnit ts text

/-- Spaces and tabs, perhaps none. -/
structure Blanks where
  text : List Char
  blank : ∀ c ∈ text, isBlank c = true

/-- The lexeme that blanks make; where there are none they make none. -/
def Blanks.lexemes (g : Blanks) : List Lexeme :=
  if g.text = [] then [] else [⟨.space, g.text⟩]

/-- The sign between two factors. -/
inductive ProductSign where
  | multiply
  | divide
  deriving DecidableEq, Repr

/-- The character of the sign. -/
def ProductSign.char : ProductSign → Char
  | .multiply => '*'
  | .divide => '/'

/-- The number after a power sign. -/
structure UnitPower where
  text : List Char
  isInteger : IsInteger text

/-! ## §3 Expressions -/

/-- The levels of the grammar. -/
inductive UnitExpr.Level where
  | primary
  | factor
  | expression

/-- The syntax trees of unit expressions. -/
inductive UnitExpr (ts : Tables) : UnitExpr.Level → Type where
  /-- A unit. -/
  | word (w : UnitWord ts) : UnitExpr ts .primary
  /-- An expression in parentheses. -/
  | group (before : Blanks) (e : UnitExpr ts .expression) (after : Blanks) : UnitExpr ts .primary
  /-- A unit or a group without a power. -/
  | plain (p : UnitExpr ts .primary) : UnitExpr ts .factor
  /-- A unit or a group with a power on it. -/
  | power (p : UnitExpr ts .primary) (before after : Blanks) (x : UnitPower) : UnitExpr ts .factor
  /-- One factor. -/
  | single (f : UnitExpr ts .factor) : UnitExpr ts .expression
  /-- A factor, a sign and further factors. -/
  | product (f : UnitExpr ts .factor) (before : Blanks) (sign : ProductSign) (after : Blanks)
      (e : UnitExpr ts .expression) : UnitExpr ts .expression

namespace UnitExpr

variable {ts : Tables} {level : Level}

/-- The expression as it is written. -/
def text {level : Level} : UnitExpr ts level → List Char
  | word w => w.text
  | group before e after => '(' :: (before.text ++ (e.text ++ (after.text ++ [')'])))
  | plain p => p.text
  | power p before after x => p.text ++ (before.text ++ '^' :: (after.text ++ x.text))
  | single f => f.text
  | product f before sign after e =>
    f.text ++ (before.text ++ sign.char :: (after.text ++ e.text))

/-- The terminals of the expression in order, each with its kind. -/
def lexemes {level : Level} : UnitExpr ts level → List Lexeme
  | word w => [⟨.unit, w.text⟩]
  | group before e after =>
    ⟨Rule.parenthesis, ['(']⟩ ::
      (before.lexemes ++ (e.lexemes ++ (after.lexemes ++ [⟨Rule.parenthesis, [')']⟩])))
  | plain p => p.lexemes
  | power p before after x =>
    p.lexemes ++
      (before.lexemes ++ ⟨.unitOperator, ['^']⟩ :: (after.lexemes ++ [⟨.exponent, x.text⟩]))
  | single f => f.lexemes
  | product f before sign after e =>
    f.lexemes ++
      (before.lexemes ++ ⟨.unitOperator, [sign.char]⟩ :: (after.lexemes ++ e.lexemes))

/-- An expression starts with a unit or a parenthesis. -/
theorem exists_text_eq_cons (e : UnitExpr ts level) :
    ∃ c tail, e.text = c :: tail ∧ (isUnitStart c = true ∨ c = '(') := by
  induction e with
  | word w =>
    obtain ⟨c, tail, hw, hc⟩ := w.isUnit.head
    exact ⟨c, tail, hw, .inl hc⟩
  | group before e after => exact ⟨'(', _, rfl, .inr rfl⟩
  | plain _ ih | single _ ih => exact ih
  | power _ _ _ _ ih | product _ _ _ _ _ ih _ =>
    obtain ⟨c, tail, hp, hc⟩ := ih
    exact ⟨c, _, by rw [text, hp, List.cons_append], hc⟩

end UnitExpr

/-! ## §4 Parentheses left out -/

/-- The text with its parentheses left out. -/
def withoutParentheses (cs : List Char) : List Char :=
  cs.filter fun c => c != '(' && c != ')'

@[simp] theorem withoutParentheses_append (cs ds : List Char) :
    withoutParentheses (cs ++ ds) = withoutParentheses cs ++ withoutParentheses ds :=
  List.filter_append cs ds

theorem withoutParentheses_cons {c : Char} (cs : List Char) (ho : c ≠ '(') (hc : c ≠ ')') :
    withoutParentheses (c :: cs) = c :: withoutParentheses cs := by
  simp [withoutParentheses, ho, hc]

/-- Where parentheses are in no class of the text, nothing is left out. -/
theorem withoutParentheses_eq_self {p : Char → Bool} {cs : List Char}
    (h : ∀ c ∈ cs, p c = true) (ho : p '(' = false) (hc : p ')' = false) :
    withoutParentheses cs = cs := by
  refine List.filter_eq_self.mpr fun c hmem => ?_
  have hp := h c hmem
  have hno : c ≠ '(' := by rintro rfl; rw [ho] at hp; contradiction
  have hnc : c ≠ ')' := by rintro rfl; rw [hc] at hp; contradiction
  simp [hno, hnc]

theorem UnitWord.withoutParentheses {ts : Tables} (w : UnitWord ts) :
    withoutParentheses w.text = w.text :=
  withoutParentheses_eq_self w.isUnit.unitChar (by decide) (by decide)

theorem Blanks.withoutParentheses (g : Blanks) : withoutParentheses g.text = g.text :=
  withoutParentheses_eq_self g.blank (by decide) (by decide)

theorem UnitPower.withoutParentheses (x : UnitPower) : withoutParentheses x.text = x.text :=
  withoutParentheses_eq_self x.isInteger.numberChar (by decide) (by decide)

theorem ProductSign.withoutParentheses_cons (sign : ProductSign) (cs : List Char) :
    withoutParentheses (sign.char :: cs) = sign.char :: withoutParentheses cs := by
  cases sign <;> exact UnitLexer.withoutParentheses_cons cs (by decide) (by decide)

/-- The lexemes that are no parentheses. -/
def apartFromParentheses (ls : List Lexeme) : List Lexeme :=
  ls.filter fun l => l.kind ≠ Rule.parenthesis

@[simp] theorem apartFromParentheses_nil : apartFromParentheses [] = [] := rfl

theorem apartFromParentheses_append (ls ms : List Lexeme) :
    apartFromParentheses (ls ++ ms) = apartFromParentheses ls ++ apartFromParentheses ms :=
  List.filter_append ls ms

theorem apartFromParentheses_cons {k : Kind} {text : List Char} (ls : List Lexeme)
    (h : k ≠ .bracket .parenthesis) :
    apartFromParentheses (⟨k, text⟩ :: ls) = ⟨k, text⟩ :: apartFromParentheses ls := by
  simp [apartFromParentheses, Rule.parenthesis, h]

theorem apartFromParentheses_idem (ls : List Lexeme) :
    apartFromParentheses (apartFromParentheses ls) = apartFromParentheses ls :=
  List.filter_filter.trans (by simp [apartFromParentheses])

theorem Blanks.apartFromParentheses (g : Blanks) : apartFromParentheses g.lexemes = g.lexemes := by
  unfold Blanks.lexemes
  split <;> rfl

/-! ## §5 Expressions without groups -/

namespace UnitExpr

variable {ts : Tables} {level : Level}

/-- There are no blanks in the expression. -/
def tight {level : Level} : UnitExpr ts level → Bool
  | word _ => true
  | group before e after => before.text = [] && e.tight && after.text = []
  | plain p => p.tight
  | power p before after _ => p.tight && before.text = [] && after.text = []
  | single f => f.tight
  | product f before _ after e => f.tight && before.text = [] && after.text = [] && e.tight

/-- Every power stands on a unit, and none on a group. -/
def powersOnUnits {level : Level} : UnitExpr ts level → Bool
  | word _ => true
  | group _ e _ => e.powersOnUnits
  | plain p => p.powersOnUnits
  | power (.word _) _ _ _ => true
  | power (.group _ _ _) _ _ _ => false
  | single f => f.powersOnUnits
  | product f _ _ _ e => f.powersOnUnits && e.powersOnUnits

/-- Further factors at the end of an expression. -/
def times (before : Blanks) (sign : ProductSign) (after : Blanks)
    (more : UnitExpr ts .expression) : UnitExpr ts .expression → UnitExpr ts .expression
  | single f => product f before sign after more
  | product f before' sign' after' e =>
    product f before' sign' after' (times before sign after more e)

/-- The expression without its parentheses. A power on a group has no place in
it. -/
def flat {level : Level} : UnitExpr ts level → UnitExpr ts .expression
  | word w => single (plain (word w))
  | group _ e _ => e.flat
  | plain p => p.flat
  | power (.word w) before after x => single (power (word w) before after x)
  | power (.group _ e _) _ _ _ => e.flat
  | single f => f.flat
  | product f before sign after e => times before sign after e.flat f.flat

theorem text_times (before : Blanks) (sign : ProductSign) (after : Blanks)
    (more : UnitExpr ts .expression) : ∀ e : UnitExpr ts .expression,
    (times before sign after more e).text =
      e.text ++ (before.text ++ sign.char :: (after.text ++ more.text))
  | single _ => by simp [times, text]
  | product _ _ _ _ e => by
    simp [times, text, text_times before sign after more e]

theorem lexemes_times (before : Blanks) (sign : ProductSign) (after : Blanks)
    (more : UnitExpr ts .expression) : ∀ e : UnitExpr ts .expression,
    (times before sign after more e).lexemes =
      e.lexemes ++
        (before.lexemes ++ ⟨.unitOperator, [sign.char]⟩ :: (after.lexemes ++ more.lexemes))
  | single _ => by simp [times, lexemes]
  | product _ _ _ _ e => by
    simp [times, lexemes, lexemes_times before sign after more e]

theorem text_flat (e : UnitExpr ts level) (ht : e.tight = true) (hp : e.powersOnUnits = true) :
    e.flat.text = withoutParentheses e.text := by
  induction e with
  | word w => exact w.withoutParentheses.symm
  | group before e after ih =>
    simp only [tight, Bool.and_eq_true, decide_eq_true_eq] at ht
    obtain ⟨⟨hbefore, htight⟩, hafter⟩ := ht
    rw [flat, ih htight hp, text, hbefore, hafter]
    simp [UnitLexer.withoutParentheses]
  | plain _ ih | single _ ih => exact ih ht hp
  | power p before after x ih =>
    cases p with
    | group => simp [powersOnUnits] at hp
    | word w =>
      simp [flat, text, w.withoutParentheses, before.withoutParentheses,
        after.withoutParentheses, x.withoutParentheses, withoutParentheses_cons]
  | product f before sign after e ihf ihe =>
    simp only [tight, Bool.and_eq_true] at ht
    simp only [powersOnUnits, Bool.and_eq_true] at hp
    rw [flat, text_times, ihf ht.1.1.1 hp.1, ihe ht.2 hp.2]
    simp [text, before.withoutParentheses, after.withoutParentheses,
      sign.withoutParentheses_cons]

/-- The terminals without parentheses are those of the expression without them. -/
theorem lexemes_flat (e : UnitExpr ts level) (ht : e.tight = true)
    (hp : e.powersOnUnits = true) : e.flat.lexemes = apartFromParentheses e.lexemes := by
  induction e with
  | word w => rfl
  | group before e after ih =>
    simp only [tight, Bool.and_eq_true, decide_eq_true_eq] at ht
    obtain ⟨⟨hbefore, htight⟩, hafter⟩ := ht
    rw [flat, ih htight hp, lexemes, Blanks.lexemes, if_pos hbefore, Blanks.lexemes, if_pos hafter]
    simp [apartFromParentheses]
  | plain _ ih | single _ ih => exact ih ht hp
  | power p before after x ih =>
    cases p with
    | group => simp [powersOnUnits] at hp
    | word w =>
      simp [flat, lexemes, apartFromParentheses_append, apartFromParentheses_cons,
        before.apartFromParentheses, after.apartFromParentheses]
  | product f before sign after e ihf ihe =>
    simp only [tight, Bool.and_eq_true] at ht
    simp only [powersOnUnits, Bool.and_eq_true] at hp
    rw [flat, lexemes_times, ihf ht.1.1.1 hp.1, ihe ht.2 hp.2]
    simp [lexemes, apartFromParentheses_append, apartFromParentheses_cons,
      before.apartFromParentheses, after.apartFromParentheses]

end UnitExpr

/-! ## §6 Quantities -/

/-- A number, at least one blank and a unit expression. -/
structure Quantity (ts : Tables) where
  number : List Char
  isNumber : IsNumber number
  gap : Blanks
  gap_ne_nil : gap.text ≠ []
  unit : UnitExpr ts .expression

namespace Quantity

variable {ts : Tables}

/-- The quantity as it is written. -/
def text (q : Quantity ts) : List Char :=
  q.number ++ (q.gap.text ++ q.unit.text)

/-- The terminals of the quantity in order, each with its kind. -/
def lexemes (q : Quantity ts) : List Lexeme :=
  ⟨.number, q.number⟩ :: ⟨.space, q.gap.text⟩ :: q.unit.lexemes

/-- The quantity without the parentheses of its unit. -/
def flat (q : Quantity ts) : Quantity ts :=
  { q with unit := q.unit.flat }

theorem text_flat (q : Quantity ts) (ht : q.unit.tight = true)
    (hp : q.unit.powersOnUnits = true) : q.flat.text = withoutParentheses q.text := by
  have hnumber : withoutParentheses q.number = q.number :=
    withoutParentheses_eq_self q.isNumber.numberChar (by decide) (by decide)
  rw [text, text, withoutParentheses_append, withoutParentheses_append, hnumber,
    q.gap.withoutParentheses, ← q.unit.text_flat ht hp]
  rfl

theorem lexemes_flat (q : Quantity ts) (ht : q.unit.tight = true)
    (hp : q.unit.powersOnUnits = true) : q.flat.lexemes = apartFromParentheses q.lexemes := by
  have hunit : q.flat.unit.lexemes = apartFromParentheses q.unit.lexemes :=
    q.unit.lexemes_flat ht hp
  rw [lexemes, hunit, lexemes, apartFromParentheses_cons _ (by simp),
    apartFromParentheses_cons _ (by simp)]
  rfl

end Quantity

end UnitLexer
