/-
UnitLexer.Rule.Basic — what a rule is and what it answers.

A rule looks at the unread input and either declines or answers with a step:
the lexemes it found at the start of the input, in order, and what becomes of
the open modes. A step without lexemes hands the input back, unread, to the
enclosing mode. Rules only look; reading on is the lexer's business.
-/
import UnitLexer.Kind
import UnitLexer.Mode
import UnitLexer.Tables.Basic

namespace UnitLexer

/-! ## §1 Lexemes and steps -/

/-- A classified run of characters that has not been placed in the source. -/
structure Lexeme where
  kind : Kind
  text : List Char
  deriving DecidableEq, Repr

/-- The characters of several lexemes together. -/
def textOf (ls : List Lexeme) : List Char :=
  ls.flatMap Lexeme.text

/-- The answer of a rule that applies. -/
structure Step where
  lexemes : List Lexeme
  transition : Transition
  deriving DecidableEq, Repr

namespace Step

/-- All the characters a step takes. -/
def text (s : Step) : List Char :=
  textOf s.lexemes

/-- A step that takes one lexeme. -/
def one (kind : Kind) (text : List Char) (transition : Transition) : Step :=
  ⟨[⟨kind, text⟩], transition⟩

/-- A step that takes one lexeme, unless it would be empty. -/
def one? (kind : Kind) (text : List Char) (transition : Transition) : Option Step :=
  if text = [] then none else some (one kind text transition)

/-- A step that takes adjacent lexemes, the empty ones left out. -/
def several (ls : List Lexeme) (transition : Transition) : Step :=
  ⟨ls.filter fun l => l.text ≠ [], transition⟩

/-- Leave the mode without taking anything. -/
def handBack : Step :=
  ⟨[], .pop⟩

@[simp] theorem text_one (k : Kind) (cs : List Char) (t : Transition) : (one k cs t).text = cs := by
  simp [text, textOf, one]

@[simp] theorem text_handBack : handBack.text = [] := rfl

end Step

/-! ## §2 Rules -/

/-- A rule of a mode: a step, or nothing where the rule does not apply. -/
abbrev Rule := Tables → List Char → Option Step

namespace Rule

/-- Takes the longest run of characters in a class. -/
def run (p : Char → Bool) (kind : Kind) (transition : Transition) : Rule :=
  fun _ cs => Step.one? kind (cs.takeWhile p) transition

/-- Takes one of the listed characters. -/
def oneOf (chars : List Char) (kind : Kind) (transition : Transition) : Rule
  | _, c :: _ => if c ∈ chars then some (.one kind [c] transition) else none
  | _, [] => none

/-- Applies everywhere and hands the input back to the enclosing mode. -/
def handBack : Rule :=
  fun _ _ => some .handBack

end Rule

/-! ## §3 Faithful rules

A rule must not invent text: what its steps take is the start of the input,
piece by piece, and no piece is empty. -/

/-- The lexemes of the step make up the start of the input, and none is empty. -/
structure Step.Takes (s : Step) (cs : List Char) : Prop where
  text_isPrefix : s.text <+: cs
  ne_nil : ∀ l ∈ s.lexemes, l.text ≠ []

/-- All steps of the rule take the start of the input. -/
def Rule.Faithful (r : Rule) : Prop :=
  ∀ {ts : Tables} {cs : List Char} {s : Step}, r ts cs = some s → s.Takes cs

namespace Step

theorem takes_handBack (cs : List Char) : handBack.Takes cs :=
  ⟨by simp, by simp [handBack]⟩

theorem takes_one {k : Kind} {text cs : List Char} {t : Transition} (h : text <+: cs)
    (hne : text ≠ []) : (one k text t).Takes cs :=
  ⟨by simpa using h, by simpa [one] using hne⟩

theorem takes_of_one? {k : Kind} {text cs : List Char} {t : Transition} {s : Step}
    (h : text <+: cs) (hs : one? k text t = some s) : s.Takes cs := by
  unfold one? at hs
  split at hs
  · contradiction
  · next hne =>
    obtain rfl := Option.some.inj hs
    exact takes_one h hne

theorem textOf_filter (ls : List Lexeme) :
    textOf (ls.filter fun l => l.text ≠ []) = textOf ls := by
  induction ls with
  | nil => rfl
  | cons l ls ih =>
    unfold textOf at ih ⊢
    by_cases h : l.text = []
    · simpa [h] using ih
    · simpa [h] using ih

@[simp] theorem text_several (ls : List Lexeme) (t : Transition) :
    (several ls t).text = textOf ls :=
  textOf_filter ls

theorem takes_several {ls : List Lexeme} {cs : List Char} {t : Transition}
    (h : textOf ls <+: cs) : (several ls t).Takes cs :=
  ⟨by rwa [text_several], by simp [several]⟩

end Step

namespace Rule

theorem faithful_handBack : Faithful handBack := by
  intro ts cs s h
  obtain rfl := Option.some.inj h
  exact Step.takes_handBack cs

theorem faithful_run (p : Char → Bool) (k : Kind) (t : Transition) : Faithful (run p k t) :=
  fun h => Step.takes_of_one? (List.takeWhile_prefix p) h

theorem faithful_oneOf (chars : List Char) (k : Kind) (t : Transition) :
    Faithful (oneOf chars k t) := by
  intro ts cs s h
  match cs with
  | [] => contradiction
  | c :: cs =>
    simp only [oneOf] at h
    split at h
    · obtain rfl := Option.some.inj h
      exact Step.takes_one ⟨cs, rfl⟩ (by simp)
    · contradiction

end Rule

end UnitLexer
