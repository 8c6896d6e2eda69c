/-
UnitLexer.Lexer — the lazy stream of tokens.

A lexer holds the unread characters, the state between tokens and the tokens
of the last step that have not been asked for. It is a plain value: a copy of
it continues on its own and yields the same tokens.

The stream always ends. A step first leaves the modes that can do nothing with
the input; then the rules of the current mode take characters from it, or,
where none of them applies, a single character is taken as invalid. So each
token leaves fewer to come (`Lexer.remaining_next_lt`), and a drained stream is at
its end (`Lexer.remaining_drain`).
-/
import UnitLexer.Grammar
import UnitLexer.Text.ByteLength
import UnitLexer.Token

namespace UnitLexer

/-! ## §1 One step -/

/-- A character no rule accepts. -/
def invalidLexeme (c : Char) : Lexeme :=
  ⟨.invalid, [c]⟩

/-- The frames once every mode that hands the input back has been left. -/
def settle (ts : Tables) (cs : List Char) : List Mode → List Mode
  | [] => []
  | m :: below =>
    match m.step? ts cs with
    | some s => if s.text = [] then settle ts cs below else m :: below
    | none => m :: below

/-- The lexemes at the start of a non-empty input, and the frames open after
them. The root cannot be left: if a step of it took nothing, the character
would be invalid there, as it is where no rule applies. -/
def advance (ts : Tables) (c : Char) (cs : List Char) (frames : List Mode) :
    List Lexeme × List Mode :=
  let settled := settle ts (c :: cs) frames
  match (currentMode settled).step? ts (c :: cs) with
  | some s =>
    if s.text = [] then ([invalidLexeme c], settled) else (s.lexemes, s.transition.apply settled)
  | none => ([invalidLexeme c], settled)

/-- The lexemes are the start of the input, and none of them is empty. -/
theorem takes_advance (ts : Tables) (c : Char) (cs : List Char) (frames : List Mode) :
    textOf (advance ts c cs frames).1 <+: c :: cs ∧
      ∀ l ∈ (advance ts c cs frames).1, l.text ≠ [] := by
  have invalid : textOf [invalidLexeme c] <+: c :: cs ∧
      ∀ l ∈ [invalidLexeme c], l.text ≠ [] := by
    simp [textOf, invalidLexeme]
  unfold advance
  dsimp only
  split
  · next s hs =>
    split
    · exact invalid
    · exact ⟨(Mode.takes_of_step? hs).text_isPrefix, (Mode.takes_of_step? hs).ne_nil⟩
  · exact invalid

/-- Every step takes at least one character. -/
theorem textOf_advance_ne_nil (ts : Tables) (c : Char) (cs : List Char) (frames : List Mode) :
    textOf (advance ts c cs frames).1 ≠ [] := by
  unfold advance
  dsimp only
  split
  · split
    · simp [textOf, invalidLexeme]
    · assumption
  · simp [textOf, invalidLexeme]

/-- Where no lexeme is empty there are no more lexemes than characters. -/
theorem length_le_length_textOf {ls : List Lexeme} (h : ∀ l ∈ ls, l.text ≠ []) :
    ls.length ≤ (textOf ls).length := by
  induction ls with
  | nil => simp
  | cons l ls ih =>
    have hl : 0 < l.text.length := List.length_pos_iff.mpr (h l (by simp))
    have hls : ls.length ≤ (textOf ls).length := ih fun l' h' => h l' (by simp [h'])
    simp only [textOf, List.flatMap_cons, List.length_append, List.length_cons] at hls ⊢
    omega

/-- Lexemes placed one after the other in the source. -/
def place (start : Nat) : List Lexeme → List Token
  | [] => []
  | l :: ls => ⟨l.kind, String.ofList l.text, start⟩ :: place (start + byteLength l.text) ls

@[simp] theorem length_place (start : Nat) (ls : List Lexeme) :
    (place start ls).length = ls.length := by
  induction ls generalizing start with
  | nil => rfl
  | cons l ls ih => simp [place, ih]

/-! ## §2 The stream -/

/-- A stream of tokens over one source. -/
structure Lexer where
  tables : Tables
  /-- The characters not read yet. -/
  rest : List Char
  /-- Where reading stands; tokens not asked for yet are behind it already. -/
  state : State := {}
  /-- Tokens of the last step that have not been asked for. -/
  pending : List Token := []
  deriving DecidableEq, Repr

namespace Lexer

/-- The stream of a whole source. -/
def ofSource (ts : Tables) (source : String) : Lexer :=
  { tables := ts, rest := source.toList }

/-- Reads one step and keeps its tokens; nothing happens at the end of input. -/
def step (l : Lexer) : Lexer :=
  match l.rest with
  | [] => l
  | c :: cs =>
    let (lexemes, frames) := advance l.tables c cs l.state.frames
    let text := textOf lexemes
    { l with
      rest := (c :: cs).drop text.length
      state := ⟨l.state.pos + byteLength text, frames⟩
      pending := l.pending ++ place l.state.pos lexemes }

/-- The next token, and the stream after it. A step is read only when no token
of an earlier one is left. -/
def next (l : Lexer) : Option Token × Lexer :=
  match l.pending with
  | t :: ts => (some t, { l with pending := ts })
  | [] =>
    match l.step.pending with
    | t :: ts => (some t, { l.step with pending := ts })
    | [] => (none, l.step)

/-- Takes up to a number of tokens, on top of those taken before, newest first. -/
def collect : Nat → List Token → Lexer → List Token × Lexer
  | 0, taken, l => (taken.reverse, l)
  | n + 1, taken, l =>
    match l.next with
    | (none, l') => (taken.reverse, l')
    | (some t, l') => collect n (t :: taken) l'

/-- At most `n` tokens, and the stream after them. -/
def take (n : Nat) (l : Lexer) : List Token × Lexer :=
  collect n [] l

/-- How many tokens can come at most: those kept, and one for each character. -/
def remaining (l : Lexer) : Nat :=
  l.rest.length + l.pending.length

/-- All tokens to come, and the stream at its end. -/
def drain (l : Lexer) : List Token × Lexer :=
  l.take l.remaining

/-! ## §3 The stream ends -/

@[simp] theorem step_of_rest_eq_nil {l : Lexer} (h : l.rest = []) : l.step = l := by
  simp [step, h]

/-- A step at the end of kept tokens keeps at least one, and no more than it takes
characters. -/
theorem remaining_step {l : Lexer} (hr : l.rest ≠ []) (hp : l.pending = []) :
    l.step.pending ≠ [] ∧ l.step.remaining ≤ l.remaining := by
  unfold step
  split
  · contradiction
  · next c cs hcs =>
    have ⟨hpre, hne⟩ := takes_advance l.tables c cs l.state.frames
    have hlen := length_le_length_textOf hne
    have hle := hpre.length_le
    constructor
    · intro h
      have : (advance l.tables c cs l.state.frames).1 = [] :=
        List.length_eq_zero_iff.mp (by simpa [hp] using congrArg List.length h)
      exact textOf_advance_ne_nil l.tables c cs l.state.frames (by simp [this, textOf])
    · simp only [remaining, hp, hcs, List.nil_append, length_place, List.length_drop,
        List.length_nil]
      omega

/-- No token comes only when nothing is left, and then nothing changes. -/
theorem next_eq_none {l l' : Lexer} (h : l.next = (none, l')) :
    l' = l ∧ l.rest = [] ∧ l.pending = [] := by
  unfold next at h
  split at h
  · simp at h
  · next hp =>
    by_cases hr : l.rest = []
    · simp only [step_of_rest_eq_nil hr, hp, Prod.mk.injEq, true_and] at h
      exact ⟨h.symm, hr, hp⟩
    · split at h
      · simp at h
      · next hs => exact absurd hs (remaining_step hr hp).1

/-- With every token one less can come. -/
theorem remaining_next_lt {l l' : Lexer} {t : Token} (h : l.next = (some t, l')) :
    l'.remaining < l.remaining := by
  unfold next at h
  split at h
  · next t' ts hp =>
    obtain ⟨-, rfl⟩ := Prod.mk.inj h
    simp [remaining, hp]
  · next hp =>
    split at h
    · next t' ts hs =>
      obtain ⟨-, rfl⟩ := Prod.mk.inj h
      have hr : l.rest ≠ [] := by
        intro hr
        simp [step_of_rest_eq_nil hr, hp] at hs
      have := (remaining_step hr hp).2
      simp only [remaining, hs, List.length_cons] at this ⊢
      omega
    · simp at h

theorem collect_eq (n : Nat) (taken : List Token) (l : Lexer) :
    collect n taken l = (taken.reverse ++ (l.take n).1, (l.take n).2) := by
  unfold take
  induction n generalizing taken l with
  | zero => simp [collect]
  | succ n ih =>
    unfold collect
    split
    · simp
    · next t l' _ =>
      rw [ih (t :: taken), ih [t]]
      simp

@[simp] theorem take_zero (l : Lexer) : l.take 0 = ([], l) := rfl

theorem take_succ (n : Nat) (l : Lexer) :
    l.take (n + 1) =
      match l.next with
      | (none, l') => ([], l')
      | (some t, l') => (t :: (l'.take n).1, (l'.take n).2) := by
  rw [take, collect]
  split
  · rfl
  · rw [collect_eq]
    rfl

/-- Nothing is left of a stream that has been drained. -/
theorem remaining_drain (l : Lexer) : l.drain.2.remaining = 0 := by
  suffices h : ∀ (n : Nat) (l : Lexer), l.remaining ≤ n → (l.take n).2.remaining = 0 from
    h l.remaining l (Nat.le_refl _)
  intro n
  induction n with
  | zero => exact fun l h => Nat.le_zero.mp h
  | succ n ih =>
    intro l h
    rw [take_succ]
    split
    · next hn =>
      obtain ⟨rfl, hr, hp⟩ := next_eq_none hn
      simp [remaining, hr, hp]
    · next hn => exact ih _ (Nat.le_of_lt_succ (Nat.lt_of_lt_of_le (remaining_next_lt hn) h))

end Lexer

/-! ## §4 Whole sources -/

/-- The tokens of a source. -/
def tokenize (ts : Tables) (source : String) : List Token :=
  (Lexer.ofSource ts source).drain.1

end UnitLexer
