/-
UnitLexer.Proofs.Steps — a source step by step.

`Lexer.atStep` is the stream of a source after a number of steps. No token is
asked for on the way, so the tokens of the source up to there are those that
are kept, in order, and the mode stack and the rest of the input are those
between two steps. A statement about the tokens so far, or about the step that
has read a token, is one about `Lexer.atStep`: `Lexer.history` proves a property
of what has been read, what is open and what is left by its steps, and
`exists_step_of_lexemes` finds the step of a given token, with the mode it was
read in.
-/
import UnitLexer.Proofs.OpenModes

namespace UnitLexer

/-! ## §1 Tokens apart from their places -/

/-- The token apart from its place. -/
def Token.lexeme (t : Token) : Lexeme :=
  ⟨t.kind, t.text.toList⟩

@[simp] theorem map_lexeme_place (start : Nat) (ls : List Lexeme) :
    (place start ls).map Token.lexeme = ls := by
  induction ls generalizing start with
  | nil => rfl
  | cons l ls ih => simp [place, Token.lexeme, ih]

/-- The tokens of a source apart from their places. -/
def lexemes (ts : Tables) (source : String) : List Lexeme :=
  (tokenize ts source).map Token.lexeme

/-! ## §2 The stream after some steps -/

namespace Lexer

/-- The stream of a source after a number of steps, with every token kept. -/
def atStep (ts : Tables) (source : String) (k : Nat) : Lexer :=
  step^[k] (ofSource ts source)

/-- What has been read, apart from its places. -/
def readSoFar (l : Lexer) : List Lexeme :=
  l.pending.map Token.lexeme

/-- Tokens that are kept on top of others have been read behind them. -/
theorem readSoFar_eq_append {l l' : Lexer} {start : Nat} {ls : List Lexeme}
    (h : l'.pending = l.pending ++ place start ls) : l'.readSoFar = l.readSoFar ++ ls := by
  rw [readSoFar, h, List.map_append, map_lexeme_place, readSoFar]

/-- The modes that are open once those that hand the input back have been left. -/
def settledFrames (l : Lexer) : List Mode :=
  settle l.tables l.rest l.state.frames

/-- The next step enters the mode. -/
def Enters (l : Lexer) (m : Mode) : Prop :=
  .push m ∈ l.moves ∨ ∃ outer, .replaceThenPush outer m ∈ l.moves

section

variable {ts : Tables} {source : String}

@[simp] theorem atStep_zero : atStep ts source 0 = ofSource ts source := rfl

theorem atStep_succ (k : Nat) : atStep ts source (k + 1) = (atStep ts source k).step :=
  Function.iterate_succ_apply' step k _

theorem atStep_add (k n : Nat) : atStep ts source (k + n) = step^[n] (atStep ts source k) := by
  rw [atStep, atStep, Nat.add_comm, Function.iterate_add_apply]

@[simp] theorem tables_atStep (k : Nat) : (atStep ts source k).tables = ts := by
  obtain ⟨ls, hls⟩ := (ofSource ts source).readsTo_iterate_step k
  exact hls.tables_eq

theorem settledFrames_atStep {k : Nat} {c : Char} {cs : List Char}
    (hr : (atStep ts source k).rest = c :: cs) : (atStep ts source k).settledFrames =
      settle ts (c :: cs) (atStep ts source k).state.frames := by
  rw [settledFrames, tables_atStep, hr]

/-- At the end of the input nothing changes any more. -/
theorem atStep_succ_of_rest_eq_nil {k : Nat} (h : (atStep ts source k).rest = []) :
    atStep ts source (k + 1) = atStep ts source k := by
  rw [atStep_succ, step_of_rest_eq_nil h]

/-- What one step changes. -/
theorem atStep_succ_eq {k : Nat} {c : Char} {cs tail : List Char} {ls : List Lexeme}
    {mid : List Mode} (hr : (atStep ts source k).rest = c :: cs)
    (adv : advance ts c cs (atStep ts source k).state.frames = (ls, mid))
    (text : c :: cs = textOf ls ++ tail) :
    (atStep ts source (k + 1)).rest = tail ∧ (atStep ts source (k + 1)).state.frames = mid ∧
      (atStep ts source (k + 1)).pending =
        (atStep ts source k).pending ++ place (atStep ts source k).state.pos ls := by
  have hadv : advance (atStep ts source k).tables c cs (atStep ts source k).state.frames =
      (ls, mid) := by rwa [tables_atStep]
  rw [atStep_succ, step_eq hr hadv text]
  exact ⟨rfl, rfl, rfl⟩

/-- A step in the middle of the input, by its parts. -/
theorem exists_advance {k : Nat} {c : Char} {cs : List Char}
    (hr : (atStep ts source k).rest = c :: cs) :
    ∃ ls mid tail, advance ts c cs (atStep ts source k).state.frames = (ls, mid) ∧
      c :: cs = textOf ls ++ tail ∧ (atStep ts source (k + 1)).rest = tail ∧
      (atStep ts source (k + 1)).state.frames = mid ∧
      (atStep ts source (k + 1)).pending =
        (atStep ts source k).pending ++ place (atStep ts source k).state.pos ls := by
  obtain ⟨tail, htail⟩ := (takes_advance ts c cs (atStep ts source k).state.frames).1
  exact ⟨_, _, tail, rfl, htail.symm, atStep_succ_eq hr rfl htail.symm⟩

/-- What holds at the start and is kept by every step holds all along: of what
has been read, of the open modes and of the rest of the input. -/
theorem history {P : List Lexeme → List Mode → List Char → Prop} (start : P [] [] source.toList)
    (step : ∀ {ls ms : List Lexeme} {frames mid : List Mode} {c : Char} {cs tail : List Char},
      P ls frames (c :: cs) → advance ts c cs frames = (ms, mid) → c :: cs = textOf ms ++ tail →
        P (ls ++ ms) mid tail) (k : Nat) :
    P (atStep ts source k).readSoFar (atStep ts source k).state.frames
      (atStep ts source k).rest := by
  induction k with
  | zero => exact start
  | succ k ih =>
    cases hr : (atStep ts source k).rest with
    | nil =>
      rw [hr] at ih
      rwa [atStep_succ_of_rest_eq_nil hr, hr]
    | cons c cs =>
      obtain ⟨ls, mid, tail, hadv, htext, hrest, hframes, hpend⟩ := exists_advance hr
      rw [hr] at ih
      rw [readSoFar_eq_append hpend, hrest, hframes]
      exact step ih hadv htext

/-- The open modes have one of the shapes of a run. -/
theorem openFrames_atStep (k : Nat) : OpenFrames (atStep ts source k).state.frames :=
  history (P := fun _ frames _ => OpenFrames frames) .root
    (fun {_ _ frames _ c cs _} h hadv _ => by
      have hnext : OpenFrames (advance ts c cs frames).2 := h.advance
      rwa [hadv] at hnext) k

/-- What has been read and what is left make up the source. -/
theorem toList_eq_textOf_readSoFar (ts : Tables) (source : String) (k : Nat) :
    source.toList = textOf (atStep ts source k).readSoFar ++ (atStep ts source k).rest :=
  history (P := fun ls _ cs => source.toList = textOf ls ++ cs) rfl
    (fun h _ htext => by rw [h, htext, textOf_append, List.append_assoc]) k

/-- A run from the modes and the input after a step is made by further steps. -/
theorem exists_atStep_of_reads {k : Nat} {ls : List Lexeme} {frames : List Mode}
    {rest : List Char}
    (h : Reads ts (atStep ts source k).state.frames (atStep ts source k).rest ls frames rest) :
    ∃ n, (atStep ts source (k + n)).state.frames = frames ∧
      (atStep ts source (k + n)).rest = rest ∧
      (atStep ts source (k + n)).pending =
        (atStep ts source k).pending ++ place (atStep ts source k).state.pos ls := by
  obtain ⟨n, hn⟩ := exists_iterate_step (l := atStep ts source k) (by rwa [tables_atStep])
  rw [← atStep_add] at hn
  exact ⟨n, hn⟩

/-- A mode is entered by the rule that takes something. -/
theorem exists_step?_of_enters {l : Lexer} {m : Mode} (h : l.Enters m) :
    ∃ c cs s, l.rest = c :: cs ∧
      (currentMode l.settledFrames).step? l.tables (c :: cs) = some s ∧ s.text ≠ [] ∧
      (s.transition = .push m ∨ ∃ outer, s.transition = .replaceThenPush outer m) := by
  have hreturns : ∀ (cs : List Char) (frames : List Mode),
      ∀ t ∈ settleMoves l.tables cs frames, t = .pop := by
    intro cs frames
    induction frames with
    | nil => simp [settleMoves]
    | cons m below ih =>
      unfold settleMoves
      split
      · split
        · simpa using ih
        · simp
      · simp
  cases hr : l.rest with
  | nil => simp [Enters, moves, hr] at h
  | cons c cs =>
    have htaking : ∀ t, t ≠ .pop → t ∈ l.moves → t ∈ takingMoves l.tables (c :: cs)
        l.settledFrames := by
      intro t ht hmem
      rw [moves, hr, if_neg (List.cons_ne_nil c cs), List.mem_append] at hmem
      rw [settledFrames, hr]
      exact hmem.resolve_left fun hmem => ht (hreturns _ _ t hmem)
    obtain ⟨t, ht, hmem⟩ : ∃ t, (t = .push m ∨ ∃ outer, t = .replaceThenPush outer m) ∧
        t ∈ takingMoves l.tables (c :: cs) l.settledFrames := by
      rcases h with h | ⟨outer, h⟩
      · exact ⟨_, .inl rfl, htaking _ (by simp) h⟩
      · exact ⟨_, .inr ⟨outer, rfl⟩, htaking _ (by simp) h⟩
    unfold takingMoves at hmem
    split at hmem
    · next s hs =>
      split at hmem
      · simp at hmem
      · next hne =>
        obtain rfl := List.mem_singleton.mp hmem
        exact ⟨c, cs, s, rfl, hs, hne, ht⟩
    · simp at hmem

/-- What a step leaves behind that reads something in the settled modes. -/
theorem atStep_succ_of_step? {k : Nat} {c : Char} {cs tail : List Char} {s : Step}
    (hr : (atStep ts source k).rest = c :: cs)
    (hs : (currentMode (atStep ts source k).settledFrames).step? ts (c :: cs) = some s)
    (htext : c :: cs = s.text ++ tail) (hne : s.text ≠ []) :
    (atStep ts source (k + 1)).rest = tail ∧
      (atStep ts source (k + 1)).state.frames =
        s.transition.apply (atStep ts source k).settledFrames ∧
      (atStep ts source (k + 1)).readSoFar = (atStep ts source k).readSoFar ++ s.lexemes := by
  rw [settledFrames_atStep hr] at hs ⊢
  obtain ⟨hrest, hframes, hpend⟩ := atStep_succ_eq hr (advance_of_settle hs hne) htext
  exact ⟨hrest, hframes, readSoFar_eq_append hpend⟩

/-! ## §3 The tokens of the source -/

theorem exists_rest_atStep_eq_nil (ts : Tables) (source : String) :
    ∃ k, (atStep ts source k).rest = [] ∧ tokenize ts source = (atStep ts source k).pending ∧
      finalModes ts source = (atStep ts source k).state.modes := by
  obtain ⟨ls, frames, hrun, htok, hmodes⟩ := exists_reads_source ts source
  obtain ⟨n, hframes, hrest, hpend⟩ := exists_atStep_of_reads (k := 0) hrun
  refine ⟨0 + n, hrest, ?_, ?_⟩
  · rw [htok, hpend]
    rfl
  · rw [hmodes, State.modes, hframes]

/-- Tokens are only added. -/
theorem pending_isPrefix {j k : Nat} (h : j ≤ k) :
    (atStep ts source j).pending <+: (atStep ts source k).pending := by
  induction h with
  | refl => exact List.prefix_refl _
  | @step k _ ih =>
    obtain ⟨ls, -, hpend⟩ := readsTo_step (atStep ts source k)
    rw [atStep_succ, hpend]
    exact ih.trans (List.prefix_append _ _)

theorem atStep_eq_of_rest_eq_nil {j k : Nat} (hj : (atStep ts source j).rest = []) (h : j ≤ k) :
    atStep ts source k = atStep ts source j := by
  induction h with
  | refl => rfl
  | step _ ih => rw [atStep_succ_of_rest_eq_nil (by rwa [ih]), ih]

/-- What is kept on the way are the first tokens of the source. -/
theorem pending_isPrefix_tokenize (k : Nat) :
    (atStep ts source k).pending <+: tokenize ts source := by
  obtain ⟨n, hn, htok, -⟩ := exists_rest_atStep_eq_nil ts source
  rw [htok]
  rcases Nat.le_total k n with h | h
  · exact pending_isPrefix h
  · simp only [atStep_eq_of_rest_eq_nil hn h, List.prefix_refl]

theorem readSoFar_isPrefix_lexemes (k : Nat) :
    (atStep ts source k).readSoFar <+: lexemes ts source :=
  (pending_isPrefix_tokenize k).map Token.lexeme

/-- Where the input has been read to its end the modes are the final ones. -/
theorem modes_eq_finalModes {k : Nat} (h : (atStep ts source k).rest = []) :
    (atStep ts source k).state.modes = finalModes ts source := by
  obtain ⟨n, hn, -, hmodes⟩ := exists_rest_atStep_eq_nil ts source
  rw [hmodes]
  rcases Nat.le_total k n with hle | hle
  · rw [atStep_eq_of_rest_eq_nil h hle]
  · rw [atStep_eq_of_rest_eq_nil hn hle]

end

end Lexer

/-! ## §4 The step that reads a token -/

/-- The token of this number, counted from zero, is read in a mode: by the step
that adds it, in the innermost mode that does not hand the input back. -/
def ReadIn (ts : Tables) (source : String) (i : Nat) (m : Mode) : Prop :=
  ∃ k, (Lexer.atStep ts source k).readSoFar.length ≤ i ∧
    i < (Lexer.atStep ts source (k + 1)).readSoFar.length ∧
    currentMode (Lexer.atStep ts source k).settledFrames = m

section

variable {ts : Tables} {source : String} {before after : List Lexeme} {l : Lexeme}

/-- Two parts of a list, one of which holds an element of it. -/
theorem append_prefix_cases {as bs : List Lexeme} (h : as ++ bs <+: before ++ l :: after)
    (hle : as.length ≤ before.length) (hlt : before.length < (as ++ bs).length) :
    ∃ us vs more, bs = us ++ l :: vs ∧ before = as ++ us ∧ after = vs ++ more := by
  obtain ⟨more, hmore⟩ := h
  rw [List.append_assoc] at hmore
  rcases List.append_eq_append_iff.mp hmore with ⟨us, rfl, hbs⟩ | ⟨us, rfl, hus⟩
  · rcases List.append_eq_append_iff.mp hbs with ⟨vs, rfl, hvs⟩ | ⟨vs, rfl, hvs⟩
    · simp only [List.length_append] at hlt
      omega
    · cases vs with
      | nil =>
        simp only [List.length_append, List.length_nil] at hlt
        omega
      | cons l' vs =>
        obtain ⟨rfl, rfl⟩ := List.cons.inj hvs
        exact ⟨us, vs, more, rfl, rfl, rfl⟩
  · have hus' : us = [] := by
      rw [List.length_append] at hle
      exact List.length_eq_zero_iff.mp (by omega)
    subst hus'
    cases bs with
    | nil => simp at hlt
    | cons l' bs =>
      obtain ⟨rfl, rfl⟩ := List.cons.inj hus
      exact ⟨[], bs, more, rfl, by simp, rfl⟩

/-- The step whose tokens hold the token of this number reads it as one of the
lexemes at the start of its input. -/
theorem lexemes_of_step (h : lexemes ts source = before ++ l :: after) {k : Nat}
    (hle : (Lexer.atStep ts source k).readSoFar.length ≤ before.length)
    (hlt : before.length < (Lexer.atStep ts source (k + 1)).readSoFar.length) :
    ∃ c cs us vs more, (Lexer.atStep ts source k).rest = c :: cs ∧
      (advance ts c cs (Lexer.atStep ts source k).state.frames).1 = us ++ l :: vs ∧
      before = (Lexer.atStep ts source k).readSoFar ++ us ∧ after = vs ++ more := by
  cases hr : (Lexer.atStep ts source k).rest with
  | nil =>
    rw [Lexer.atStep_succ_of_rest_eq_nil hr] at hlt
    omega
  | cons c cs =>
    obtain ⟨ls, mid, tail, hadv, -, -, -, hpend⟩ := Lexer.exists_advance hr
    have hread : (Lexer.atStep ts source (k + 1)).readSoFar =
        (Lexer.atStep ts source k).readSoFar ++ ls := Lexer.readSoFar_eq_append hpend
    have hpre : (Lexer.atStep ts source (k + 1)).readSoFar <+: lexemes ts source :=
      Lexer.readSoFar_isPrefix_lexemes (k + 1)
    rw [hread] at hlt hpre
    rw [h] at hpre
    obtain ⟨us, vs, more, hls, hbefore, hafter⟩ := append_prefix_cases hpre hle hlt
    exact ⟨c, cs, us, vs, more, rfl, by rw [hadv, hls], hbefore, hafter⟩

/-- The tokens make up the source. -/
theorem textOf_lexemes (ts : Tables) (source : String) :
    textOf (lexemes ts source) = source.toList := by
  obtain ⟨ls, frames, hrun, htok, -⟩ := exists_reads_source ts source
  rw [lexemes, htok, map_lexeme_place, hrun.text_eq, List.append_nil]

/-- The input of a step is what is behind the tokens read before it. -/
theorem rest_eq_of_lexemes {us : List Lexeme} {k : Nat}
    (h : lexemes ts source = before ++ l :: after)
    (hbefore : before = (Lexer.atStep ts source k).readSoFar ++ us) :
    (Lexer.atStep ts source k).rest = textOf us ++ (l.text ++ textOf after) := by
  have hsource := Lexer.toList_eq_textOf_readSoFar ts source k
  rw [← textOf_lexemes ts source, h, hbefore, List.append_assoc, textOf_append, textOf_append,
    textOf_cons] at hsource
  exact (List.append_cancel_left hsource).symm

/-- Every token is read by a step. -/
theorem exists_step_of_lexemes (h : lexemes ts source = before ++ l :: after) :
    ∃ k, (Lexer.atStep ts source k).readSoFar.length ≤ before.length ∧
      before.length < (Lexer.atStep ts source (k + 1)).readSoFar.length := by
  obtain ⟨n, -, htok, -⟩ := Lexer.exists_rest_atStep_eq_nil ts source
  have hn : before.length < (Lexer.atStep ts source n).readSoFar.length := by
    rw [Lexer.readSoFar, ← htok, ← lexemes, h, List.length_append, List.length_cons]
    omega
  clear htok
  induction n with
  | zero => simp [Lexer.readSoFar, Lexer.ofSource] at hn
  | succ n ih =>
    rcases Nat.lt_or_ge before.length (Lexer.atStep ts source n).readSoFar.length with hlt | hle
    · exact ih hlt
    · exact ⟨n, hle, hn⟩

end

end UnitLexer
