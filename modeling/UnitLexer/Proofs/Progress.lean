/-
UnitLexer.Proofs.Progress — every step reads something, and a source is read to its end.

A mode that hands the input back reads nothing, so a step could in principle
leave one mode after the other, or find itself in the root with an answer that
takes nothing. Neither happens in a run. A mode that does not hand the input
back answers with one to three lexemes, and no mode that spans lines hands it
back (`Mode.few_of_step?`): the root and the groups have an answer that takes
something or none. The shapes of the open modes (`OpenFrames`) then leave
room for two such modes at most, an exponent in an expression outside every
group. `Lexer.Progresses` says all that a step does.
-/
import UnitLexer.Proofs.LineEnds
import UnitLexer.Proofs.Steps

namespace UnitLexer

open Rule

/-! ## §1 How much a mode reads -/

/-- The step has one, two or three lexemes. -/
def Step.Few (s : Step) : Prop :=
  1 ≤ s.lexemes.length ∧ s.lexemes.length ≤ 3

namespace Mode

variable {m : Mode} {ts : Tables} {cs : List Char} {s : Step}

/-- A mode reads something, or it hands the input back and is none that spans
lines. -/
theorem few_of_step? (h : m.step? ts cs = some s) :
    (s = .handBack ∧ m.spansLines = false) ∨ s.Few := by
  cases answers_of_step? h with
  | one | declaration | call | spacedCall => exact .inr (by simp [Step.Few, Step.one])
  | handBack hm => exact .inl ⟨rfl, hm⟩

/-- A step that takes nothing hands the input back. -/
theorem eq_handBack_of_text_eq_nil (h : m.step? ts cs = some s) (hnil : s.text = []) :
    s = .handBack ∧ m.spansLines = false := by
  refine (few_of_step? h).resolve_right fun hfew => ?_
  have hlexemes : s.lexemes = [] := by
    cases hls : s.lexemes with
    | nil => rfl
    | cons l ls =>
      have hl : l.text ≠ [] := (takes_of_step? h).ne_nil l (by simp [hls])
      rw [Step.text, hls, textOf_cons, List.append_eq_nil_iff] at hnil
      exact absurd hnil.1 hl
  rw [Step.Few, hlexemes, List.length_nil] at hfew
  omega

/-- Where a mode spans lines its steps take something. -/
theorem text_ne_nil_of_spansLines (h : m.step? ts cs = some s) (hm : m.spansLines = true) :
    s.text ≠ [] := by
  intro hnil
  rw [(eq_handBack_of_text_eq_nil h hnil).2] at hm
  contradiction

end Mode

/-! ## §2 How many modes a step leaves -/

section

variable {ts : Tables} {cs : List Char} {frames left : List Mode}

/-- The modes that settling leaves are the innermost ones, and each of them hands
the input back. -/
theorem exists_left_of_settle (ts : Tables) (cs : List Char) (frames : List Mode) :
    ∃ left, frames = left ++ settle ts cs frames ∧
      ∀ m ∈ left, m.spansLines = false ∧ m.step? ts cs = some .handBack := by
  induction frames with
  | nil => exact ⟨[], rfl, by simp⟩
  | cons m below ih =>
    by_cases hback : ∃ s, m.step? ts cs = some s ∧ s.text = []
    · obtain ⟨s, hs, hnil⟩ := hback
      obtain ⟨rfl, hm⟩ := Mode.eq_handBack_of_text_eq_nil hs hnil
      obtain ⟨left, hleft, hall⟩ := ih
      have hset : settle ts cs (m :: below) = settle ts cs below := by simp [settle, hs]
      refine ⟨m :: left, by rw [hset, List.cons_append, ← hleft], ?_⟩
      intro m' hm'
      rcases List.mem_cons.mp hm' with rfl | hm'
      · exact ⟨hm, hs⟩
      · exact hall m' hm'
    · have hset : settle ts cs (m :: below) = m :: below := by
        unfold settle
        split
        · next s hs => exact if_neg fun hnil => hback ⟨s, hs, hnil⟩
        · rfl
      exact ⟨[], by rw [hset, List.nil_append], by simp⟩

/-- Of the modes of a unit expression at most the expression itself is left. -/
theorem length_le_one_of_unitFrames {n : Nat} {kept : List Mode} (h : unitFrames n = left ++ kept)
    (hleft : ∀ m ∈ left, m.spansLines = false) : left.length ≤ 1 := by
  cases left with
  | nil => simp
  | cons m left =>
    cases n with
    | zero =>
      have hlength := congrArg List.length h
      simp only [unitFrames_zero, List.length_cons, List.length_nil, List.cons_append,
        List.length_append] at hlength
      simp only [List.length_cons]
      omega
    | succ n =>
      rw [unitFrames_succ, List.cons_append, List.cons.injEq] at h
      have hgroup := hleft m List.mem_cons_self
      rw [← h.1] at hgroup
      contradiction

/-- At most two of the open modes can hand the input back one after the other. -/
theorem OpenFrames.length_left_le {kept : List Mode} (h : OpenFrames frames)
    (hframes : frames = left ++ kept) (hleft : ∀ m ∈ left, m.spansLines = false) :
    left.length ≤ 2 := by
  have hle : left.length ≤ frames.length := by rw [hframes, List.length_append]; omega
  cases h with
  | root | string | expectUnit | expectUnitAfterSpace =>
    exact Nat.le_trans hle (by simp)
  | unit n => exact Nat.le_succ_of_le (length_le_one_of_unitFrames hframes hleft)
  | exponent n =>
    cases left with
    | nil => simp
    | cons m left =>
      rw [List.cons_append, List.cons.injEq] at hframes
      have hinner := length_le_one_of_unitFrames hframes.2 fun m hm =>
        hleft m (List.mem_cons_of_mem _ hm)
      simp only [List.length_cons]
      omega

/-- The root has an answer that takes something, or no answer. -/
theorem text_ne_nil_of_settled {s : Step}
    (h : (currentMode (settle ts cs frames)).step? ts cs = some s) : s.text ≠ [] := by
  cases hset : settle ts cs frames with
  | cons m below =>
    rw [hset] at h
    exact text_ne_nil_of_settle hset h
  | nil =>
    rw [hset] at h
    exact Mode.text_ne_nil_of_spansLines h rfl

end

/-! ## §3 A step of the lexer -/

namespace Lexer

/-- The lexers that a source is driven to, by steps and by asking for tokens. -/
inductive Reached (ts : Tables) (source : String) : Lexer → Prop where
  | start : Reached ts source (ofSource ts source)
  | step {l : Lexer} (h : Reached ts source l) : Reached ts source l.step
  | next {l : Lexer} (h : Reached ts source l) : Reached ts source l.next.2

theorem Reached.exists_readsTo {ts : Tables} {source : String} {l : Lexer}
    (h : Reached ts source l) : ∃ ls, (ofSource ts source).ReadsTo ls l := by
  induction h with
  | start => exact ⟨[], .refl _⟩
  | @step l _ ih =>
    obtain ⟨ls, hls⟩ := ih
    obtain ⟨ms, hms, -⟩ := l.readsTo_step
    exact ⟨ls ++ ms, hls.trans hms⟩
  | @next l _ ih =>
    obtain ⟨ls, hls⟩ := ih
    obtain ⟨ms, hms, -⟩ := l.readsTo_next
    exact ⟨ls ++ ms, hls.trans hms⟩

/-- The next step gets on: what it leaves, what it reads and what it keeps. -/
structure Progresses (l : Lexer) : Prop where
  /-- At most two modes are left first, each because all it does is to hand the
  input back. -/
  leaves : ∃ left, l.state.frames = left ++ l.settledFrames ∧ left.length ≤ 2 ∧
    ∀ m ∈ left, m.step? l.tables l.rest = some .handBack
  /-- Then either the mode reached reads something, or none of its rules has an
  answer and one character is invalid. -/
  reads : (∃ s, (currentMode l.settledFrames).step? l.tables l.rest = some s ∧ s.text ≠ [] ∧
      l.step.pending = l.pending ++ place l.state.pos s.lexemes) ∨
    (∀ r ∈ (currentMode l.settledFrames).rules, r l.tables l.rest = none) ∧
      ∃ c, l.rest.head? = some c ∧
        l.step.pending = l.pending ++ place l.state.pos [invalidLexeme c]
  /-- One to three tokens are kept. -/
  keeps : ∃ tokens, l.step.pending = l.pending ++ tokens ∧ 1 ≤ tokens.length ∧
    tokens.length ≤ 3
  /-- At least one character has been read, and the offset counts its bytes. -/
  consumes : ∃ text, text ≠ [] ∧ l.rest = text ++ l.step.rest ∧
    l.step.state.pos = l.state.pos + byteLength text

theorem progresses_of_openFrames {l : Lexer} (hframes : OpenFrames l.state.frames)
    (hrest : l.rest ≠ []) : l.Progresses := by
  obtain ⟨c, cs, hr⟩ := List.exists_cons_of_ne_nil hrest
  obtain ⟨left, hleft, hback⟩ := exists_left_of_settle l.tables l.rest l.state.frames
  have hoptions := advance_cases l.tables c cs l.state.frames
  have hread := textOf_advance_ne_nil l.tables c cs l.state.frames
  obtain ⟨tail, htail⟩ := (takes_advance l.tables c cs l.state.frames).1
  cases hadv : advance l.tables c cs l.state.frames with
  | mk ls mid =>
    rw [hadv] at hoptions hread htail
    rw [← hr] at hoptions
    have hstep := step_eq hr hadv htail.symm
    have hkept : l.step.pending = l.pending ++ place l.state.pos ls := by rw [hstep]
    refine ⟨⟨left, hleft, hframes.length_left_le hleft fun m hm => (hback m hm).1,
      fun m hm => (hback m hm).2⟩, ?_, ⟨_, hkept, ?_⟩, ⟨_, hread, ?_, by rw [hstep]⟩⟩
    · rcases hoptions with ⟨s, hs, hne, heq⟩ | ⟨hnone, heq⟩
      · obtain ⟨rfl, -⟩ := Prod.mk.inj heq
        exact .inl ⟨s, hs, hne, hkept⟩
      · obtain ⟨rfl, -⟩ := Prod.mk.inj heq
        refine .inr ⟨?_, c, by rw [hr]; rfl, hkept⟩
        -- An answer of the settled mode would take something.
        refine List.findSome?_eq_none_iff.mp (Option.eq_none_iff_forall_ne_some.mpr fun s hs => ?_)
        exact text_ne_nil_of_settled hs (hnone s hs)
    · rw [length_place]
      rcases hoptions with ⟨s, hs, hne, heq⟩ | ⟨-, heq⟩
      · obtain ⟨rfl, -⟩ := Prod.mk.inj heq
        refine (Mode.few_of_step? hs).resolve_left fun ⟨hhand, _⟩ => hne ?_
        rw [hhand, Step.text_handBack]
      · obtain ⟨rfl, -⟩ := Prod.mk.inj heq
        simp
    · rw [hstep, hr, htail]

/-- Where nothing is left to read the offset is that of the end. -/
theorem ReadsTo.pos_eq_of_rest {ts : Tables} {source : String} {l : Lexer} {ls : List Lexeme}
    (h : (ofSource ts source).ReadsTo ls l) (hrest : l.rest = []) :
    l.state.pos = source.utf8ByteSize := by
  have htext : source.toList = textOf ls ++ l.rest := h.reads.text_eq
  have hpos : l.state.pos = byteLength (textOf ls) := h.pos_eq.trans (Nat.zero_add _)
  rw [hrest, List.append_nil] at htext
  rw [hpos, ← htext, byteLength_toList]

theorem Reached.progresses {ts : Tables} {source : String} {l : Lexer} (h : Reached ts source l)
    (hpos : l.state.pos < source.utf8ByteSize) : l.Progresses := by
  obtain ⟨ls, hls⟩ := h.exists_readsTo
  refine progresses_of_openFrames (hls.reads.openFrames .root) fun hrest => ?_
  rw [hls.pos_eq_of_rest hrest] at hpos
  exact Nat.lt_irrefl _ hpos

/-! ## §4 The end of a source -/

section

variable (ts : Tables) (source : String)

/-- A step for each character is enough. -/
theorem length_rest_atStep_le (k : Nat) :
    (atStep ts source k).rest.length ≤ source.length - k := by
  induction k with
  | zero => simp [ofSource, String.length_toList]
  | succ k ih =>
    cases hr : (atStep ts source k).rest with
    | nil => simp [atStep_succ_of_rest_eq_nil hr, hr]
    | cons c cs =>
      have hprogress : (atStep ts source k).Progresses :=
        progresses_of_openFrames (openFrames_atStep k) (by simp [hr])
      obtain ⟨text, hne, htext, -⟩ := hprogress.consumes
      have hlength := congrArg List.length htext
      rw [← atStep_succ, List.length_append] at hlength
      have hpos := List.length_pos_iff.mpr hne
      omega

theorem pos_atStep_length : (atStep ts source source.length).state.pos = source.utf8ByteSize := by
  obtain ⟨ls, hls⟩ := (ofSource ts source).readsTo_iterate_step source.length
  refine hls.pos_eq_of_rest (List.length_eq_zero_iff.mp ?_)
  have hle := length_rest_atStep_le ts source source.length
  rw [atStep] at hle
  omega

@[simp] theorem remaining_ofSource : (ofSource ts source).remaining = source.length := by
  simp [remaining, ofSource, String.length_toList]

theorem length_calls (k : Nat) (l : Lexer) : (l.calls k).1.length = k := by
  induction k generalizing l with
  | zero => rfl
  | succ k ih => simp [calls, ih]

/-- More calls than there are characters yield all the tokens, and then nothing. -/
theorem filterMap_calls_eq_tokenize {k : Nat} (hk : source.length < k) :
    none ∈ ((ofSource ts source).calls k).1 ∧
      ((ofSource ts source).calls k).1.filterMap id = tokenize ts source := by
  have hnone : none ∈ ((ofSource ts source).calls k).1 := by
    by_contra hnone
    have hle := le_remaining_of_none_notMem_calls hnone
    rw [remaining_ofSource] at hle
    omega
  refine ⟨hnone, ?_⟩
  obtain ⟨ls, hls, htok⟩ := (ofSource ts source).readsTo_calls k
  obtain ⟨hrest, hpending⟩ := end_of_none_mem_calls hnone
  have hrun := hls.reads
  rw [hrest] at hrun
  rw [hpending, List.append_nil] at htok
  exact htok.trans (tokenize_eq_of_reads hrun).symm

theorem length_tokenize_le : (tokenize ts source).length ≤ source.length := by
  have htokens : tokenize ts source = _ := congrArg Prod.fst (take_eq_calls _ (ofSource ts source))
  have hle := List.length_filterMap_le id ((ofSource ts source).calls source.length).1
  rw [length_calls] at hle
  rwa [htokens, remaining_ofSource]

end

end Lexer

/-- Wherever a source has been driven to, a step that has something left to read
gets on. So no source takes more steps than it has characters, none has more
tokens, and whoever asks for one token more has had them all and is answered
with nothing. -/
theorem every_step_progresses (ts : Tables) (source : String) :
    (∀ l, Lexer.Reached ts source l → l.state.pos < source.utf8ByteSize → l.Progresses) ∧
    (Lexer.atStep ts source source.length).state.pos = source.utf8ByteSize ∧
    (tokenize ts source).length ≤ source.length ∧
    ∀ k, source.length < k → none ∈ ((Lexer.ofSource ts source).calls k).1 ∧
      ((Lexer.ofSource ts source).calls k).1.filterMap id = tokenize ts source :=
  ⟨fun _ hl hpos => hl.progresses hpos, Lexer.pos_atStep_length ts source,
    Lexer.length_tokenize_le ts source, fun _ hk => Lexer.filterMap_calls_eq_tokenize ts source hk⟩

end UnitLexer
