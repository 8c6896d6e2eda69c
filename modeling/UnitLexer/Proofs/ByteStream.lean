/-
UnitLexer.Proofs.ByteStream — reading bytes and reading characters is the same.

A stream over bytes mirrors a lexer over characters if both have read the same
part of the source, with the same modes open and the same tokens kept
(`Stream.Mirrors`). A call of either keeps that: the one of the stream is not
refused, its answer is that of the lexer, and again the two mirror each other
(`Stream.Mirrors.next`). So a whole run over bytes is one over characters, call
by call (`calls_eq_ok`), and what is shown of the tokens of a source by its
characters holds of the bytes that are read.
-/
import UnitLexer.Bytes.Stream
import UnitLexer.Proofs.ByteScan
import UnitLexer.Proofs.Run

namespace UnitLexer.Bytes

/-! ## §1 Cutting tokens -/

/-- Pieces measured off lexemes are cut out as these. -/
theorem cutTokens_eq {source : String} {before rest : List Char} {ls : List Lexeme}
    (h : source.toList = before ++ textOf ls ++ rest) :
    cutTokens source (byteLength before) (ls.map Lexeme.measured) =
      .ok (place (byteLength before) ls) := by
  induction ls generalizing before with
  | nil => rfl
  | cons l ls ih =>
    rw [textOf_cons, ← List.append_assoc] at h
    have hcut := cut_between (h.trans (List.append_assoc ..))
    have hrest := ih h
    rw [byteLength_append] at hrest
    simp only [List.map_cons, cutTokens, Lexeme.measured, hcut, ok_bind, hrest, pure_eq_ok, place]

theorem length_measured (s : Step) : s.measured.length = byteLength s.text := by
  unfold Step.text
  rw [Step.measured, Scanned.length]
  induction s.lexemes with
  | nil => rfl
  | cons l ls ih =>
    rw [textOf_cons, byteLength_append, List.map_cons, List.foldr_cons, ih]
    rfl

/-! ## §2 One step -/

section

variable {ts : Tables} {d : Char} {cs : List Char} {frames : List Mode}

/-- What the two steps read, in tokens and the state after them. -/
def placed (before : List Char) (read : List Lexeme × List Mode) : List Token × State :=
  (place (byteLength before) read.1, ⟨byteLength before + byteLength (textOf read.1), read.2⟩)

theorem takeStep_eq {source : String} {before rest : List Char} {s : Step}
    (h : source.toList = before ++ s.text ++ rest) :
    takeStep source (byteLength before) frames s.measured =
      .ok (placed before (s.lexemes, s.transition.apply frames)) := by
  rw [takeStep, length_measured, Step.measured, cutTokens_eq h]
  rfl

theorem takeInvalid_eq {c : Cursor} {before : List Char} (h : c.At before (d :: cs)) :
    takeInvalid c frames = .ok (placed before ([invalidLexeme d], frames)) := by
  have hlength : c.advanceChar.pos - c.pos = byteLength [d] := by
    rw [h.advanceChar_eq, Cursor.pos_advance, Nat.add_sub_cancel_left]
  have hstep : Scanned.one .invalid (byteLength [d]) .stay =
      (Step.one .invalid [d] .stay).measured := rfl
  have hsource : c.source.toList = before ++ (Step.one .invalid [d] .stay).text ++ cs := by
    rw [Step.text_one, h.source_eq, List.append_assoc, List.singleton_append]
  rw [takeInvalid, hlength, hstep, h.pos_eq]
  exact takeStep_eq hsource

/-- A step over bytes reads what the step over characters does. -/
theorem readStep_eq {source : String} {before : List Char}
    (h : source.toList = before ++ d :: cs) : readStep ts source (byteLength before) frames =
      .ok (placed before (advance ts d cs frames)) := by
  have hat : Cursor.At ⟨source, byteLength before⟩ before (d :: cs) := .of_source h
  have htake : ∀ {m : Mode} {frames : List Mode} {s : Step}, m.step? ts (d :: cs) = some s →
      takeStep source (byteLength before) frames s.measured =
        .ok (placed before (s.lexemes, s.transition.apply frames)) := by
    intro m frames s hs
    obtain ⟨rest, hrest⟩ := (Mode.takes_of_step? hs).text_isPrefix
    have hsource : source.toList = before ++ s.text ++ rest := by
      rw [h, ← hrest, List.append_assoc]
    exact takeStep_eq hsource
  induction frames with
  | nil =>
    rw [readStep, Cursor.At.standAt_eq h, ok_bind, firstAnswer_eq ts _ hat, ok_bind]
    cases hs : Mode.root.step? ts (d :: cs) with
    | none =>
      have hread : advance ts d cs [] = ([invalidLexeme d], []) := advance_of_step?_eq_none hs
      rw [hread]
      exact takeInvalid_eq hat
    | some s =>
      simp only [Option.map_some, length_measured, byteLength_eq_zero]
      split
      · next he =>
        have hread : advance ts d cs [] = ([invalidLexeme d], []) := by
          simp [advance, settle, currentMode, hs, he]
        rw [hread]
        exact takeInvalid_eq hat
      · next hne =>
        have hread : advance ts d cs [] = (s.lexemes, s.transition.apply []) :=
          advance_of_step? hs hne
        rw [hread]
        exact htake hs
  | cons m below ih =>
    rw [readStep, Cursor.At.standAt_eq h, ok_bind, firstAnswer_eq ts _ hat, ok_bind]
    cases hs : m.step? ts (d :: cs) with
    | none =>
      have hread : advance ts d cs (m :: below) = ([invalidLexeme d], m :: below) :=
        advance_of_step?_eq_none hs
      rw [hread]
      exact takeInvalid_eq hat
    | some s =>
      simp only [Option.map_some, length_measured, byteLength_eq_zero]
      split
      · next he =>
        rw [advance_of_handBack hs he]
        exact ih
      · next hne =>
        have hread : advance ts d cs (m :: below) = (s.lexemes, s.transition.apply (m :: below)) :=
          advance_of_step? hs hne
        rw [hread]
        exact htake hs

end

/-! ## §3 Runs -/

namespace Stream

/-- Both have read the same, and keep the same. -/
structure Mirrors (b : Stream) (l : Lexer) : Prop where
  tables_eq : b.tables = l.tables
  state_eq : b.state = l.state
  pending_eq : b.pending = l.pending
  read : ∃ before, b.source.toList = before ++ l.rest ∧ l.state.pos = byteLength before

variable {b : Stream} {l : Lexer}

theorem mirrors_ofSource (ts : Tables) (source : String) :
    (ofSource ts source).Mirrors (Lexer.ofSource ts source) :=
  ⟨rfl, rfl, rfl, [], rfl, by simp [Lexer.ofSource]⟩

namespace Mirrors

/-- The stream is at its end where the lexer is. -/
theorem pos_lt_iff (h : b.Mirrors l) : b.state.pos < b.source.utf8ByteSize ↔ l.rest ≠ [] := by
  obtain ⟨before, hsource, hpos⟩ := h.read
  rw [← byteLength_toList, hsource, h.state_eq, hpos, byteLength_append, Ne, ← byteLength_eq_zero]
  omega

/-- Before the end a step is not refused. -/
theorem step (h : b.Mirrors l) (hrest : l.rest ≠ []) :
    ∃ b', b.step = .ok b' ∧ b'.Mirrors l.step := by
  obtain ⟨before, hsource, hpos⟩ := h.read
  obtain ⟨d, cs, hcs⟩ := List.exists_cons_of_ne_nil hrest
  rw [hcs] at hsource
  obtain ⟨rest, htext⟩ := (takes_advance l.tables d cs l.state.frames).1
  have hread : readStep b.tables b.source b.state.pos b.state.frames =
      .ok (placed before (advance l.tables d cs l.state.frames)) := by
    rw [h.tables_eq, h.state_eq, hpos]
    exact readStep_eq hsource
  refine ⟨_, by rw [Stream.step, hread]; rfl, ?_⟩
  rw [Lexer.step, hcs]
  refine ⟨h.tables_eq, by rw [hpos], by rw [hpos, h.pending_eq],
    before ++ textOf (advance l.tables d cs l.state.frames).1, ?_, by rw [hpos, byteLength_append]⟩
  dsimp only
  rw [hsource, ← htext, List.drop_left, List.append_assoc]

theorem pop (h : b.Mirrors l) : b.pop.1 = l.pop.1 ∧ b.pop.2.Mirrors l.pop.2 :=
  ⟨congrArg List.head? h.pending_eq, h.tables_eq, h.state_eq, congrArg List.tail h.pending_eq,
    h.read⟩

/-- A call is not refused, and both answer it alike. -/
theorem next (h : b.Mirrors l) :
    ∃ b', b.next = .ok (l.next.1, b') ∧ b'.Mirrors l.next.2 := by
  have hkept : ∀ {b : Stream} {l : Lexer}, b.Mirrors l →
      ∃ b', pure b.pop = Except.ok (ε := Refusal) (l.pop.1, b') ∧ b'.Mirrors l.pop.2 :=
    fun h => ⟨_, congrArg Except.ok (Prod.ext h.pop.1 rfl), h.pop.2⟩
  rw [Stream.next]
  by_cases hp : l.pending = []
  · rw [Lexer.next_of_none_pending hp]
    by_cases hr : l.rest = []
    · rw [if_neg (by simp [h.pos_lt_iff, hr]), Lexer.step_of_rest_eq_nil hr]
      exact hkept h
    · obtain ⟨b', hstep, hmirrors⟩ := h.step hr
      rw [if_pos ⟨h.pending_eq.trans hp, h.pos_lt_iff.mpr hr⟩, hstep]
      exact hkept hmirrors
  · rw [Lexer.next_of_pending hp, if_neg (by simp [h.pending_eq, hp])]
    exact hkept h

/-- No call of a run is refused. -/
theorem calls (h : b.Mirrors l) (k : Nat) :
    ∃ b', b.calls k = .ok ((l.calls k).1, b') ∧ b'.Mirrors (l.calls k).2 := by
  induction k generalizing b l with
  | zero => exact ⟨b, rfl, h⟩
  | succ k ih =>
    obtain ⟨b', hnext, hmirrors⟩ := h.next
    obtain ⟨b'', hcalls, hend⟩ := ih hmirrors
    refine ⟨b'', ?_, hend⟩
    rw [Stream.calls, hnext, ok_bind, hcalls]
    rfl

end Mirrors

end Stream

/-- A source is read to the same tokens, whether by bytes or by characters: call by
call the answers are the same, and so are the offset, the open modes and the
tokens that are kept. No cut is refused on the way. -/
theorem calls_eq_ok (ts : Tables) (source : String) (k : Nat) :
    ∃ b : Stream, (Stream.ofSource ts source).calls k =
        .ok (((Lexer.ofSource ts source).calls k).1, b) ∧
      b.state = ((Lexer.ofSource ts source).calls k).2.state ∧
      b.pending = ((Lexer.ofSource ts source).calls k).2.pending := by
  obtain ⟨b, hcalls, hmirrors⟩ := (Stream.mirrors_ofSource ts source).calls k
  exact ⟨b, hcalls, hmirrors.state_eq, hmirrors.pending_eq⟩

end UnitLexer.Bytes
