/-
UnitLexer.Proofs.Run — what a run of the lexer reads.

`Reads` follows the steps of a run without places or a buffer: from some open
modes, the start of an input is read as some lexemes, and other modes are open
then. The rest of the input stays in the judgment, since rules look ahead:
`Reads.append` joins two runs only where the first was made with the input of
the second behind it.

Every way to drive a lexer is such a run (`readsTo_iterate_step`,
`readsTo_calls`, `readsTo_drain`), and what it yields are the lexemes put in
their places. So a fact about the tokens of a source is proved about the one
judgment, and `tokenize_eq_of_reads` turns it into a fact about the tokens.
-/
import Mathlib.Logic.Function.Iterate
import UnitLexer.Lexer

namespace UnitLexer

/-! ## §1 Texts and places of several lexemes -/

@[simp] theorem textOf_nil : textOf [] = [] := rfl

@[simp] theorem textOf_cons (l : Lexeme) (ls : List Lexeme) :
    textOf (l :: ls) = l.text ++ textOf ls := rfl

@[simp] theorem textOf_append (ls ms : List Lexeme) :
    textOf (ls ++ ms) = textOf ls ++ textOf ms := by
  simp [textOf]

@[simp] theorem place_nil (start : Nat) : place start [] = [] := rfl

/-- What is placed behind lexemes starts where their text ends. -/
theorem place_append (start : Nat) (ls ms : List Lexeme) :
    place start (ls ++ ms) = place start ls ++ place (start + byteLength (textOf ls)) ms := by
  induction ls generalizing start with
  | nil => simp
  | cons l ls ih => simp [place, ih, Nat.add_assoc]

/-! ## §2 One step -/

/-- Modes whose innermost one takes something are left as they are. -/
theorem settle_eq_self {ts : Tables} {cs : List Char} {frames : List Mode} {s : Step}
    (h : (currentMode frames).step? ts cs = some s) (hne : s.text ≠ []) :
    settle ts cs frames = frames := by
  cases frames with
  | nil => rfl
  | cons m below =>
    have hm : m.step? ts cs = some s := h
    simp [settle, hm, hne]

/-- A property that survives the leaving of a mode which hands the input back
holds once all such modes have been left. -/
theorem settle_induction {ts : Tables} {cs : List Char} {P : List Mode → Prop}
    (leave : ∀ {m : Mode} {below : List Mode} {s : Step},
      m.step? ts cs = some s → s.text = [] → P (m :: below) → P below)
    {frames : List Mode} (h : P frames) : P (settle ts cs frames) := by
  induction frames with
  | nil => exact h
  | cons m below ih =>
    unfold settle
    split
    · next s hs =>
      split
      · next he => exact ih (leave hs he h)
      · exact h
    · exact h

/-- Settling only leaves modes. -/
theorem settle_isSuffix (ts : Tables) (cs : List Char) (frames : List Mode) :
    settle ts cs frames <:+ frames :=
  settle_induction (fun {m below _} _ _ h => (List.suffix_cons m below).trans h)
    (List.suffix_refl frames)

/-- The innermost mode is left or not, and if it is not nothing is. -/
theorem settle_cons (ts : Tables) (cs : List Char) (m : Mode) (below : List Mode) :
    settle ts cs (m :: below) = m :: below ∨ settle ts cs (m :: below) = settle ts cs below := by
  rw [settle]
  split
  · split
    · exact .inr rfl
    · exact .inl rfl
  · exact .inl rfl

/-- The mode in which the settled modes end does not hand the input back. -/
theorem text_ne_nil_of_settle {ts : Tables} {cs : List Char} {frames : List Mode} {m : Mode}
    {below : List Mode} {s : Step} (h : settle ts cs frames = m :: below)
    (hs : m.step? ts cs = some s) : s.text ≠ [] := by
  induction frames with
  | nil => simp [settle] at h
  | cons m' below' ih =>
    unfold settle at h
    split at h
    · next s' hs' =>
      split at h
      · exact ih h
      · next hne =>
        obtain ⟨rfl, -⟩ := List.cons.inj h
        rw [hs] at hs'
        rwa [Option.some.inj hs']
    · next hnone =>
      obtain ⟨rfl, -⟩ := List.cons.inj h
      rw [hs] at hnone
      contradiction

/-- The step of the lexer is what the settled modes answer, if they take something. -/
theorem advance_of_settle {ts : Tables} {c : Char} {cs : List Char} {frames : List Mode} {s : Step}
    (h : (currentMode (settle ts (c :: cs) frames)).step? ts (c :: cs) = some s)
    (hne : s.text ≠ []) :
    advance ts c cs frames = (s.lexemes, s.transition.apply (settle ts (c :: cs) frames)) := by
  simp only [advance, h, hne, if_false]

/-- A step of the innermost mode that takes something is the step of the lexer. -/
theorem advance_of_step? {ts : Tables} {c : Char} {cs : List Char} {frames : List Mode} {s : Step}
    (h : (currentMode frames).step? ts (c :: cs) = some s) (hne : s.text ≠ []) :
    advance ts c cs frames = (s.lexemes, s.transition.apply frames) := by
  have hset := settle_eq_self h hne
  rw [advance_of_settle (by rwa [hset]) hne, hset]

/-- A mode that hands the input back leaves it to the modes around it. -/
theorem advance_of_handBack {ts : Tables} {c : Char} {cs : List Char} {m : Mode}
    {below : List Mode} {s : Step} (h : m.step? ts (c :: cs) = some s) (he : s.text = []) :
    advance ts c cs (m :: below) = advance ts c cs below := by
  have hset : settle ts (c :: cs) (m :: below) = settle ts (c :: cs) below := by
    simp [settle, h, he]
  simp only [advance, hset]

/-- Without an answer of the innermost mode the character is invalid. -/
theorem advance_of_step?_eq_none {ts : Tables} {c : Char} {cs : List Char} {frames : List Mode}
    (h : (currentMode frames).step? ts (c :: cs) = none) :
    advance ts c cs frames = ([invalidLexeme c], frames) := by
  have hset : settle ts (c :: cs) frames = frames := by
    cases frames with
    | nil => rfl
    | cons m below =>
      have hm : m.step? ts (c :: cs) = none := h
      simp [settle, hm]
  simp only [advance, hset, h]

/-- All that a step can be: in the settled modes either the innermost one takes
something, or it takes nothing and the character is invalid. -/
theorem advance_cases (ts : Tables) (c : Char) (cs : List Char) (frames : List Mode) :
    (∃ s : Step, (currentMode (settle ts (c :: cs) frames)).step? ts (c :: cs) = some s ∧
      s.text ≠ [] ∧ advance ts c cs frames =
        (s.lexemes, s.transition.apply (settle ts (c :: cs) frames))) ∨
    ((∀ s, (currentMode (settle ts (c :: cs) frames)).step? ts (c :: cs) = some s → s.text = []) ∧
      advance ts c cs frames = ([invalidLexeme c], settle ts (c :: cs) frames)) := by
  cases hs : (currentMode (settle ts (c :: cs) frames)).step? ts (c :: cs) with
  | none => exact .inr ⟨by simp, by simp only [advance, hs]⟩
  | some s =>
    by_cases he : s.text = []
    · refine .inr ⟨fun s' h' => ?_, by simp only [advance, hs, he, if_true]⟩
      rwa [← Option.some.inj h']
    · exact .inl ⟨s, rfl, he, advance_of_settle hs he⟩

/-! ## §3 Runs -/

/-- From the modes `frames` on, the input is read as lexemes up to a rest of it,
and leaves other modes open. -/
inductive Reads (ts : Tables) :
    List Mode → List Char → List Lexeme → List Mode → List Char → Prop where
  /-- Nothing is read. -/
  | done {frames : List Mode} {cs : List Char} : Reads ts frames cs [] frames cs
  /-- One step is made, and then others. -/
  | step {frames mid frames' : List Mode} {c : Char} {cs tail rest : List Char}
      {ls more : List Lexeme} (adv : advance ts c cs frames = (ls, mid))
      (text : c :: cs = textOf ls ++ tail) (later : Reads ts mid tail more frames' rest) :
      Reads ts frames (c :: cs) (ls ++ more) frames' rest

namespace Reads

variable {ts : Tables} {frames mid frames' : List Mode} {cs tail rest : List Char}
  {ls ms : List Lexeme}

/-- A run goes on where another one stopped. -/
theorem append (h : Reads ts frames cs ls mid tail) (h' : Reads ts mid tail ms frames' rest) :
    Reads ts frames cs (ls ++ ms) frames' rest := by
  induction h with
  | done => exact h'
  | step adv text _ ih =>
    rw [List.append_assoc]
    exact .step adv text (ih h')

/-- The lexemes and the rest make up the input. -/
theorem text_eq (h : Reads ts frames cs ls frames' rest) : cs = textOf ls ++ rest := by
  induction h with
  | done => simp
  | step adv text _ ih => rw [text, ih, textOf_append, List.append_assoc]

/-- No lexeme is empty. -/
theorem ne_nil (h : Reads ts frames cs ls frames' rest) : ∀ l ∈ ls, l.text ≠ [] := by
  induction h with
  | done => simp
  | @step frames _ _ c cs _ _ _ _ adv _ _ ih =>
    have hne := (takes_advance ts c cs frames).2
    rw [adv] at hne
    intro l hl
    rcases List.mem_append.mp hl with hl | hl
    · exact hne l hl
    · exact ih l hl

/-- What holds of the open modes and is kept by every step holds after a run. -/
theorem invariant {P : List Mode → Prop}
    (step : ∀ {c : Char} {cs : List Char} {frames : List Mode},
      P frames → P (advance ts c cs frames).2)
    (h : Reads ts frames cs ls frames' rest) (hP : P frames) : P frames' := by
  induction h with
  | done => exact hP
  | @step frames _ _ c cs _ _ _ _ adv _ _ ih =>
    have hmid : P (advance ts c cs frames).2 := step hP
    rw [adv] at hmid
    exact ih hmid

/-- A step of the innermost mode is a run. -/
theorem of_step? {s : Step} (h : (currentMode frames).step? ts cs = some s)
    (htext : cs = s.text ++ rest) (hne : s.text ≠ []) :
    Reads ts frames cs s.lexemes (s.transition.apply frames) rest := by
  cases cs with
  | nil => exact absurd (List.append_eq_nil_iff.mp htext.symm).1 hne
  | cons c cs =>
    have hrun := Reads.step (advance_of_step? h hne) htext .done
    rwa [List.append_nil] at hrun

/-- Where the first step is the same the whole run is. -/
theorem of_advance_eq {start : List Mode} {c : Char}
    (h : Reads ts frames (c :: cs) ls frames' [])
    (adv : advance ts c cs start = advance ts c cs frames) :
    Reads ts start (c :: cs) ls frames' [] := by
  cases h with
  | step adv' text later => exact .step (adv.trans adv') text later

/-- Two runs to the end of an input are the same. -/
theorem unique {gs : List Mode} (h : Reads ts frames cs ls frames' [])
    (h' : Reads ts frames cs ms gs []) : ls = ms ∧ frames' = gs := by
  generalize hend : ([] : List Char) = rest at h
  induction h generalizing ms with
  | done =>
    subst hend
    cases h'
    exact ⟨rfl, rfl⟩
  | step adv text _ ih =>
    cases h' with
    | step adv' text' later' =>
      rw [adv, Prod.mk.injEq] at adv'
      obtain ⟨rfl, rfl⟩ := adv'
      rw [text] at text'
      obtain rfl := List.append_cancel_left text'
      obtain ⟨rfl, rfl⟩ := ih later' hend
      exact ⟨rfl, rfl⟩

end Reads

/-! ## §4 Driving a lexer -/

namespace Lexer

/-- The second lexer is the first one after it has read some lexemes. -/
structure ReadsTo (l : Lexer) (ls : List Lexeme) (l' : Lexer) : Prop where
  tables_eq : l'.tables = l.tables
  reads : Reads l.tables l.state.frames l.rest ls l'.state.frames l'.rest
  pos_eq : l'.state.pos = l.state.pos + byteLength (textOf ls)

namespace ReadsTo

theorem refl (l : Lexer) : l.ReadsTo [] l :=
  ⟨rfl, .done, by simp⟩

theorem trans {l l' l'' : Lexer} {ls ms : List Lexeme} (h : l.ReadsTo ls l')
    (h' : l'.ReadsTo ms l'') : l.ReadsTo (ls ++ ms) l'' where
  tables_eq := h'.tables_eq.trans h.tables_eq
  reads := h.reads.append (h.tables_eq ▸ h'.reads)
  pos_eq := by rw [h'.pos_eq, h.pos_eq, textOf_append, byteLength_append, Nat.add_assoc]

end ReadsTo

/-- What a step changes, in terms of the lexemes at the start of the input. -/
theorem step_eq {l : Lexer} {c : Char} {cs tail : List Char} {ls : List Lexeme} {mid : List Mode}
    (hr : l.rest = c :: cs) (adv : advance l.tables c cs l.state.frames = (ls, mid))
    (text : c :: cs = textOf ls ++ tail) :
    l.step = { l with
      rest := tail
      state := ⟨l.state.pos + byteLength (textOf ls), mid⟩
      pending := l.pending ++ place l.state.pos ls } := by
  have hdrop : (c :: cs).drop (textOf ls).length = tail := by rw [text, List.drop_left]
  simp only [step, hr, adv, hdrop]

/-- A step puts what it reads behind the tokens that are kept. -/
theorem readsTo_step (l : Lexer) :
    ∃ ls, l.ReadsTo ls l.step ∧ l.step.pending = l.pending ++ place l.state.pos ls := by
  cases hr : l.rest with
  | nil =>
    rw [step_of_rest_eq_nil hr]
    exact ⟨[], .refl l, by simp⟩
  | cons c cs =>
    cases hadv : advance l.tables c cs l.state.frames with
    | mk ls mid =>
      obtain ⟨tail, htail⟩ := (takes_advance l.tables c cs l.state.frames).1
      rw [hadv] at htail
      have hrun := Reads.step hadv htail.symm .done
      rw [List.append_nil, ← hr] at hrun
      rw [step_eq hr hadv htail.symm]
      exact ⟨ls, ⟨rfl, hrun, rfl⟩, rfl⟩

theorem readsTo_iterate_step (k : Nat) (l : Lexer) :
    ∃ ls, l.ReadsTo ls (step^[k] l) := by
  induction k generalizing l with
  | zero => exact ⟨[], .refl l⟩
  | succ k ih =>
    obtain ⟨ls, hls, -⟩ := readsTo_step l
    obtain ⟨ms, hms⟩ := ih l.step
    exact ⟨ls ++ ms, hls.trans hms⟩

/-- A run from the state of a lexer is made by some number of its steps, and what
it reads is kept. -/
theorem exists_iterate_step {l : Lexer} {ls : List Lexeme} {frames : List Mode} {rest : List Char}
    (h : Reads l.tables l.state.frames l.rest ls frames rest) :
    ∃ k, (step^[k] l).state.frames = frames ∧ (step^[k] l).rest = rest ∧
      (step^[k] l).pending = l.pending ++ place l.state.pos ls := by
  generalize hts : l.tables = ts at h
  generalize hfs : l.state.frames = start at h
  generalize hcs : l.rest = cs at h
  induction h generalizing l with
  | done => exact ⟨0, hfs, hcs, by simp⟩
  | step adv text _ ih =>
    subst hts hfs
    have hstep := step_eq hcs adv text
    obtain ⟨k, hf, hr, hp⟩ := ih (l := l.step) (by rw [hstep]) (by rw [hstep]) (by rw [hstep])
    refine ⟨k + 1, hf, hr, hp.trans ?_⟩
    rw [hstep, place_append, List.append_assoc]

/-- The first of the tokens that are kept, and the lexer without it. -/
def pop (l : Lexer) : Option Token × Lexer :=
  (l.pending.head?, { l with pending := l.pending.tail })

theorem next_of_pending {l : Lexer} (h : l.pending ≠ []) : l.next = l.pop := by
  obtain ⟨t, ts, hp⟩ := List.exists_cons_of_ne_nil h
  simp [next, pop, hp]

theorem next_of_none_pending {l : Lexer} (h : l.pending = []) : l.next = l.step.pop := by
  cases hp : l.step.pending with
  | nil =>
    have hsame : { l.step with pending := l.step.pending } = l.step := rfl
    rw [hp] at hsame
    simp [next, pop, h, hp, hsame]
  | cons t ts => simp [next, pop, h, hp]

theorem toList_append_pop (l : Lexer) : l.pop.1.toList ++ l.pop.2.pending = l.pending := by
  cases hp : l.pending <;> simp [pop, hp]

/-- A call of `next` yields the first of the tokens that are kept or read by it,
and keeps the others. -/
theorem readsTo_next (l : Lexer) :
    ∃ ls, l.ReadsTo ls l.next.2 ∧
      l.next.1.toList ++ l.next.2.pending = l.pending ++ place l.state.pos ls := by
  by_cases hp : l.pending = []
  · obtain ⟨ls, hls, hpend⟩ := readsTo_step l
    rw [next_of_none_pending hp]
    exact ⟨ls, ⟨hls.tables_eq, hls.reads, hls.pos_eq⟩, (toList_append_pop l.step).trans hpend⟩
  · rw [next_of_pending hp]
    exact ⟨[], ⟨rfl, .done, by simp [pop]⟩, by rw [toList_append_pop, place_nil, List.append_nil]⟩

/-- The answers to a number of calls, in order, and the stream after them. -/
def calls : Nat → Lexer → List (Option Token) × Lexer
  | 0, l => ([], l)
  | k + 1, l => (l.next.1 :: (calls k l.next.2).1, (calls k l.next.2).2)

/-- What the calls have yielded and what is kept are what has been read. -/
theorem readsTo_calls (k : Nat) (l : Lexer) :
    ∃ ls, l.ReadsTo ls (l.calls k).2 ∧
      (l.calls k).1.filterMap id ++ (l.calls k).2.pending = l.pending ++ place l.state.pos ls := by
  induction k generalizing l with
  | zero => exact ⟨[], .refl l, by simp [calls]⟩
  | succ k ih =>
    obtain ⟨ls, hls, htok⟩ := readsTo_next l
    obtain ⟨ms, hms, htok'⟩ := ih l.next.2
    refine ⟨ls ++ ms, hls.trans hms, ?_⟩
    have hhead : (l.calls (k + 1)).1.filterMap id =
        l.next.1.toList ++ (l.next.2.calls k).1.filterMap id := by
      cases h : l.next.1 <;> simp [calls, h]
    calc (l.calls (k + 1)).1.filterMap id ++ (l.calls (k + 1)).2.pending
        = l.next.1.toList ++
            ((l.next.2.calls k).1.filterMap id ++ (l.next.2.calls k).2.pending) := by
          rw [hhead, List.append_assoc, calls]
      _ = l.next.1.toList ++ l.next.2.pending ++ place l.next.2.state.pos ms := by
          rw [htok', List.append_assoc]
      _ = l.pending ++ place l.state.pos (ls ++ ms) := by
          rw [htok, hls.pos_eq, place_append, List.append_assoc]

/-- At its end a lexer answers every call with nothing and does not change. -/
theorem calls_of_end {l : Lexer} (hr : l.rest = []) (hp : l.pending = []) (k : Nat) :
    l.calls k = (List.replicate k none, l) := by
  have hnext : l.next = (none, l) := by simp [next, step_of_rest_eq_nil hr, hp]
  induction k with
  | zero => rfl
  | succ k ih => simp [calls, hnext, ih, List.replicate_succ]

/-- Once a call has been answered with nothing, nothing is left. -/
theorem end_of_none_mem_calls {k : Nat} {l : Lexer} (h : none ∈ (l.calls k).1) :
    (l.calls k).2.rest = [] ∧ (l.calls k).2.pending = [] := by
  induction k generalizing l with
  | zero => simp [calls] at h
  | succ k ih =>
    rcases List.mem_cons.mp h with hnone | h
    · obtain ⟨hl, hr, hp⟩ := next_eq_none (Prod.ext hnone.symm rfl : l.next = (none, l.next.2))
      rw [calls, hl, calls_of_end hr hp]
      exact ⟨hr, hp⟩
    · exact ih h

/-- There are no more tokens than can come. -/
theorem le_remaining_of_none_notMem_calls {k : Nat} {l : Lexer} (h : none ∉ (l.calls k).1) :
    k ≤ l.remaining := by
  induction k generalizing l with
  | zero => exact Nat.zero_le _
  | succ k ih =>
    simp only [calls, List.mem_cons, not_or] at h
    obtain ⟨t, ht⟩ := Option.ne_none_iff_exists'.mp (Ne.symm h.1)
    have hlt := remaining_next_lt (Prod.ext ht rfl : l.next = (some t, l.next.2))
    exact Nat.lt_of_le_of_lt (ih h.2) hlt

/-- Taking tokens is calling for them until none comes. -/
theorem take_eq_calls (n : Nat) (l : Lexer) :
    l.take n = ((l.calls n).1.filterMap id, (l.calls n).2) := by
  induction n generalizing l with
  | zero => rfl
  | succ n ih =>
    rw [take_succ]
    split
    · next l' hn =>
      obtain ⟨rfl, hr, hp⟩ := next_eq_none hn
      simp [calls_of_end hr hp]
    · next t l' hn => simp [calls, hn, ih]

/-- Draining a lexer reads all that is left. -/
theorem readsTo_drain (l : Lexer) :
    ∃ ls, l.ReadsTo ls l.drain.2 ∧ l.drain.1 = l.pending ++ place l.state.pos ls ∧
      l.drain.2.rest = [] := by
  have hend := remaining_drain l
  simp only [remaining, Nat.add_eq_zero_iff, List.length_eq_zero_iff] at hend
  obtain ⟨ls, hls, htok⟩ := readsTo_calls l.remaining l
  have hdrain : l.drain = _ := take_eq_calls l.remaining l
  rw [hdrain] at hend ⊢
  rw [hend.2, List.append_nil] at htok
  exact ⟨ls, hls, htok, hend.1⟩

end Lexer

/-! ## §5 Whole sources -/

/-- The open modes when a source has been read to its end, the root first. -/
def finalModes (ts : Tables) (source : String) : List Mode :=
  (Lexer.ofSource ts source).drain.2.state.modes

/-- A source is read as its tokens. -/
theorem exists_reads_source (ts : Tables) (source : String) :
    ∃ ls frames, Reads ts [] source.toList ls frames [] ∧ tokenize ts source = place 0 ls ∧
      finalModes ts source = .root :: frames.reverse := by
  obtain ⟨ls, hls, htok, hrest⟩ := Lexer.readsTo_drain (Lexer.ofSource ts source)
  have hrun := hls.reads
  rw [hrest] at hrun
  exact ⟨ls, _, hrun, htok, rfl⟩

section

variable {ts : Tables} {source : String} {ls : List Lexeme} {frames : List Mode}

/-- The tokens of a source are the lexemes of a run to its end. -/
theorem tokenize_eq_of_reads (h : Reads ts [] source.toList ls frames []) :
    tokenize ts source = place 0 ls := by
  obtain ⟨ls', frames', h', htok, -⟩ := exists_reads_source ts source
  rw [htok, (h.unique h').1]

/-- The modes open at the end of a source are those a run to its end leaves. -/
theorem finalModes_eq_of_reads (h : Reads ts [] source.toList ls frames []) :
    finalModes ts source = .root :: frames.reverse := by
  obtain ⟨ls', frames', h', -, hfin⟩ := exists_reads_source ts source
  rw [hfin, (h.unique h').2]

end

end UnitLexer
