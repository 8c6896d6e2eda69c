/-
UnitLexer.Proofs.Strings — strings end on their line.

Two scanners meet at a quote: the root looks ahead to the end of the line for
what ends the string, and the string mode reads it piece by piece. What both
are measured by is the inside of a string (`StringBody`): plain characters and
escapes, on one line. A line ends a string if behind such an inside comes the
quote, or a backslash with nothing after it (`EndsOnLine`). The look-ahead
finds exactly that (`unclosedTail?_eq_none_iff`), and the string mode keeps it
true of what is left to read (`EndsOnLine.exists_step?`). So a string that has
been opened is read to its end, and the rule that would hand a line break back
to the root is never needed.
-/
import UnitLexer.Proofs.Lines
import UnitLexer.Proofs.Steps

namespace UnitLexer

open Rule

/-! ## §1 The inside of a string -/

/-- What can stand between the quotes of a string, on one line: characters with
no meaning of their own there, and escapes. -/
inductive StringBody (quote : Quote) : List Char → Prop where
  | nil : StringBody quote []
  | plain {c : Char} {cs : List Char} (hb : c ≠ '\\') (hq : c ≠ quote.char) (hn : c ≠ '\n')
      (more : StringBody quote cs) : StringBody quote (c :: cs)
  | escape {c : Char} {cs : List Char} (hn : c ≠ '\n') (more : StringBody quote cs) :
      StringBody quote ('\\' :: c :: cs)

/-- Nothing more stands on the line. -/
def AtLineEnd (cs : List Char) : Prop :=
  ∀ c, cs.head? = some c → c = '\n'

/-- Behind the inside of a string comes its closing quote. -/
def ClosesOnLine (quote : Quote) (cs : List Char) : Prop :=
  ∃ body rest, StringBody quote body ∧ cs = body ++ quote.char :: rest

/-- Behind the inside of a string comes a backslash that ends the line. -/
def DanglesOnLine (quote : Quote) (cs : List Char) : Prop :=
  ∃ body rest, StringBody quote body ∧ cs = body ++ '\\' :: rest ∧ AtLineEnd rest

/-- The line ends a string, in one way or the other. -/
def EndsOnLine (quote : Quote) (cs : List Char) : Prop :=
  ClosesOnLine quote cs ∨ DanglesOnLine quote cs

theorem Quote.char_ne (quote : Quote) : quote.char ≠ '\\' ∧ quote.char ≠ '\n' := by
  cases quote <;> decide

section

variable {quote : Quote} {c : Char} {cs rest : List Char}

theorem endsOnLine_quote : EndsOnLine quote (quote.char :: rest) :=
  .inl ⟨[], rest, .nil, rfl⟩

theorem endsOnLine_dangling (h : AtLineEnd rest) : EndsOnLine quote ('\\' :: rest) :=
  .inr ⟨[], rest, .nil, rfl, h⟩

/-- A plain character decides nothing. -/
theorem endsOnLine_plain (hb : c ≠ '\\') (hq : c ≠ quote.char) (hn : c ≠ '\n') :
    EndsOnLine quote (c :: cs) ↔ EndsOnLine quote cs := by
  constructor
  · rintro (⟨body, rest, hbody, h⟩ | ⟨body, rest, hbody, h, hend⟩)
    · cases hbody with
      | nil => exact absurd (List.cons.inj h).1 hq
      | plain _ _ _ more => exact .inl ⟨_, rest, more, (List.cons.inj h).2⟩
      | escape => exact absurd (List.cons.inj h).1 hb
    · cases hbody with
      | nil => exact absurd (List.cons.inj h).1 hb
      | plain _ _ _ more => exact .inr ⟨_, rest, more, (List.cons.inj h).2, hend⟩
      | escape => exact absurd (List.cons.inj h).1 hb
  · rintro (⟨body, rest, hbody, rfl⟩ | ⟨body, rest, hbody, rfl, hend⟩)
    · exact .inl ⟨c :: body, rest, .plain hb hq hn hbody, rfl⟩
    · exact .inr ⟨c :: body, rest, .plain hb hq hn hbody, rfl, hend⟩

/-- Nor does an escape, whatever it escapes. -/
theorem endsOnLine_escape (hn : c ≠ '\n') :
    EndsOnLine quote ('\\' :: c :: cs) ↔ EndsOnLine quote cs := by
  constructor
  · rintro (⟨body, rest, hbody, h⟩ | ⟨body, rest, hbody, h, hend⟩)
    · cases hbody with
      | nil => exact absurd (List.cons.inj h).1.symm quote.char_ne.1
      | plain hb => exact absurd (List.cons.inj h).1.symm hb
      | escape _ more => exact .inl ⟨_, rest, more, (List.cons.inj (List.cons.inj h).2).2⟩
    · cases hbody with
      | nil =>
        obtain rfl := (List.cons.inj h).2
        exact absurd (hend c rfl) hn
      | plain hb => exact absurd (List.cons.inj h).1.symm hb
      | escape _ more => exact .inr ⟨_, rest, more, (List.cons.inj (List.cons.inj h).2).2, hend⟩
  · rintro (⟨body, rest, hbody, rfl⟩ | ⟨body, rest, hbody, rfl, hend⟩)
    · exact .inl ⟨'\\' :: c :: body, rest, .escape hn hbody, rfl⟩
    · exact .inr ⟨'\\' :: c :: body, rest, .escape hn hbody, rfl, hend⟩

/-- A line with nothing more on it ends no string. -/
theorem not_endsOnLine_of_atLineEnd (h : AtLineEnd cs) : ¬ EndsOnLine quote cs := by
  rintro (⟨body, rest, hbody, rfl⟩ | ⟨body, rest, hbody, rfl, -⟩)
  · cases hbody with
    | nil => exact quote.char_ne.2 (h _ rfl)
    | plain _ _ hn => exact hn (h _ rfl)
    | escape => exact absurd (h _ rfl) (by decide)
  · cases hbody with
    | nil => exact absurd (h _ rfl) (by decide)
    | plain _ _ hn => exact hn (h _ rfl)
    | escape => exact absurd (h _ rfl) (by decide)

/-- A run of plain characters decides nothing either. -/
theorem endsOnLine_dropWhile (h : EndsOnLine quote cs) :
    EndsOnLine quote (cs.dropWhile (isPlain quote)) := by
  induction cs with
  | nil => exact h
  | cons c cs ih =>
    by_cases hc : isPlain quote c = true
    · rw [List.dropWhile_cons_of_pos hc]
      obtain ⟨hb, hq, hn⟩ := isPlain_iff.mp hc
      exact ih ((endsOnLine_plain hb hq hn).mp h)
    · rwa [List.dropWhile_cons_of_neg hc]

/-! ## §2 The look-ahead of the root -/

/-- The look-ahead finds no unclosed string exactly where the line ends it. -/
theorem unclosedTail?_eq_none_iff : unclosedTail? quote.char cs = none ↔ EndsOnLine quote cs := by
  fun_induction unclosedTail? quote.char cs with
  | case1 => simpa using not_endsOnLine_of_atLineEnd (by simp [AtLineEnd])
  | case2 => simpa using not_endsOnLine_of_atLineEnd (by simp [AtLineEnd])
  | case3 => simpa using endsOnLine_dangling (by simp [AtLineEnd])
  | case4 cs => simpa using endsOnLine_dangling (by simp [AtLineEnd])
  | case5 c cs hc ih => rw [Option.map_eq_none_iff, ih, endsOnLine_escape hc]
  | case6 cs => simpa using endsOnLine_quote
  | case7 c cs hn hend hesc hq ih =>
    have hb : c ≠ '\\' := by
      rintro rfl
      cases cs with
      | nil => exact hend rfl rfl
      | cons d ds => exact hesc d ds rfl rfl
    rw [Option.map_eq_none_iff, ih, endsOnLine_plain hb hq hn]

/-- What an unclosed string takes is the rest of its line. -/
theorem eq_takeWhile_of_unclosedTail? {tail : List Char}
    (h : unclosedTail? quote.char cs = some tail) : tail = cs.takeWhile (· != '\n') := by
  fun_induction unclosedTail? quote.char cs generalizing tail with
  | case1 | case2 =>
    obtain rfl := Option.some.inj h
    simp
  | case3 | case4 | case6 => contradiction
  | case5 c cs hc ih =>
    obtain ⟨ds, hd, rfl⟩ := Option.map_eq_some_iff.mp h
    simp [hc, ih hd]
  | case7 c cs hn _ _ _ ih =>
    obtain ⟨ds, hd, rfl⟩ := Option.map_eq_some_iff.mp h
    have hplain : c ≠ '\n' := hn
    simp [hplain, ih hd]

/-- At a quote the root has no other rules than the two for strings. -/
theorem step?_root_quote (ts : Tables) (quote : Quote) (cs : List Char) :
    Mode.step? .root ts (quote.char :: cs) =
      match unclosedTail? quote.char cs with
      | some tail => some (.one .brokenString (quote.char :: tail) .stay)
      | none => some (.one .quote [quote.char] (.push (.string quote))) := by
  have hstart : isWordStart quote.char = false ∧ isUnitStart quote.char = false ∧
      isNumberChar quote.char = false ∧ isSpace quote.char = false := by cases quote <;> decide
  have hname : leadingName (quote.char :: cs) = [] := leadingName_of_stops (stops_cons.mpr hstart.1)
  have hunit : leadingUnitWord (quote.char :: cs) = [] :=
    leadingUnitWord_of_stops (stops_cons.mpr hstart.2.1)
  have hcomment : comment ts (quote.char :: cs) = none := by cases quote <;> rfl
  have hnumber : number ts (quote.char :: cs) = none := by
    have hstops : Stops isNumberChar (quote.char :: cs) := stops_cons.mpr hstart.2.2.1
    simp [number, leadingNumber_of_stops hstops, Step.one?]
  have hdeclaration : declaration ts (quote.char :: cs) = none := by cases quote <;> rfl
  have hcall : call ts (quote.char :: cs) = none := by simp [call, hname]
  have hword : word ts (quote.char :: cs) = none := by simp [word, hname, hunit, Step.one?]
  have hspaces : spaces ts (quote.char :: cs) = none := by
    simp [spaces, run, Step.one?, hstart.2.2.2]
  have hquote : Quote.ofChar? quote.char = some quote := Quote.ofChar?_eq_some.mpr rfl
  cases htail : unclosedTail? quote.char cs with
  | none =>
    simp [Mode.step?, Mode.rules, hcomment, hnumber, hdeclaration, hcall, hword, hspaces,
      unclosedString, stringOpening, hquote, htail]
  | some tail =>
    simp [Mode.step?, Mode.rules, hcomment, hnumber, hdeclaration, hcall, hword, hspaces,
      unclosedString, hquote, htail]

/-- A string is opened by its quote, where the line ends it. -/
theorem opening_of_step?_root {ts : Tables} {s : Step}
    (h : Mode.step? .root ts cs = some s) (hpush : s.transition = .push (.string quote)) :
    ∃ tail, cs = quote.char :: tail ∧ s = .one .quote [quote.char] (.push (.string quote)) ∧
      EndsOnLine quote tail := by
  obtain ⟨tail, rfl, rfl⟩ : ∃ tail, cs = quote.char :: tail ∧
      s = .one .quote [quote.char] (.push (.string quote)) := by
    cases Mode.answers_of_step? h with
    | one hfinds =>
      obtain rfl := hpush
      cases hfinds with
      | stringOpening hcs => exact ⟨_, hcs, rfl⟩
    | declaration | call | spacedCall | handBack => contradiction
  refine ⟨tail, rfl, rfl, unclosedTail?_eq_none_iff.mp ?_⟩
  rw [step?_root_quote] at h
  cases htail : unclosedTail? quote.char tail with
  | none => rfl
  | some t => simp [htail, Step.one] at h

/-! ## §3 The string mode -/

/-- What the string mode reads where the line ends the string, and what it leaves. -/
inductive StringStep (quote : Quote) : Step → List Char → Prop where
  /-- Plain text or an escape; the line still ends the string. -/
  | piece {k : Kind} {text rest : List Char} (hk : k = .string ∨ k = .escape) (hne : text ≠ [])
      (hn : '\n' ∉ text) (hends : EndsOnLine quote rest) :
      StringStep quote (.one k text .stay) rest
  /-- The closing quote. -/
  | closing {rest : List Char} : StringStep quote (.one .quote [quote.char] .pop) rest
  /-- A backslash that ends the line. -/
  | dangling {rest : List Char} (hend : AtLineEnd rest) :
      StringStep quote (.one .brokenString ['\\'] .pop) rest

theorem StringStep.text_ne_nil {s : Step} (h : StringStep quote s rest) : s.text ≠ [] := by
  cases h with
  | piece _ hne => simpa using hne
  | closing | dangling => simp

theorem stringText_eq_none {ts : Tables} (hc : isPlain quote c = false) :
    stringText quote ts (c :: cs) = none := by
  rw [stringText_eq]
  simp [run, Step.one?, hc]

theorem step?_string_plain (ts : Tables) (hc : isPlain quote c = true) (cs : List Char) :
    Mode.step? (.string quote) ts (c :: cs) =
      some (.one .string ((c :: cs).takeWhile (isPlain quote)) .stay) := by
  have hne : (c :: cs).takeWhile (isPlain quote) ≠ [] := by simp [hc]
  rw [Mode.step?, Mode.rules, List.findSome?_cons, stringText_eq, run_eq_some.mpr ⟨hne, rfl⟩]

theorem step?_string_escape (ts : Tables) (hc : c ≠ '\n') (cs : List Char) :
    Mode.step? (.string quote) ts ('\\' :: c :: cs) = some (.one .escape ['\\', c] .stay) := by
  have htext : stringText quote ts ('\\' :: c :: cs) = none :=
    stringText_eq_none (by simp [isPlain])
  have hescape : stringEscape ts ('\\' :: c :: cs) = some (.one .escape ['\\', c] .stay) := by
    simp [stringEscape, hc]
  simp [Mode.step?, Mode.rules, htext, hescape]

theorem step?_string_dangling (ts : Tables) (hcs : AtLineEnd cs) :
    Mode.step? (.string quote) ts ('\\' :: cs) = some (.one .brokenString ['\\'] .pop) := by
  have htext : stringText quote ts ('\\' :: cs) = none := stringText_eq_none (by simp [isPlain])
  have hescape : stringEscape ts ('\\' :: cs) = none := by
    cases cs with
    | nil => rfl
    | cons d ds => simp [stringEscape, hcs d rfl]
  have hclosing : stringClosing quote ts ('\\' :: cs) = none := by
    simp [stringClosing, oneOf, quote.char_ne.1.symm]
  simp [Mode.step?, Mode.rules, htext, hescape, hclosing, danglingBackslash, oneOf]

theorem step?_string_quote (ts : Tables) (quote : Quote) (cs : List Char) :
    Mode.step? (.string quote) ts (quote.char :: cs) = some (.one .quote [quote.char] .pop) := by
  have htext : stringText quote ts (quote.char :: cs) = none :=
    stringText_eq_none (by simp [isPlain])
  have hescape : stringEscape ts (quote.char :: cs) = none := by cases quote <;> rfl
  simp [Mode.step?, Mode.rules, htext, hescape, stringClosing, oneOf]

/-- Where the line ends the string the string mode has something to read. -/
theorem EndsOnLine.exists_step? (ts : Tables) (h : EndsOnLine quote cs) :
    ∃ s rest, Mode.step? (.string quote) ts cs = some s ∧ cs = s.text ++ rest ∧
      StringStep quote s rest := by
  cases cs with
  | nil => exact absurd h (not_endsOnLine_of_atLineEnd (by simp [AtLineEnd]))
  | cons c cs =>
    by_cases hplain : isPlain quote c = true
    · have hline : '\n' ∉ (c :: cs).takeWhile (isPlain quote) :=
        notMem_takeWhile (by simp [isPlain])
      exact ⟨_, _, step?_string_plain ts hplain cs,
        by rw [Step.text_one, List.takeWhile_append_dropWhile],
        .piece (.inl rfl) (by simp [hplain]) hline (endsOnLine_dropWhile h)⟩
    · by_cases hq : c = quote.char
      · subst hq
        exact ⟨_, cs, step?_string_quote ts quote cs, by simp, .closing⟩
      · by_cases hb : c = '\\'
        · subst hb
          cases cs with
          | nil =>
            have hend : AtLineEnd [] := by simp [AtLineEnd]
            exact ⟨_, [], step?_string_dangling ts hend, by simp, .dangling hend⟩
          | cons d ds =>
            by_cases hd : d = '\n'
            · have hend : AtLineEnd (d :: ds) := by simp [AtLineEnd, hd]
              exact ⟨_, d :: ds, step?_string_dangling ts hend, by simp, .dangling hend⟩
            · exact ⟨_, ds, step?_string_escape ts hd ds, by simp,
                .piece (.inr rfl) (by simp) (by simp [Ne.symm hd]) ((endsOnLine_escape hd).mp h)⟩
        · have hn : c = '\n' := by
            by_contra hn
            exact hplain (isPlain_iff.mpr ⟨hb, hq, hn⟩)
          exact absurd h (not_endsOnLine_of_atLineEnd (by simp [AtLineEnd, hn]))

/-- A piece of the inside of a string. -/
def IsStringPiece (l : Lexeme) : Prop :=
  l.kind = .string ∨ l.kind = .escape

/-- The lexeme ends a string: its quote, or a backslash that ends the line. -/
def EndsString (quote : Quote) (l : Lexeme) (rest : List Char) : Prop :=
  l = ⟨.quote, [quote.char]⟩ ∨ l = ⟨.brokenString, ['\\']⟩ ∧ AtLineEnd rest

/-- A string is read to its end, on its line. -/
theorem EndsOnLine.exists_reads (ts : Tables) (h : EndsOnLine quote cs) :
    ∃ body last rest, Reads ts [.string quote] cs (body ++ [last]) [] rest ∧
      (∀ l ∈ body, IsStringPiece l) ∧ EndsString quote last rest ∧
      ∀ l ∈ body ++ [last], '\n' ∉ l.text := by
  -- The pieces get shorter and shorter inputs, so the induction is on the length.
  induction hlen : cs.length using Nat.strongRecOn generalizing cs with
  | ind n ih =>
    obtain ⟨s, rest, hs, htext, hstep⟩ := h.exists_step? ts
    have hread : Reads ts [.string quote] cs s.lexemes (s.transition.apply [.string quote]) rest :=
      Reads.of_step? hs htext hstep.text_ne_nil
    cases hstep with
    | @piece k text _ hk hne hn hends =>
      have hlt : rest.length < n := by
        have htl := List.length_pos_iff.mpr hne
        rw [← hlen, htext, Step.text_one, List.length_append]
        omega
      obtain ⟨body, last, rest', hmore, hbody, hlast, hline⟩ := ih _ hlt hends rfl
      refine ⟨⟨k, text⟩ :: body, last, rest', hread.append hmore, ?_, hlast, ?_⟩
      · exact List.forall_mem_cons.mpr ⟨hk, hbody⟩
      · exact List.forall_mem_cons.mpr ⟨hn, hline⟩
    | closing =>
      refine ⟨[], _, rest, hread, by simp, .inl rfl, ?_⟩
      simpa [Step.one] using quote.char_ne.2.symm
    | dangling hend => exact ⟨[], _, rest, hread, by simp, .inr ⟨rfl, hend⟩, by simp⟩

end

/-! ## §4 Strings in a run -/

/-- What has been read so far ends in a string that this quote has opened. -/
def InString (quote : Quote) (before : List Lexeme) : Prop :=
  ∃ earlier body, before = earlier ++ ⟨.quote, [quote.char]⟩ :: body ∧ ∀ l ∈ body, IsStringPiece l

/-- A string is open only behind its quote and where its line ends it. -/
def StringsEnd (ls : List Lexeme) (frames : List Mode) (rest : List Char) : Prop :=
  OpenFrames frames ∧
    ∀ quote, .string quote ∈ frames → EndsOnLine quote rest ∧ InString quote ls

section

variable {ts : Tables} {quote : Quote} {frames : List Mode} {c : Char} {cs : List Char}

/-- A string is the only mode above the root. -/
theorem OpenFrames.eq_of_string_mem (h : OpenFrames frames) (hmem : .string quote ∈ frames) :
    frames = [.string quote] := by
  cases h <;> simp_all [unitFrames]

/-- A string can only be entered from the root. -/
theorem string_mem_apply {m : Mode} {t : Transition} (ht : t ∈ m.transitions)
    (hmem : .string quote ∈ t.apply frames) :
    .string quote ∈ frames ∨ m = .root ∧ t = .push (.string quote) := by
  cases m <;> simp only [Mode.transitions, List.mem_cons, List.not_mem_nil, or_false] at ht <;>
    grind [Transition.apply, List.mem_of_mem_tail]

/-- In a string whose line ends it the string mode is not left without reading. -/
theorem settle_string (h : EndsOnLine quote cs) :
    settle ts cs [.string quote] = [.string quote] := by
  obtain ⟨s, rest, hs, -, hstep⟩ := h.exists_step? ts
  exact settle_eq_self hs hstep.text_ne_nil

/-- Every step keeps it so. -/
theorem StringsEnd.advance {ls ms : List Lexeme} {mid : List Mode} {tail : List Char}
    (h : StringsEnd ls frames (c :: cs)) (hadv : advance ts c cs frames = (ms, mid))
    (htext : c :: cs = textOf ms ++ tail) : StringsEnd (ls ++ ms) mid tail := by
  obtain ⟨hopen, hstring⟩ := h
  have hnext : OpenFrames (UnitLexer.advance ts c cs frames).2 := hopen.advance
  have hsettled : OpenFrames (settle ts (c :: cs) frames) := hopen.settle
  have hframes : ∀ {quote : Quote}, .string quote ∈ settle ts (c :: cs) frames →
      settle ts (c :: cs) frames = [.string quote] ∧ EndsOnLine quote (c :: cs) ∧
        InString quote ls := fun {quote} hmem =>
    ⟨hsettled.eq_of_string_mem hmem, hstring quote ((settle_isSuffix ts _ frames).subset hmem)⟩
  rw [hadv] at hnext
  refine ⟨hnext, fun quote hmem => ?_⟩
  rcases advance_cases ts c cs frames with ⟨s, hs, hne, hadv'⟩ | ⟨hnone, hadv'⟩
  · rw [hadv, Prod.mk.injEq] at hadv'
    obtain ⟨rfl, rfl⟩ := hadv'
    rcases string_mem_apply (Mode.transition_mem hs) hmem with hmem' | ⟨hroot, hpush⟩
    · obtain ⟨hset, hends, earlier, body, rfl, hbody⟩ := hframes hmem'
      obtain ⟨s', rest, hs', htext', hstep⟩ := hends.exists_step? ts
      rw [hset] at hs hmem
      obtain rfl : s = s' := Option.some.inj (hs.symm.trans hs')
      obtain rfl : tail = rest := List.append_cancel_left (htext.symm.trans htext')
      cases hstep with
      | closing | dangling => simp [Step.one, Transition.apply] at hmem
      | @piece k text _ hk _ _ hends =>
        refine ⟨hends, earlier, body ++ [⟨k, text⟩], by simp [Step.one], ?_⟩
        intro l hl
        rcases List.mem_append.mp hl with hl | hl
        · exact hbody l hl
        · obtain rfl := List.mem_singleton.mp hl
          exact hk
    · rw [hroot] at hs
      obtain ⟨tail', htail, rfl, hends⟩ := opening_of_step?_root hs hpush
      rw [htail] at htext
      obtain rfl := (List.cons.inj htext).2
      exact ⟨hends, ls, [], rfl, by simp⟩
  · rw [hadv, Prod.mk.injEq] at hadv'
    obtain ⟨-, rfl⟩ := hadv'
    obtain ⟨hset, hends, -⟩ := hframes hmem
    obtain ⟨s, rest, hs, -, hstep⟩ := hends.exists_step? ts
    rw [hset] at hnone
    exact absurd (hnone s hs) hstep.text_ne_nil

theorem stringsEnd_atStep (ts : Tables) (source : String) (k : Nat) :
    StringsEnd (Lexer.atStep ts source k).readSoFar (Lexer.atStep ts source k).state.frames
      (Lexer.atStep ts source k).rest :=
  Lexer.history ⟨.root, by simp⟩ StringsEnd.advance k

end

/-! ## §5 Strings in a source -/

section

variable {ts : Tables} {source : String} {k : Nat} {quote : Quote}

/-- A string is opened by a step of the root that reads its quote. -/
theorem readSoFar_of_enters_string (h : (Lexer.atStep ts source k).Enters (.string quote)) :
    (Lexer.atStep ts source k).settledFrames = [] ∧
      (Lexer.atStep ts source (k + 1)).state.frames = [.string quote] ∧
      (Lexer.atStep ts source (k + 1)).readSoFar =
        (Lexer.atStep ts source k).readSoFar ++ [⟨.quote, [quote.char]⟩] := by
  have hsettled : OpenFrames (Lexer.atStep ts source k).settledFrames :=
    (Lexer.openFrames_atStep k).settle
  obtain ⟨c, cs, s, hr, hs, hne, htrans⟩ := Lexer.exists_step?_of_enters h
  rw [Lexer.tables_atStep] at hs
  obtain ⟨hroot, hpush⟩ : currentMode (Lexer.atStep ts source k).settledFrames = .root ∧
      s.transition = .push (.string quote) := by
    have hmem : .string quote ∈ s.transition.apply [] := by
      rcases htrans with ht | ⟨outer, ht⟩ <;> simp [ht, Transition.apply]
    exact (string_mem_apply (Mode.transition_mem hs) hmem).resolve_left (by simp)
  have hnil := hsettled.eq_nil_of_currentMode hroot
  rw [hroot] at hs
  obtain ⟨tail, htail, rfl, -⟩ := opening_of_step?_root hs hpush
  rw [← hroot] at hs
  have htext : c :: cs = (Step.one .quote [quote.char] (.push (.string quote))).text ++ tail := by
    simpa using htail
  obtain ⟨-, hframes, hread⟩ := Lexer.atStep_succ_of_step? hr hs htext hne
  rw [hnil] at hframes
  exact ⟨hnil, hframes, hread⟩

/-- An open string is read on: its mode is left only behind its end. -/
theorem settledFrames_of_string_mem
    (h : .string quote ∈ (Lexer.atStep ts source k).state.modes) :
    (Lexer.atStep ts source k).rest ≠ [] ∧ (Lexer.atStep ts source k).settledFrames =
      (Lexer.atStep ts source k).state.frames := by
  have hmem : .string quote ∈ (Lexer.atStep ts source k).state.frames := by
    simpa [State.modes] using h
  obtain ⟨hopen, hstring⟩ := stringsEnd_atStep ts source k
  have hends := (hstring quote hmem).1
  constructor
  · intro hr
    rw [hr] at hends
    exact not_endsOnLine_of_atLineEnd (by simp [AtLineEnd]) hends
  · rw [Lexer.settledFrames, Lexer.tables_atStep, hopen.eq_of_string_mem hmem,
      settle_string hends]

/-- A quote in the root is read as a broken string, with the rest of its line,
exactly where the line does not end the string. -/
theorem readSoFar_brokenString_iff {tail : List Char}
    (hroot : (Lexer.atStep ts source k).settledFrames = [])
    (hr : (Lexer.atStep ts source k).rest = quote.char :: tail) :
    (Lexer.atStep ts source (k + 1)).readSoFar = (Lexer.atStep ts source k).readSoFar ++
        [⟨.brokenString, quote.char :: tail.takeWhile (· != '\n')⟩] ↔
      ¬ EndsOnLine quote tail := by
  have hs := step?_root_quote ts quote tail
  rw [← unclosedTail?_eq_none_iff]
  cases htail : unclosedTail? quote.char tail with
  | none =>
    rw [htail] at hs
    have hopening : quote.char :: tail =
        (Step.one .quote [quote.char] (.push (.string quote))).text ++ tail := by simp
    rw [(Lexer.atStep_succ_of_step? hr (by rwa [hroot]) hopening (by simp)).2.2]
    simp [Step.one]
  | some line =>
    rw [htail] at hs
    obtain ⟨rest, hrest⟩ := unclosedTail?_isPrefix htail
    have hline : quote.char :: tail =
        (Step.one .brokenString (quote.char :: line) .stay).text ++ rest := by simp [hrest]
    rw [(Lexer.atStep_succ_of_step? hr (by rwa [hroot]) hline (by simp)).2.2,
      ← eq_takeWhile_of_unclosedTail? htail]
    simp [Step.one]

end

/-- A string that the root opens is read in pieces up to its quote, or up to a
backslash that ends the line, all on one line, and then only the root is open.
Nowhere is a string handed back to the root or left open at the end, and the
root takes a quote for a broken string, to the end of its line, exactly where
the line neither closes a string nor ends in a backslash inside one. -/
theorem string_ends_on_line (ts : Tables) (source : String) :
    (∀ k quote, (Lexer.atStep ts source k).Enters (.string quote) →
      (Lexer.atStep ts source k).settledFrames = [] ∧ ∃ n body last more,
        lexemes ts source = (Lexer.atStep ts source k).readSoFar ++
          ⟨.quote, [quote.char]⟩ :: body ++ last :: more ∧
        (∀ l ∈ body, l.kind = .string ∨ l.kind = .escape) ∧
        EndsString quote last (Lexer.atStep ts source n).rest ∧
        (∀ l ∈ body ++ [last], '\n' ∉ l.text) ∧
        (Lexer.atStep ts source n).readSoFar = (Lexer.atStep ts source k).readSoFar ++
          ⟨.quote, [quote.char]⟩ :: body ++ [last] ∧
        (Lexer.atStep ts source n).state.modes = [.root]) ∧
    (∀ k quote, .string quote ∈ (Lexer.atStep ts source k).state.modes →
      (Lexer.atStep ts source k).rest ≠ [] ∧
        (Lexer.atStep ts source k).settledFrames = (Lexer.atStep ts source k).state.frames) ∧
    (∀ quote, .string quote ∉ finalModes ts source) ∧
    ∀ k quote tail, (Lexer.atStep ts source k).settledFrames = [] →
      (Lexer.atStep ts source k).rest = quote.char :: tail →
      ((Lexer.atStep ts source (k + 1)).readSoFar = (Lexer.atStep ts source k).readSoFar ++
          [⟨.brokenString, quote.char :: tail.takeWhile (· != '\n')⟩] ↔
        ¬ ClosesOnLine quote tail ∧ ¬ DanglesOnLine quote tail) := by
  refine ⟨fun k quote h => ?_, fun k quote => settledFrames_of_string_mem, fun quote hmem => ?_,
    fun k quote tail hroot hr => ?_⟩
  · obtain ⟨hroot, hframes, hread⟩ := readSoFar_of_enters_string h
    have hends := ((stringsEnd_atStep ts source (k + 1)).2 quote (by simp [hframes])).1
    obtain ⟨body, last, rest, hrun, hbody, hlast, hline⟩ := hends.exists_reads ts
    rw [← hframes] at hrun
    obtain ⟨n, hframes', hrest', hpend⟩ := Lexer.exists_atStep_of_reads hrun
    have hread' : (Lexer.atStep ts source (k + 1 + n)).readSoFar =
        (Lexer.atStep ts source k).readSoFar ++ ⟨.quote, [quote.char]⟩ :: body ++ [last] := by
      rw [Lexer.readSoFar, hpend, List.map_append, map_lexeme_place, ← Lexer.readSoFar, hread]
      simp
    obtain ⟨more, hmore⟩ : (Lexer.atStep ts source (k + 1 + n)).readSoFar <+: lexemes ts source :=
      Lexer.readSoFar_isPrefix_lexemes _
    refine ⟨hroot, k + 1 + n, body, last, more, ?_, hbody, by rwa [hrest'], hline, hread',
      by rw [State.modes, hframes']; rfl⟩
    rw [← hmore, hread']
    simp
  · obtain ⟨k, hr, -, hmodes⟩ := Lexer.exists_rest_atStep_eq_nil ts source
    rw [hmodes] at hmem
    exact (settledFrames_of_string_mem hmem).1 hr
  · rw [readSoFar_brokenString_iff hroot hr, EndsOnLine, not_or]

theorem string_with_escaped_quote :
    (Lexer.atStep .standard "\"a\\\"\"" 0).Enters (.string .double) ∧
    ∃ body last more,
      lexemes .standard "\"a\\\"\"" = ⟨.quote, ['"']⟩ :: body ++ last :: more ∧
      ∀ l ∈ body, l.kind = .string ∨ l.kind = .escape := by
  have henters : (Lexer.atStep .standard "\"a\\\"\"" 0).Enters (.string .double) :=
    .inl (by decide)
  obtain ⟨-, n, body, last, more, htokens, hbody, -⟩ :=
    (string_ends_on_line .standard "\"a\\\"\"").1 0 .double henters
  exact ⟨henters, body, last, more, htokens, hbody⟩

end UnitLexer
