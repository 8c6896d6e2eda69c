/-
UnitLexer.Proofs.MaximalMunch — no token ends where it could have gone on.

`Complete` says it kind by kind: behind a word no character of a name, behind a
symbol run no symbol, behind digits no digit, behind a comment or a string that
its line does not close nothing more on the line. The text of a string is the
one kind that never ends with the input: behind it comes a backslash or the
quote that has opened the string, because the root looked for what ends the
string before it opened one.

A mode that answers with several lexemes at once leaves those behind the first
as part of what follows it. So completeness is stated with the later lexemes of
a step and the rest of its input (`AllComplete`): what a mode finds is complete,
then all it answers with, then what the lexer reads in a step, and so every
token of a source (`complete_of_lexemes`).
-/
import UnitLexer.Proofs.UnitWords

namespace UnitLexer

open Rule

/-! ## §1 What stands behind runs and digits -/

section

variable {cs rest : List Char}

theorem atLineEnd_of_takeWhile (h : cs = cs.takeWhile (· != '\n') ++ rest) : AtLineEnd rest :=
  fun c hc => by simpa using stops_of_takeWhile h c hc

/-- White space stands between words. -/
theorem stops_isWordChar_of_spaces {gap : List Char} (hne : gap ≠ [])
    (hgap : ∀ c ∈ gap, isSpace c = true) : Stops isWordChar (gap ++ rest) := by
  obtain ⟨c, cs, rfl⟩ := List.exists_cons_of_ne_nil hne
  refine stops_cons.mpr ?_
  obtain rfl | rfl | rfl | rfl := isSpace_iff.mp (hgap c List.mem_cons_self) <;> decide

variable {d : Char}

theorem IsDigits.concat (h : IsDigits cs) (hd : d.isDigit = true) : IsDigits (cs ++ [d]) :=
  ⟨by simp, by simpa [or_imp, forall_and, hd] using h.digit⟩

theorem IsInteger.concat (h : IsInteger cs) (hd : d.isDigit = true) : IsInteger (cs ++ [d]) := by
  cases h with
  | unsigned h => exact .unsigned (h.concat hd)
  | plus h => exact .plus (h.concat hd)
  | minus h => exact .minus (h.concat hd)

theorem IsMantissa.concat (h : IsMantissa cs) (hd : d.isDigit = true) :
    IsMantissa (cs ++ [d]) := by
  cases h with
  | whole h => exact .whole (h.concat hd)
  | fraction hds hfs =>
    rw [List.append_assoc]
    exact .fraction hds (hfs.concat hd)

/-- A literal with a digit behind it is a literal. -/
theorem IsNumber.concat (h : IsNumber cs) (hd : d.isDigit = true) : IsNumber (cs ++ [d]) := by
  cases h with
  | plain h => exact .plain (h.concat hd)
  | lower hm hi =>
    rw [List.append_assoc]
    exact .lower hm (hi.concat hd)
  | upper hm hi =>
    rw [List.append_assoc]
    exact .upper hm (hi.concat hd)

/-- What is found as the longest text of a grammar that digits may extend is not
followed by a digit. -/
theorem stops_isDigit_of_longest {P : List Char → Prop} {leading : List Char → List Char}
    (hconcat : ∀ {cs : List Char} {d : Char}, P cs → d.isDigit = true → P (cs ++ [d]))
    (hreach : ∀ {cs : List Char}, P cs → ∀ rest, cs <+: leading (cs ++ rest))
    (hfound : P (leading cs)) (hrest : cs = leading cs ++ rest) : Stops Char.isDigit rest := by
  intro d hd
  by_contra hdigit
  obtain ⟨tail, rfl⟩ := List.head?_eq_some_iff.mp hd
  have hlonger := hreach (hconcat hfound (by simpa using hdigit)) tail
  rw [List.append_assoc, List.singleton_append, ← hrest] at hlonger
  have hle := hlonger.length_le
  rw [List.length_append, List.length_singleton] at hle
  omega

theorem stops_of_leadingNumber (hne : leadingNumber cs ≠ [])
    (hrest : cs = leadingNumber cs ++ rest) : Stops Char.isDigit rest :=
  stops_isDigit_of_longest IsNumber.concat IsNumber.isPrefix_leading (isNumber_leadingNumber hne)
    hrest

theorem stops_of_leadingInteger (hne : leadingInteger cs ≠ [])
    (hrest : cs = leadingInteger cs ++ rest) : Stops Char.isDigit rest :=
  stops_isDigit_of_longest IsInteger.concat IsInteger.isPrefix_leading
    (isInteger_leadingInteger hne) hrest

end

/-! ## §2 Complete lexemes -/

/-- The lexeme, read behind these lexemes, could not have gone on with the rest. -/
def Complete (before : List Lexeme) (l : Lexeme) (rest : List Char) : Prop :=
  match l.kind with
  | .keyword | .builtin | .identifier | .call | .declaration | .unit => Stops isWordChar rest
  | .operator | .symbol => Stops isSymbol rest
  | .number | .exponent => Stops Char.isDigit rest
  | .comment => AtLineEnd rest
  | .brokenString => (∃ quote : Quote, l.text.head? = some quote.char) → AtLineEnd rest
  | .string => ∃ quote, InString quote before ∧ ∃ c tail, rest = c :: tail ∧
      (c = '\\' ∨ c = quote.char)
  | .space => Stops isBlank rest
  | .unitOperator | .delimiter | .bracket _ | .escape | .quote | .invalid => True

/-- Each of the lexemes is complete with those behind it and the rest. -/
def AllComplete : List Lexeme → List Lexeme → List Char → Prop
  | _, [], _ => True
  | before, l :: ls, rest =>
    Complete before l (textOf ls ++ rest) ∧ AllComplete (before ++ [l]) ls rest

section

variable {before : List Lexeme} {rest : List Char}

theorem allComplete_one {k : Kind} {text : List Char} {t : Transition}
    (h : Complete before ⟨k, text⟩ rest) : AllComplete before (Step.one k text t).lexemes rest :=
  ⟨by simpa using h, trivial⟩

theorem AllComplete.of_split {us vs : List Lexeme} {l : Lexeme}
    (h : AllComplete before (us ++ l :: vs) rest) :
    Complete (before ++ us) l (textOf vs ++ rest) := by
  induction us generalizing before with
  | nil => simpa using h.1
  | cons u us ih => simpa using ih h.2

/-- The text of a string ends before what ends its piece of the string. -/
theorem complete_string {quote : Quote} {text : List Char} (hstring : InString quote before)
    (hends : EndsOnLine quote rest) (hstops : Stops (isPlain quote) rest) :
    Complete before ⟨.string, text⟩ rest := by
  cases rest with
  | nil => exact absurd hends (not_endsOnLine_of_atLineEnd (by simp [AtLineEnd]))
  | cons c tail =>
    refine ⟨quote, hstring, c, tail, rfl, ?_⟩
    by_contra hc
    rw [not_or] at hc
    have hbreak : c = '\n' := by
      by_contra hn
      rw [stops_cons, isPlain_iff.mpr ⟨hc.1, hc.2, hn⟩] at hstops
      contradiction
    exact absurd hends (not_endsOnLine_of_atLineEnd (by simp [AtLineEnd, hbreak]))

end

/-! ## §3 The answers of the modes -/

namespace Mode

variable {ts : Tables} {cs text rest : List Char} {m : Mode} {k : Kind} {t : Transition}
  {before : List Lexeme}

/-- What a mode finds is complete, in a string where its line ends it. -/
theorem Finds.complete (h : m.Finds ts cs k text t) (hrest : cs = text ++ rest)
    (hstring : ∀ quote, m = .string quote → EndsOnLine quote cs ∧ InString quote before) :
    Complete before ⟨k, text⟩ rest := by
  cases h with
  | comment hcs =>
    rw [hcs, List.cons_append, List.cons.injEq] at hrest
    exact atLineEnd_of_takeWhile hrest.2
  | number hne => exact stops_of_leadingNumber hne hrest
  | exponent hne => exact stops_of_leadingInteger hne hrest
  | keyword hne | builtin hne | knownName hne | name hne =>
    exact stops_of_leadingName hrest.symm hne
  | knownUnit hne | groupName hne =>
    exact (stops_of_leadingUnitWord hrest.symm hne).mono fun _ => isUnitChar_of_isWordChar
  | firstUnit _ hne | unit _ hne =>
    exact (stops_of_leadingUnit hrest.symm hne).mono fun _ => isUnitChar_of_isWordChar
  | space => exact (stops_of_takeWhile hrest).blank
  | gap | blank | operator | symbol => exact stops_of_takeWhile hrest
  | brokenString hcs htext =>
    rw [hcs, List.cons_append, List.cons.injEq, eq_takeWhile_of_unclosedTail? htext] at hrest
    exact fun _ => atLineEnd_of_takeWhile hrest.2
  | @stringText quote hne =>
    obtain ⟨hends, hin⟩ := hstring quote rfl
    have hbehind : EndsOnLine quote rest := by
      rw [eq_dropWhile_of_append hrest]
      exact endsOnLine_dropWhile hends
    exact complete_string hin hbehind (stops_of_takeWhile hrest)
  | danglingBackslash =>
    -- A backslash is no quote, so nothing is asked of it.
    rintro ⟨quote, hquote⟩
    exact absurd (Option.some.inj hquote).symm quote.char_ne.1
  | stringOpening | stringEscape | stringClosing | delimiter | bracket | product | power
  | noExponent | firstGroup | group | nestedGroup | groupClosing => trivial

/-- The name of a call is complete. -/
theorem Called.complete (h : Called ts (leadingName cs) k) (hrest : cs = leadingName cs ++ rest) :
    Complete before ⟨k, leadingName cs⟩ rest := by
  cases h with
  | builtin hne | plain hne => exact stops_of_leadingName hrest.symm hne

/-- All that a mode answers with is complete. -/
theorem Answers.allComplete {s : Step} (h : m.Answers ts cs s) (hrest : cs = s.text ++ rest)
    (hstring : ∀ quote, m = .string quote → EndsOnLine quote cs ∧ InString quote before) :
    AllComplete before s.lexemes rest := by
  cases h with
  | one hfinds =>
    rw [Step.text_one] at hrest
    exact allComplete_one (hfinds.complete hrest hstring)
  | @declaration tail gap name hcs hgap hname hgap_ne hname_ne =>
    have hsplit : tail = gap ++ (name ++ rest) := by
      simpa [hcs, Step.text, textOf] using hrest
    have hspace : ∀ c ∈ gap, isSpace c = true :=
      fun c hc => List.all_eq_true.mp List.all_takeWhile c (hgap ▸ hc)
    have hbehind : Stops isSpace (name ++ rest) := stops_of_takeWhile (hgap ▸ hsplit)
    have hdrop : tail.drop gap.length = name ++ rest :=
      (congrArg (List.drop gap.length) hsplit).trans List.drop_left
    have hname_stops : Stops isWordChar rest := by
      rw [hname] at hdrop hname_ne
      exact stops_of_leadingName hdrop.symm hname_ne
    refine ⟨?_, ?_, ?_, trivial⟩
    · simpa [Complete, textOf] using stops_isWordChar_of_spaces hgap_ne hspace
    · simpa [Complete, textOf] using hbehind.blank
    · simpa [Complete] using hname_stops
  | call hcalled =>
    rw [Step.text, textOf_cons, List.append_assoc] at hrest
    exact ⟨hcalled.complete hrest, trivial, trivial⟩
  | spacedCall hcalled =>
    rw [Step.text, textOf_cons, List.append_assoc] at hrest
    exact ⟨hcalled.complete hrest, by simp [Complete, isBlank], trivial, trivial⟩
  | handBack => trivial

end Mode

/-- What the lexer reads in a step is complete. -/
theorem allComplete_advance {ts : Tables} {c : Char} {cs rest : List Char} {frames : List Mode}
    {before : List Lexeme} (htext : c :: cs = textOf (advance ts c cs frames).1 ++ rest)
    (hstring : ∀ quote, currentMode (settle ts (c :: cs) frames) = .string quote →
      EndsOnLine quote (c :: cs) ∧ InString quote before) :
    AllComplete before (advance ts c cs frames).1 rest := by
  rcases advance_cases ts c cs frames with ⟨s, hs, -, hadv⟩ | ⟨-, hadv⟩
  · rw [hadv] at htext ⊢
    exact (Mode.answers_of_step? hs).allComplete htext hstring
  · rw [hadv]
    exact ⟨trivial, trivial⟩

/-! ## §4 The tokens of a source -/

/-- In a settled string the line ends it, and what has been read ends in it. -/
theorem Lexer.inString_of_settledFrames {ts : Tables} {source : String} {k : Nat} {quote : Quote}
    (h : currentMode (atStep ts source k).settledFrames = .string quote) :
    EndsOnLine quote (atStep ts source k).rest ∧ InString quote (atStep ts source k).readSoFar := by
  have hsuffix : (atStep ts source k).settledFrames <:+ (atStep ts source k).state.frames :=
    settle_isSuffix ..
  refine (stringsEnd_atStep ts source k).2 quote (hsuffix.subset ?_)
  cases hsettled : (atStep ts source k).settledFrames with
  | nil =>
    rw [hsettled] at h
    contradiction
  | cons m below =>
    rw [hsettled] at h
    exact h ▸ List.mem_cons_self

/-- Every token of a source is complete with what stands behind it. -/
theorem complete_of_lexemes {ts : Tables} {source : String} {before after : List Lexeme}
    {l : Lexeme} (h : lexemes ts source = before ++ l :: after) :
    Complete before l (textOf after) := by
  obtain ⟨k, hle, hlt⟩ := exists_step_of_lexemes h
  obtain ⟨c, cs, us, vs, more, hr, hls, hbefore, rfl⟩ := lexemes_of_step h hle hlt
  have hrest := rest_eq_of_lexemes h hbefore
  rw [hr] at hrest
  have htext : c :: cs =
      textOf (advance ts c cs (Lexer.atStep ts source k).state.frames).1 ++ textOf more := by
    rw [hls, hrest]
    simp
  have hstring : ∀ quote, currentMode (settle ts (c :: cs)
      (Lexer.atStep ts source k).state.frames) = .string quote →
      EndsOnLine quote (c :: cs) ∧ InString quote (Lexer.atStep ts source k).readSoFar := by
    intro quote hquote
    rw [← hr]
    refine Lexer.inString_of_settledFrames ?_
    rwa [Lexer.settledFrames_atStep hr]
  have hall := allComplete_advance htext hstring
  rw [hls] at hall
  rw [hbefore, textOf_append]
  exact hall.of_split

/-- The text of a string ends before an escape in it. -/
theorem complete_string_text :
    lexemes .standard "'a\\n'" = [⟨.quote, ['\'']⟩] ++ ⟨.string, ['a']⟩ ::
      [⟨.escape, ['\\', 'n']⟩, ⟨.quote, ['\'']⟩] ∧
    Complete [⟨.quote, ['\'']⟩] ⟨.string, ['a']⟩ ['\\', 'n', '\''] := by
  have htokens : lexemes .standard "'a\\n'" = [⟨.quote, ['\'']⟩] ++ ⟨.string, ['a']⟩ ::
      [⟨.escape, ['\\', 'n']⟩, ⟨.quote, ['\'']⟩] := by decide
  exact ⟨htokens, complete_of_lexemes htokens⟩

end UnitLexer
