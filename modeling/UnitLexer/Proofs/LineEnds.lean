/-
UnitLexer.Proofs.LineEnds — how far rules look past the end of a line.

All rules but two stop at a line break: before it they answer as if the source
ended there (`StopsAtBreak`), whatever the look-ahead is for. The two are the
white space rule, whose run goes on over line breaks, and the declaration rule,
which looks for a name behind such a run. Both look no further than the first
character that is no white space, so a text that ends in a line break is read
alike whatever follows it, as long as that is no white space and the text is
not the word `def` with nothing but white space behind it
(`Mode.step?_append_of_endsLine`).
-/
import UnitLexer.Proofs.Answers
import UnitLexer.Proofs.UnitGrammar

namespace UnitLexer

/-! ## §1 Rules that stop at a line break -/

/-- The text ends in a line break. -/
def EndsLine (cs : List Char) : Prop :=
  ∃ line, cs = line ++ ['\n']

theorem endsLine_iff {cs : List Char} : EndsLine cs ↔ cs.getLast? = some '\n' :=
  List.getLast?_eq_some_iff.symm

/-- What is left of the text ends in the same line break. -/
theorem EndsLine.of_append {u v : List Char} (h : EndsLine (u ++ v)) (hv : v ≠ []) :
    EndsLine v := by
  rw [endsLine_iff, List.getLast?_append, List.getLast?_eq_some_getLast hv, Option.some_or] at h
  rw [endsLine_iff, List.getLast?_eq_some_getLast hv, h]

/-- Before a line break the rule answers as at the end of the source. -/
def Rule.StopsAtBreak (r : Rule) : Prop :=
  ∀ (ts : Tables) (u x : List Char), r ts (u ++ '\n' :: x) = r ts u

theorem stops_break {p : Char → Bool} (h : p '\n' = false) (x : List Char) :
    Stops p ('\n' :: x) :=
  stops_cons.mpr h

theorem unclosedTail?_cons_plain {quote c : Char} {cs : List Char} (hn : c ≠ '\n')
    (hb : c ≠ '\\') : unclosedTail? quote (c :: cs) =
      if c = quote then none else (unclosedTail? quote cs).map (c :: ·) := by
  rw [unclosedTail?.eq_def]
  split <;> simp_all

/-- What is left of a string is found within its line. -/
theorem unclosedTail?_append_break (quote : Quote) (u x : List Char) :
    unclosedTail? quote.char (u ++ '\n' :: x) = unclosedTail? quote.char u := by
  have hn : quote.char ≠ '\n' := by cases quote <;> decide
  have hb : quote.char ≠ '\\' := by cases quote <;> decide
  fun_induction unclosedTail? quote.char u with
  | case1 | case2 | case3 | case4 => simp [unclosedTail?]
  | case5 c cs hc ih => simp [unclosedTail?, hc, ih]
  | case6 cs => rw [List.cons_append, unclosedTail?_cons_plain hn hb, if_pos rfl]
  | case7 c cs hnl hend hesc hc ih =>
    have hplain : c ≠ '\\' := by
      rintro rfl
      cases cs with
      | nil => exact hend rfl rfl
      | cons d ds => exact hesc d ds rfl rfl
    rw [List.cons_append, unclosedTail?_cons_plain hnl hplain, if_neg hc, ih]

namespace Rule

theorem stopsAtBreak_run {p : Char → Bool} (h : p '\n' = false) (k : Kind) (t : Transition) :
    StopsAtBreak (run p k t) := by
  intro ts u x
  simp only [run, takeWhile_append_of_stops (stops_break h x)]

theorem stopsAtBreak_oneOf {chars : List Char} (h : '\n' ∉ chars) (k : Kind) (t : Transition) :
    StopsAtBreak (oneOf chars k t) := by
  intro ts u x
  cases u with
  | nil => simp [oneOf, h]
  | cons c u => rfl

theorem stopsAtBreak_handBack : StopsAtBreak handBack :=
  fun _ _ _ => rfl

theorem stopsAtBreak_comment : StopsAtBreak comment := by
  intro ts u x
  cases u with
  | nil => rfl
  | cons c u =>
    by_cases hc : c = '#'
    · have hline : (u ++ '\n' :: x).takeWhile (· != '\n') = u.takeWhile (· != '\n') :=
        takeWhile_append_of_stops (stops_break rfl x)
      simp only [hc, List.cons_append, comment, hline]
    · simp [comment, hc]

theorem stopsAtBreak_number : StopsAtBreak number := by
  intro ts u x
  simp only [number, leadingNumber_append (stops_break (by decide) x)]

theorem stopsAtBreak_call : StopsAtBreak call := by
  intro ts u x
  have hname : leadingName (u ++ '\n' :: x) = leadingName u :=
    leadingName_append (stops_break (by decide) x)
  have hgap : ((u ++ '\n' :: x).drop (leadingName u).length).takeWhile isBlank =
      (u.drop (leadingName u).length).takeWhile isBlank := by
    rw [drop_append_of_isPrefix (leadingName_isPrefix u)]
    exact takeWhile_append_of_stops (stops_break (by decide) x)
  have hparen : ((u ++ '\n' :: x).drop ((leadingName u).length +
        ((u.drop (leadingName u).length).takeWhile isBlank).length)).head? = some '(' ↔
      (u.drop ((leadingName u).length +
        ((u.drop (leadingName u).length).takeWhile isBlank).length)).head? = some '(' := by
    rw [← List.length_append, drop_append_of_isPrefix (append_isPrefix (leadingName_isPrefix u)
      (List.takeWhile_prefix isBlank))]
    cases u.drop (leadingName u ++ (u.drop (leadingName u).length).takeWhile isBlank).length with
    | nil => simp
    | cons d ds => simp
  unfold call
  simp only [hname, hgap, hparen]

theorem stopsAtBreak_word : StopsAtBreak word := by
  intro ts u x
  simp only [word, leadingName_append (stops_break (by decide) x),
    leadingUnitWord_append (stops_break (by decide) x)]

theorem stopsAtBreak_unclosedString : StopsAtBreak unclosedString := by
  intro ts u x
  cases u with
  | nil => rfl
  | cons c u =>
    simp only [unclosedString, List.cons_append, unclosedTail?_append_break]

theorem stopsAtBreak_stringOpening : StopsAtBreak stringOpening := by
  intro ts u x
  cases u <;> rfl

theorem stopsAtBreak_bracket : StopsAtBreak bracket := by
  intro ts u x
  cases u <;> rfl

theorem stopsAtBreak_symbolRun : StopsAtBreak symbolRun := by
  intro ts u x
  have hrun : (u ++ '\n' :: x).takeWhile isSymbol = u.takeWhile isSymbol :=
    takeWhile_append_of_stops (stops_break (by decide) x)
  simp only [symbolRun, hrun]

theorem stopsAtBreak_stringEscape : StopsAtBreak stringEscape := by
  intro ts u x
  cases u with
  | nil => rfl
  | cons c u =>
    by_cases hc : c = '\\'
    · subst hc
      cases u <;> rfl
    · simp [stringEscape, hc]

theorem stopsAtBreak_unit (t : Transition) :
    StopsAtBreak fun ts cs => Step.one? .unit (leadingUnit ts cs) t := by
  intro ts u x
  simp only [leadingUnit_append ts (stops_break (by decide) x)]

theorem stopsAtBreak_group (t : Transition) : StopsAtBreak fun ts cs =>
    if opensUnitGroup ts cs then some (.one parenthesis ['('] t) else none := by
  intro ts u x
  simp only [opensUnitGroup_append ts (stops_break (by decide) x) (stops_break (by decide) x)]

theorem stopsAtBreak_exponent : StopsAtBreak exponent := by
  intro ts u x
  simp only [exponent, leadingInteger_append (stops_break (by decide) x)]

theorem stopsAtBreak_groupWord : StopsAtBreak groupWord := by
  intro ts u x
  simp only [groupWord, leadingUnitWord_append (stops_break (by decide) x)]

/-- A declaration ends in a name. -/
theorem not_endsLine_declaration {ts : Tables} {cs : List Char} {s : Step}
    (hs : declaration ts cs = some s) : ¬ EndsLine s.text := by
  obtain ⟨tail, -, -, hname, rfl⟩ := declaration_eq_some.mp hs
  intro hends
  simp only [Step.text, textOf, List.flatMap_cons, List.flatMap_nil, List.append_nil] at hends
  obtain ⟨line, hline⟩ := (hends.of_append (by simp [hname])).of_append hname
  have hbreak : '\n' ∈ leadingName (tail.drop (tail.takeWhile isSpace).length) := by
    rw [hline]
    simp
  exact absurd (isWordChar_of_mem_leadingName hbreak) (by decide)

/-- What such a rule takes stands on one line: the rule finds it without seeing
the first break in it. -/
theorem StopsAtBreak.break_notMem {r : Rule} (h : r.StopsAtBreak) (hf : r.Faithful) {ts : Tables}
    {cs : List Char} {s : Step} (hs : r ts cs = some s) : '\n' ∉ s.text := by
  intro hmem
  obtain ⟨line, more, htext⟩ := List.append_of_mem hmem
  obtain ⟨rest, hrest⟩ := (hf hs).text_isPrefix
  rw [← hrest, htext, List.append_assoc, List.cons_append, h] at hs
  have hle := (hf hs).text_isPrefix.length_le
  rw [htext, List.length_append, List.length_cons] at hle
  omega

end Rule

/-! ## §2 Modes at the end of a line -/

namespace Mode

open Rule

theorem handBack_mem_rules {m : Mode} (h : m.spansLines = false) : handBack ∈ m.rules := by
  cases m <;> simp [rules, spansLines] at h ⊢

/-- All rules stop at a line break but the one for white space and the one for
declarations, which belongs to the root. -/
theorem stopsAtBreak_of_mem_rules (m : Mode) : ∀ r ∈ m.rules,
    (r = spaces ∧ m.spansLines = true) ∨ (r = declaration ∧ m = .root) ∨ r.StopsAtBreak := by
  have hfirstUnit : firstUnit.StopsAtBreak := stopsAtBreak_unit _
  have hfirstGroup : firstGroup.StopsAtBreak := stopsAtBreak_group _
  have hfurtherUnit : furtherUnit.StopsAtBreak := stopsAtBreak_unit _
  have hfurtherGroup : furtherGroup.StopsAtBreak := stopsAtBreak_group _
  match m with
  | .root =>
    simp [rules, spansLines, delimiter, stopsAtBreak_comment, stopsAtBreak_number,
      stopsAtBreak_call, stopsAtBreak_word, stopsAtBreak_unclosedString,
      stopsAtBreak_stringOpening, stopsAtBreak_oneOf, stopsAtBreak_bracket,
      stopsAtBreak_symbolRun]
  | .whitespace => simp [rules, spansLines]
  | .string quote =>
    have hquote : '\n' ∉ [quote.char] := by cases quote <;> decide
    simp [rules, stringText, stringClosing, danglingBackslash, stopsAtBreak_run,
      stopsAtBreak_stringEscape, stopsAtBreak_oneOf, hquote, stopsAtBreak_handBack]
  | .expectUnit =>
    simp [rules, unitGap, stopsAtBreak_run, isBlank, hfirstUnit, hfirstGroup, stopsAtBreak_handBack]
  | .expectUnitAfterSpace =>
    simp [rules, hfirstUnit, hfirstGroup, stopsAtBreak_handBack]
  | .unitExpression =>
    simp [rules, unitBlank, unitProduct, unitPower, stopsAtBreak_run, stopsAtBreak_oneOf, isBlank,
      hfurtherUnit, hfurtherGroup, stopsAtBreak_handBack]
  | .unitExponent =>
    simp [rules, unitBlank, productForExponent, stopsAtBreak_exponent, stopsAtBreak_run,
      stopsAtBreak_oneOf, isBlank, stopsAtBreak_handBack]
  | .unitGroup =>
    simp [rules, spansLines, unitProduct, unitPower, nestedGroup, groupClosing,
      stopsAtBreak_groupWord, stopsAtBreak_oneOf]

/-- A mode that takes a line break at the end of a step stays open, and is one
of those that span lines. -/
theorem stay_of_text_endsLine {m : Mode} {ts : Tables} {cs : List Char} {s : Step}
    (h : m.step? ts cs = some s) (hends : EndsLine s.text) :
    s.transition = .stay ∧ m.spansLines = true := by
  obtain ⟨r, hr, hs⟩ := List.exists_of_findSome?_eq_some h
  rcases m.stopsAtBreak_of_mem_rules r hr with ⟨rfl, hm⟩ | ⟨rfl, -⟩ | hstops
  · obtain ⟨-, rfl⟩ := run_eq_some.mp hs
    exact ⟨rfl, hm⟩
  · exact absurd hends (not_endsLine_declaration hs)
  · obtain ⟨line, hline⟩ := hends
    have hbreak := hstops.break_notMem (m.faithful_of_mem_rules r hr) hs
    rw [hline] at hbreak
    simp at hbreak

end Mode

/-! ## §3 What follows a line -/

/-- The word `def` with nothing but white space behind it: a name on a later
line would make it a declaration. -/
def IsOpenDeclaration (cs : List Char) : Prop :=
  ∃ gap, cs = 'd' :: 'e' :: 'f' :: gap ∧ ∀ c ∈ gap, isSpace c = true

section

variable {ts : Tables} {cs b : List Char}

theorem Rule.StopsAtBreak.append {r : Rule} (h : r.StopsAtBreak) (hcs : EndsLine cs) :
    r ts (cs ++ b) = r ts cs := by
  obtain ⟨line, rfl⟩ := hcs
  rw [List.append_assoc, List.singleton_append, h, h]

theorem spaces_append (hb : Stops isSpace b) : Rule.spaces ts (cs ++ b) = Rule.spaces ts cs := by
  simp only [Rule.spaces, Rule.run, takeWhile_append_of_stops hb]

theorem comment_eq_none (h : ∀ tail, cs ≠ '#' :: tail) : Rule.comment ts cs = none := by
  refine Option.eq_none_iff_forall_ne_some.mpr fun s hs => ?_
  obtain ⟨tail, htail, -⟩ := Rule.comment_eq_some.mp hs
  exact h tail htail

theorem declaration_eq_none (h : ∀ tail, cs ≠ 'd' :: 'e' :: 'f' :: tail) :
    Rule.declaration ts cs = none := by
  refine Option.eq_none_iff_forall_ne_some.mpr fun s hs => ?_
  obtain ⟨tail, htail, -⟩ := Rule.declaration_eq_some.mp hs
  exact h tail htail

/-- What follows a line does not make its start the word `def`. -/
theorem ne_def_append (hcs : EndsLine cs) (h : ∀ tail, cs ≠ 'd' :: 'e' :: 'f' :: tail) :
    ∀ tail, cs ++ b ≠ 'd' :: 'e' :: 'f' :: tail := by
  intro tail htail
  have hdef : ['d', 'e', 'f'] <+: cs ++ b := ⟨tail, htail.symm⟩
  rcases List.prefix_or_prefix_of_prefix hdef (List.prefix_append cs b) with hpre | hpre
  · obtain ⟨more, hmore⟩ := hpre
    exact h more hmore.symm
  · obtain ⟨line, rfl⟩ := hcs
    exact absurd (hpre.subset (List.mem_append_right line (List.mem_singleton_self _))) (by decide)

/-- A declaration is read alike unless its name could stand in what follows. -/
theorem declaration_append (hcs : EndsLine cs) (hb : Stops isSpace b)
    (hopen : ¬ IsOpenDeclaration cs) :
    Rule.declaration ts (cs ++ b) = Rule.declaration ts cs := by
  by_cases hdef : ∃ tail, cs = 'd' :: 'e' :: 'f' :: tail
  · obtain ⟨tail, rfl⟩ := hdef
    have hgap : (tail ++ b).takeWhile isSpace = tail.takeWhile isSpace :=
      takeWhile_append_of_stops hb
    have hdrop : (tail ++ b).drop (tail.takeWhile isSpace).length =
        tail.drop (tail.takeWhile isSpace).length ++ b :=
      drop_append_of_isPrefix (List.takeWhile_prefix isSpace)
    have hrest : tail.drop (tail.takeWhile isSpace).length ≠ [] := by
      intro hnil
      have hall : tail.takeWhile isSpace = tail :=
        (List.takeWhile_prefix isSpace).eq_of_length_le (List.drop_eq_nil_iff.mp hnil)
      refine hopen ⟨tail, rfl, ?_⟩
      rw [← hall]
      exact List.all_eq_true.mp List.all_takeWhile
    have hname : leadingName (tail.drop (tail.takeWhile isSpace).length ++ b) =
        leadingName (tail.drop (tail.takeWhile isSpace).length) := by
      have htail : EndsLine (['d', 'e', 'f'] ++ tail) := hcs
      rw [← List.take_append_drop (tail.takeWhile isSpace).length tail,
        ← List.append_assoc] at htail
      obtain ⟨line, hline⟩ := htail.of_append hrest
      have hstops : ∀ x, Stops isWordChar ('\n' :: x) := stops_break rfl
      rw [hline, List.append_assoc, List.singleton_append, leadingName_append (hstops b),
        leadingName_append (hstops [])]
    simp only [List.cons_append, Rule.declaration, hgap, hdrop, hname]
  · have hne : ∀ tail, cs ≠ 'd' :: 'e' :: 'f' :: tail := fun tail htail => hdef ⟨tail, htail⟩
    rw [declaration_eq_none hne, declaration_eq_none (ne_def_append hcs hne)]

/-- A text that ends in a line break is read alike whatever follows it. -/
theorem Mode.step?_append_of_endsLine {m : Mode} (hcs : EndsLine cs) (hb : Stops isSpace b)
    (hopen : m = .root → ¬ IsOpenDeclaration cs) : m.step? ts (cs ++ b) = m.step? ts cs := by
  refine Mode.step?_eq_of_rules fun r hr => ?_
  rcases m.stopsAtBreak_of_mem_rules r hr with ⟨rfl, -⟩ | ⟨rfl, hm⟩ | hstops
  · exact spaces_append hb
  · exact declaration_append hcs hb (hopen hm)
  · exact hstops.append hcs

end

end UnitLexer
