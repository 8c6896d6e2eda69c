/-
UnitLexer.Proofs.Lookups — the words that the rules look up in the tables.

Rules classify by membership, and what they look up stands at the start of
their input: a name, a run of symbols, a unit word, or a part of one. `LooksUp`
says which words these are, table by table. Tables that list the same of them
at every place of a source (`Tables.AgreeOn`) give every rule the same answers
there, every mode the same steps and so the source the same tokens
(`tokenize_congr`).

The prefixes are a list that is tried in order. For what a token is the order
does not matter: whether a word reads as a unit depends on which prefixes there
are (`Tables.isUnit_iff`). So an entry that occurs nowhere in a source can be
added to its table or removed from it without a trace
(`tokenize_edit_of_absent`).
-/
import UnitLexer.Proofs.Answers
import UnitLexer.Proofs.Edits
import UnitLexer.Proofs.Run
import UnitLexer.Proofs.Scanning

namespace UnitLexer

open Rule

/-! ## §1 Units by membership -/

namespace Tables

variable {ts : Tables} {word p : String}

/-- A prefix fits where a base unit is what it leaves of the word. -/
theorem prefixed?_eq_some {r : Reading} : ts.prefixed? word p = some r ↔
    ∃ b ∈ ts.baseUnits, b ≠ "" ∧ word = p ++ b ∧ r = ⟨some p, b⟩ := by
  unfold prefixed?
  cases hrest : p.toList.isPrefixOf? word.toList with
  | none =>
    simp only [reduceCtorEq, false_iff]
    rintro ⟨b, -, -, rfl, -⟩
    have happ : p.toList.isPrefixOf? (p ++ b).toList = some b.toList := by
      rw [List.isPrefixOf?_eq_some_iff_append_eq, String.toList_append]
    rw [hrest] at happ
    contradiction
  | some cs =>
    rw [List.isPrefixOf?_eq_some_iff_append_eq] at hrest
    have hword : word = p ++ String.ofList cs := by
      rw [← String.toList_inj, String.toList_append, String.toList_ofList, hrest]
    cases cs with
    | nil =>
      simp only [reduceCtorEq, false_iff]
      rintro ⟨b, -, hne, hb, -⟩
      rw [hword, String.append_right_inj] at hb
      exact hne hb.symm
    | cons c cs =>
      dsimp only
      constructor
      · intro h
        split at h
        · next hmem => exact ⟨_, hmem, by simp, hword, (Option.some.inj h).symm⟩
        · contradiction
      · rintro ⟨b, hmem, -, hb, rfl⟩
        rw [hword, String.append_right_inj] at hb
        rw [hb, if_pos hmem]

theorem prefixed?_isSome : (ts.prefixed? word p).isSome = true ↔
    ∃ b ∈ ts.baseUnits, b ≠ "" ∧ word = p ++ b := by
  rw [Option.isSome_iff_exists]
  constructor
  · rintro ⟨r, hr⟩
    obtain ⟨b, hb, hne, hword, -⟩ := prefixed?_eq_some.mp hr
    exact ⟨b, hb, hne, hword⟩
  · rintro ⟨b, hb, hne, hword⟩
    exact ⟨_, prefixed?_eq_some.mpr ⟨b, hb, hne, hword, rfl⟩⟩

/-- A word reads as a unit if it is a prefix before a base unit, or a unit of its
own. The empty prefix makes no difference. -/
theorem isUnit_iff : ts.isUnit word = true ↔
    (∃ p ∈ ts.siPrefixes, ∃ b ∈ ts.baseUnits, p ≠ "" ∧ b ≠ "" ∧ word = p ++ b) ∨
      word ∈ ts.baseUnits ∨ word ∈ ts.otherUnits := by
  have hwhole : (ts.unprefixed? word).isSome = true ↔
      word ∈ ts.baseUnits ∨ word ∈ ts.otherUnits := by
    unfold unprefixed?
    split <;> simp_all
  rw [isUnit, reading?, Option.isSome_or, Bool.or_eq_true, List.findSome?_isSome_iff, hwhole]
  constructor
  · rintro (⟨p, hp, h⟩ | h)
    · obtain ⟨b, hb, hne, hword⟩ := prefixed?_isSome.mp h
      by_cases hempty : p = ""
      · subst hempty
        rw [String.empty_append] at hword
        exact .inr (.inl (hword ▸ hb))
      · exact .inl ⟨p, hp, b, hb, hempty, hne, hword⟩
    · exact .inr h
  · rintro (⟨p, hp, b, hb, -, hne, hword⟩ | h)
    · exact .inl ⟨p, hp, prefixed?_isSome.mpr ⟨b, hb, hne, hword⟩⟩
    · exact .inr h

end Tables

/-! ## §2 Lookups -/

/-- The word may be looked up in the table by a rule that has this input before
it. Of a unit word every start may be a prefix and every end a base unit. -/
def LooksUp (t : Table) (cs : List Char) (word : String) : Prop :=
  word ≠ "" ∧
    match t with
    | .keywords | .builtins => word.toList = leadingName cs
    | .operators => word.toList = cs.takeWhile isSymbol
    | .siPrefixes => word.toList <+: leadingUnitWord cs
    | .baseUnits => word.toList <:+ leadingUnitWord cs
    | .otherUnits => word.toList = leadingUnitWord cs
    | .knownUnits => word.toList = leadingName cs ∨ word.toList = leadingUnitWord cs

/-- What is looked up stands in the input. -/
theorem LooksUp.isInfix {t : Table} {cs : List Char} {word : String} (h : LooksUp t cs word) :
    word.toList <:+: cs := by
  have hname : leadingName cs <:+: cs := (leadingName_isPrefix cs).isInfix
  have hunit : leadingUnitWord cs <:+: cs := (leadingUnitWord_isPrefix cs).isInfix
  obtain ⟨-, h⟩ := h
  cases t with
  | keywords | builtins => exact h ▸ hname
  | operators => exact h ▸ (List.takeWhile_prefix isSymbol).isInfix
  | siPrefixes => exact h.isInfix.trans hunit
  | baseUnits => exact h.isInfix.trans hunit
  | otherUnits => exact h ▸ hunit
  | knownUnits =>
    rcases h with h | h
    · exact h ▸ hname
    · exact h ▸ hunit

/-- The tables list the same of all the words that are looked up anywhere in the
text. -/
def Tables.AgreeOn (ts ts' : Tables) (cs : List Char) : Prop :=
  ∀ tail, tail <:+ cs → ∀ t word, LooksUp t tail word →
    (word ∈ ts.entries t ↔ word ∈ ts'.entries t)

namespace Tables.AgreeOn

variable {ts ts' : Tables} {cs tail : List Char}

theorem of_isSuffix (h : ts.AgreeOn ts' cs) (htail : tail <:+ cs) : ts.AgreeOn ts' tail :=
  fun _ hend => h _ (hend.trans htail)

theorem lookup (h : ts.AgreeOn ts' cs) {t : Table} {word : String} (hword : LooksUp t cs word) :
    word ∈ ts.entries t ↔ word ∈ ts'.entries t :=
  h cs (List.suffix_refl cs) t word hword

theorem keyword (h : ts.AgreeOn ts' cs) (hne : leadingName cs ≠ []) :
    String.ofList (leadingName cs) ∈ ts.keywords ↔
      String.ofList (leadingName cs) ∈ ts'.keywords :=
  h.lookup (t := .keywords) ⟨by simpa using hne, by simp⟩

theorem builtin (h : ts.AgreeOn ts' cs) (hne : leadingName cs ≠ []) :
    String.ofList (leadingName cs) ∈ ts.builtins ↔
      String.ofList (leadingName cs) ∈ ts'.builtins :=
  h.lookup (t := .builtins) ⟨by simpa using hne, by simp⟩

theorem operator (h : ts.AgreeOn ts' cs) (hne : cs.takeWhile isSymbol ≠ []) :
    String.ofList (cs.takeWhile isSymbol) ∈ ts.operators ↔
      String.ofList (cs.takeWhile isSymbol) ∈ ts'.operators :=
  h.lookup (t := .operators) ⟨by simpa using hne, by simp⟩

theorem knownName (h : ts.AgreeOn ts' cs) (hne : leadingName cs ≠ []) :
    String.ofList (leadingName cs) ∈ ts.knownUnits ↔
      String.ofList (leadingName cs) ∈ ts'.knownUnits :=
  h.lookup (t := .knownUnits) ⟨by simpa using hne, .inl (by simp)⟩

theorem knownUnitWord (h : ts.AgreeOn ts' cs) (hne : leadingUnitWord cs ≠ []) :
    String.ofList (leadingUnitWord cs) ∈ ts.knownUnits ↔
      String.ofList (leadingUnitWord cs) ∈ ts'.knownUnits :=
  h.lookup (t := .knownUnits) ⟨by simpa using hne, .inr (by simp)⟩

/-- Prefixes, base units and whole words are all that decides about a unit. -/
theorem isUnit (h : ts.AgreeOn ts' cs) (hne : leadingUnitWord cs ≠ []) :
    ts.isUnit (String.ofList (leadingUnitWord cs)) =
      ts'.isUnit (String.ofList (leadingUnitWord cs)) := by
  have hbefore : ∀ p b, p ≠ "" → String.ofList (leadingUnitWord cs) = p ++ b →
      (p ∈ ts.siPrefixes ↔ p ∈ ts'.siPrefixes) := by
    intro p b hp hword
    refine h.lookup (t := .siPrefixes) ⟨hp, b.toList, ?_⟩
    rw [← String.toList_append, ← hword, String.toList_ofList]
  have hbehind : ∀ p b, b ≠ "" → String.ofList (leadingUnitWord cs) = p ++ b →
      (b ∈ ts.baseUnits ↔ b ∈ ts'.baseUnits) := by
    intro p b hb hword
    refine h.lookup (t := .baseUnits) ⟨hb, p.toList, ?_⟩
    rw [← String.toList_append, ← hword, String.toList_ofList]
  have hwhole : String.ofList (leadingUnitWord cs) ∈ ts.baseUnits ↔
      String.ofList (leadingUnitWord cs) ∈ ts'.baseUnits :=
    h.lookup (t := .baseUnits) ⟨by simpa using hne, by simp⟩
  have hother : String.ofList (leadingUnitWord cs) ∈ ts.otherUnits ↔
      String.ofList (leadingUnitWord cs) ∈ ts'.otherUnits :=
    h.lookup (t := .otherUnits) ⟨by simpa using hne, by simp⟩
  rw [Bool.eq_iff_iff, isUnit_iff, isUnit_iff, hwhole, hother]
  refine or_congr_left ⟨?_, ?_⟩
  · rintro ⟨p, hp, b, hb, hpne, hbne, hword⟩
    exact ⟨p, (hbefore p b hpne hword).mp hp, b, (hbehind p b hbne hword).mp hb, hpne, hbne, hword⟩
  · rintro ⟨p, hp, b, hb, hpne, hbne, hword⟩
    exact ⟨p, (hbefore p b hpne hword).mpr hp, b, (hbehind p b hbne hword).mpr hb, hpne, hbne, hword⟩

theorem leadingUnit (h : ts.AgreeOn ts' cs) : leadingUnit ts cs = leadingUnit ts' cs := by
  by_cases hne : leadingUnitWord cs = []
  · simp [UnitLexer.leadingUnit, hne]
  · simp only [UnitLexer.leadingUnit, h.isUnit hne]

/-- The look-ahead for a group looks a word up further on. -/
theorem opensUnitGroup (h : ts.AgreeOn ts' cs) :
    opensUnitGroup ts cs = opensUnitGroup ts' cs := by
  simp only [opensUnitGroup_eq, (h.of_isSuffix (List.dropWhile_suffix opensOrBlank)).leadingUnit]

end Tables.AgreeOn

/-! ## §3 Rules see no more of the tables -/

/-- The rule answers alike with tables that agree. -/
def Rule.Extensional (r : Rule) : Prop :=
  ∀ {ts ts' : Tables} {cs : List Char}, ts.AgreeOn ts' cs → r ts cs = r ts' cs

namespace Rule

/-- A rule that looks nothing up. -/
theorem extensional_of_eq {r : Rule} (h : ∀ ts ts' cs, r ts cs = r ts' cs) : r.Extensional :=
  fun _ => h _ _ _

theorem extensional_handBack : handBack.Extensional :=
  extensional_of_eq fun _ _ _ => rfl

theorem extensional_run (p : Char → Bool) (k : Kind) (t : Transition) : (run p k t).Extensional :=
  extensional_of_eq fun _ _ _ => rfl

theorem extensional_oneOf (chars : List Char) (k : Kind) (t : Transition) :
    (oneOf chars k t).Extensional :=
  extensional_of_eq fun _ _ cs => by cases cs <;> rfl

theorem extensional_comment : comment.Extensional := by
  refine extensional_of_eq fun ts ts' cs => ?_
  ext s
  rw [comment_eq_some, comment_eq_some]

theorem extensional_number : number.Extensional :=
  extensional_of_eq fun _ _ _ => rfl

/-- The word `def` starts a declaration whatever the keywords are. -/
theorem extensional_declaration : declaration.Extensional := by
  refine extensional_of_eq fun ts ts' cs => ?_
  ext s
  rw [declaration_eq_some, declaration_eq_some]

theorem extensional_unclosedString : unclosedString.Extensional :=
  extensional_of_eq fun _ _ cs => by cases cs <;> rfl

theorem extensional_stringOpening : stringOpening.Extensional :=
  extensional_of_eq fun _ _ cs => by cases cs <;> rfl

theorem extensional_stringEscape : stringEscape.Extensional := by
  refine extensional_of_eq fun ts ts' cs => ?_
  ext s
  rw [stringEscape_eq_some, stringEscape_eq_some]

theorem extensional_bracket : bracket.Extensional :=
  extensional_of_eq fun _ _ cs => by cases cs <;> rfl

theorem extensional_exponent : exponent.Extensional :=
  extensional_of_eq fun _ _ _ => rfl

theorem extensional_call : call.Extensional := by
  intro ts ts' cs h
  by_cases hne : leadingName cs = []
  · simp [call, hne]
  · simp only [call, h.keyword hne, h.builtin hne]

theorem extensional_word : word.Extensional := by
  intro ts ts' cs h
  have hkeyword := and_congr_right h.keyword
  have hbuiltin := and_congr_right h.builtin
  have hunit := and_congr_right h.knownUnitWord
  have hname := and_congr_right h.knownName
  simp only [word, hkeyword, hbuiltin, hunit, hname]

theorem extensional_symbolRun : symbolRun.Extensional := by
  intro ts ts' cs h
  by_cases hne : cs.takeWhile isSymbol = []
  · simp [symbolRun, Step.one?, hne]
  · simp only [symbolRun, h.operator hne]

theorem extensional_unit (t : Transition) :
    Extensional fun ts cs => Step.one? .unit (leadingUnit ts cs) t := by
  intro ts ts' cs h
  simp only [h.leadingUnit]

theorem extensional_group (t : Transition) : Extensional fun ts cs =>
    if opensUnitGroup ts cs then some (.one parenthesis ['('] t) else none := by
  intro ts ts' cs h
  simp only [h.opensUnitGroup]

theorem extensional_groupWord : groupWord.Extensional := by
  intro ts ts' cs h
  by_cases hne : leadingUnitWord cs = []
  · simp [groupWord, Step.one?, hne]
  · simp only [groupWord, h.isUnit hne]

end Rule

theorem Mode.extensional_of_mem_rules (m : Mode) : ∀ r ∈ m.rules, r.Extensional := by
  have hfirstUnit : firstUnit.Extensional := extensional_unit _
  have hfirstGroup : firstGroup.Extensional := extensional_group _
  have hfurtherUnit : furtherUnit.Extensional := extensional_unit _
  have hfurtherGroup : furtherGroup.Extensional := extensional_group _
  match m with
  | .root =>
    simp [rules, spaces, delimiter, extensional_comment, extensional_number,
      extensional_declaration, extensional_call, extensional_word, extensional_run,
      extensional_unclosedString, extensional_stringOpening, extensional_oneOf,
      extensional_bracket, extensional_symbolRun]
  | .whitespace => simp [rules, spaces, extensional_run]
  | .string quote =>
    simp [rules, stringText, stringClosing, danglingBackslash, extensional_run,
      extensional_stringEscape, extensional_oneOf, extensional_handBack]
  | .expectUnit =>
    simp [rules, unitGap, extensional_run, hfirstUnit, hfirstGroup, extensional_handBack]
  | .expectUnitAfterSpace =>
    simp [rules, hfirstUnit, hfirstGroup, extensional_handBack]
  | .unitExpression =>
    simp [rules, unitBlank, unitProduct, unitPower, extensional_run, extensional_oneOf,
      hfurtherUnit, hfurtherGroup, extensional_handBack]
  | .unitExponent =>
    simp [rules, unitBlank, productForExponent, extensional_exponent, extensional_run,
      extensional_oneOf, extensional_handBack]
  | .unitGroup =>
    simp [rules, spaces, unitProduct, unitPower, nestedGroup, groupClosing, extensional_run,
      extensional_groupWord, extensional_oneOf]

/-! ## §4 Runs with tables that agree -/

section

variable {ts ts' : Tables}

theorem Mode.step?_congr (m : Mode) {cs : List Char} (h : ts.AgreeOn ts' cs) :
    m.step? ts cs = m.step? ts' cs :=
  Mode.step?_eq_of_rules fun r hr => m.extensional_of_mem_rules r hr h

theorem settle_congr {cs : List Char} (h : ts.AgreeOn ts' cs) (frames : List Mode) :
    settle ts cs frames = settle ts' cs frames := by
  induction frames with
  | nil => rfl
  | cons m below ih => simp only [settle, m.step?_congr h, ih]

theorem advance_congr {c : Char} {cs : List Char} (h : ts.AgreeOn ts' (c :: cs))
    (frames : List Mode) : advance ts c cs frames = advance ts' c cs frames := by
  simp only [advance, settle_congr h, Mode.step?_congr _ h]

/-- A run is one with the other tables too. -/
theorem Reads.congr {frames frames' : List Mode} {cs rest : List Char} {ls : List Lexeme}
    (hrun : Reads ts frames cs ls frames' rest) (h : ts.AgreeOn ts' cs) :
    Reads ts' frames cs ls frames' rest := by
  induction hrun with
  | done => exact .done
  | step adv text _ ih =>
    rw [advance_congr h] at adv
    exact .step adv text (ih (h.of_isSuffix ⟨_, text.symm⟩))

/-- Tables that agree on all that is looked up in a source give it the same tokens. -/
theorem tokenize_congr {source : String} (h : ts.AgreeOn ts' source.toList) :
    tokenize ts source = tokenize ts' source := by
  obtain ⟨ls, frames, hrun, htok, -⟩ := exists_reads_source ts source
  rw [htok, tokenize_eq_of_reads (hrun.congr h)]

end

/-! ## §5 Tables that differ in one entry -/

/-- The tables list the same, but for one entry of one of them. -/
def Tables.AgreeApart (ts ts' : Tables) (t : Table) (e : String) : Prop :=
  ∀ u word, ¬ (u = t ∧ word = e) → (word ∈ ts.entries u ↔ word ∈ ts'.entries u)

/-- An entry that is not looked up makes no difference. -/
theorem Tables.AgreeApart.agreeOn {ts ts' : Tables} {t : Table} {e : String} {cs : List Char}
    (h : ts.AgreeApart ts' t e) (hno : ∀ tail, tail <:+ cs → ¬ LooksUp t tail e) :
    ts.AgreeOn ts' cs := by
  intro tail htail u word hword
  refine h u word ?_
  rintro ⟨rfl, rfl⟩
  exact hno tail htail hword

namespace WordLists

variable (ls : WordLists) (t : Table) (e : String)

theorem agreeApart_add : (ls.add t [e]).toTables.AgreeApart ls.toTables t e := by
  intro u word hne
  rw [mem_entries_toTables, mem_entries_toTables, mem_entries_add, List.mem_singleton]
  exact or_iff_left hne

theorem agreeApart_remove : (ls.remove t [e]).toTables.AgreeApart ls.toTables t e := by
  intro u word hne
  rw [mem_entries_toTables, mem_entries_toTables, mem_entries_remove, List.mem_singleton]
  exact and_iff_left hne

end WordLists

/-- Tables matter through words that occur in the source only: with an entry
that does not, added to any table or removed from it, the tokens are the same. -/
theorem tokenize_edit_of_absent (ls : WordLists) (t : Table) (e source : String)
    (habsent : ¬ e.toList <:+: source.toList) :
    tokenize (ls.add t [e]).toTables source = tokenize ls.toTables source ∧
      tokenize (ls.remove t [e]).toTables source = tokenize ls.toTables source := by
  have hno : ∀ tail, tail <:+ source.toList → ¬ LooksUp t tail e :=
    fun tail htail h => habsent (h.isInfix.trans htail.isInfix)
  exact ⟨tokenize_congr ((ls.agreeApart_add t e).agreeOn hno),
    tokenize_congr ((ls.agreeApart_remove t e).agreeOn hno)⟩

/-- The prefix `k` does not occur in `5 mm`, and without it that is the same
quantity of millimetres. -/
theorem tokenize_without_kilo :
    ¬ "k".toList <:+: "5 mm".toList ∧
    tokenize (WordLists.standard.remove .siPrefixes ["k"]).toTables "5 mm" =
      tokenize WordLists.standard.toTables "5 mm" := by
  have habsent : ¬ "k".toList <:+: "5 mm".toList := by decide
  have hedit := tokenize_edit_of_absent .standard .siPrefixes "k" "5 mm" habsent
  exact ⟨habsent, hedit.2⟩

end UnitLexer
