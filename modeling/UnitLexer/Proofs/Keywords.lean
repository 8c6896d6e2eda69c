/-
UnitLexer.Proofs.Keywords — which keyword tokens the keyword table lists.

Two rules of the root read keywords. The rule for words looks a name up in the
table. The rule for declarations compares the input with the letters `def` and
consults no table (`reads_declaration`), so a declaration is read even where
`def` has been taken out of the keywords. Nothing else escapes the table: a
keyword token that is not listed is the `def` of a declaration, and the tables
under which every keyword token of every source is listed are exactly those
that list `def` (`keywords_listed_iff`).
-/
import UnitLexer.Proofs.AcceptedEntries
import UnitLexer.Proofs.Kinds

namespace UnitLexer

open Rule

/-! ## §1 Declarations consult no table -/

section

variable {ts : Tables} {gap name rest : List Char}

theorem stops_isSpace_of_isName (hname : isName (String.ofList name) = true) (rest : List Char) :
    Stops isSpace (name ++ rest) := by
  obtain ⟨hne, hword⟩ := isName_iff.mp hname
  rw [String.toList_ofList] at hword
  cases name with
  | nil => exact absurd rfl hne
  | cons c cs =>
    refine stops_cons.mpr (isSpace_of_isUnitStart (isUnitStart_of_isWordStart ?_))
    by_contra hc
    simp [leadingName, leadingRun, hc] at hword

/-- The rule for declarations takes `def`, the white space behind it and the name. -/
theorem declaration_of_name (hgap : ∀ c ∈ gap, isSpace c = true) (hne : gap ≠ [])
    (hname : isName (String.ofList name) = true) (hrest : Stops isWordChar rest) :
    declaration ts ('d' :: 'e' :: 'f' :: (gap ++ (name ++ rest))) =
      some ⟨[⟨.keyword, ['d', 'e', 'f']⟩, ⟨.space, gap⟩, ⟨.declaration, name⟩], .stay⟩ := by
  have hspace : (gap ++ (name ++ rest)).takeWhile isSpace = gap :=
    takeWhile_append_of_all hgap (stops_isSpace_of_isName hname rest)
  obtain ⟨hnonempty, hword⟩ := isName_iff.mp hname
  rw [String.toList_ofList] at hword
  have hname_ne : name ≠ [] := by
    rintro rfl
    exact hnonempty rfl
  have hleading : leadingName ((gap ++ (name ++ rest)).drop gap.length) = name := by
    rw [List.drop_left, leadingName_append hrest, hword]
  exact declaration_eq_some.mpr ⟨_, rfl, by rwa [hspace], by rwa [hspace, hleading],
    by rw [hspace, hleading]⟩

/-- Under any tables the root reads a declaration where one stands. -/
theorem reads_declaration (hgap : ∀ c ∈ gap, isSpace c = true) (hne : gap ≠ [])
    (hname : isName (String.ofList name) = true) (hrest : Stops isWordChar rest) :
    Reads ts [] ('d' :: 'e' :: 'f' :: (gap ++ (name ++ rest)))
      [⟨.keyword, ['d', 'e', 'f']⟩, ⟨.space, gap⟩, ⟨.declaration, name⟩] [] rest := by
  have hcomment : comment ts ('d' :: 'e' :: 'f' :: (gap ++ (name ++ rest))) = none :=
    comment_eq_none (by simp)
  have hnumber : number ts ('d' :: 'e' :: 'f' :: (gap ++ (name ++ rest))) = none :=
    number_eq_none (by decide) (by decide)
  have hstep : (currentMode []).step? ts ('d' :: 'e' :: 'f' :: (gap ++ (name ++ rest))) =
      some ⟨[⟨.keyword, ['d', 'e', 'f']⟩, ⟨.space, gap⟩, ⟨.declaration, name⟩], .stay⟩ := by
    simp [currentMode, Mode.step?, Mode.rules, hcomment, hnumber,
      declaration_of_name hgap hne hname hrest]
  exact Reads.of_step? hstep (by simp [Step.text, textOf]) (by simp [Step.text, textOf])

end

/-! ## §2 The keyword tokens of a source -/

/-- Every keyword token of the source is a word of the keyword table. -/
def KeywordsListed (ts : Tables) (source : String) : Prop :=
  ∀ t ∈ tokenize ts source, t.kind = .keyword → t.text ∈ ts.keywords

section

variable {ts : Tables} {source : String} {before after : List Lexeme} {l : Lexeme}

/-- A token stands somewhere among the tokens of its source. -/
theorem exists_lexemes_of_mem {t : Token} (h : t ∈ tokenize ts source) :
    ∃ before after, lexemes ts source = before ++ t.lexeme :: after :=
  List.append_of_mem (List.mem_map_of_mem h)

theorem exists_token_of_mem (h : l ∈ lexemes ts source) :
    ∃ t ∈ tokenize ts source, t.kind = l.kind ∧ t.text = String.ofList l.text := by
  obtain ⟨t, ht, rfl⟩ := List.mem_map.mp h
  exact ⟨t, ht, rfl, String.ofList_toList.symm⟩

/-- Every token agrees with its kind in the mode in which it is read. -/
theorem exists_agrees (h : lexemes ts source = before ++ l :: after) :
    ∃ m, Agrees ts m before l after := by
  obtain ⟨k, hle, hlt⟩ := exists_step_of_lexemes h
  exact ⟨_, agrees_of_readIn h ⟨k, hle, hlt, rfl⟩⟩

/-- A keyword that is not listed is the `def` of a declaration. -/
theorem keyword_listed_or_declares (h : lexemes ts source = before ++ l :: after)
    (hl : l.kind = .keyword) : String.ofList l.text ∈ ts.keywords ∨
      String.ofList l.text = "def" ∧
        ∃ gap name more, after = ⟨.space, gap⟩ :: ⟨.declaration, name⟩ :: more := by
  obtain ⟨m, hagrees⟩ := exists_agrees h
  simp only [Agrees, hl] at hagrees
  exact hagrees.2

/-- In front of a declared name stands the keyword `def`. -/
theorem def_mem_of_declaration_mem {t : Token} (h : t ∈ tokenize ts source)
    (ht : t.kind = .declaration) :
    ∃ u ∈ tokenize ts source, u.kind = .keyword ∧ u.text = "def" := by
  obtain ⟨us, vs, hus⟩ := exists_lexemes_of_mem h
  obtain ⟨m, hagrees⟩ := exists_agrees hus
  have hkind : t.lexeme.kind = .declaration := ht
  simp only [Agrees, hkind] at hagrees
  obtain ⟨-, earlier, gap, rfl⟩ := hagrees
  have hmem : ⟨.keyword, ['d', 'e', 'f']⟩ ∈ lexemes ts source := by simp [hus]
  exact exists_token_of_mem hmem

theorem keywordsListed_iff : KeywordsListed ts source ↔
    "def" ∈ ts.keywords ∨ ∀ t ∈ tokenize ts source, t.kind ≠ .declaration := by
  constructor
  · intro hlisted
    by_cases hdef : "def" ∈ ts.keywords
    · exact .inl hdef
    · refine .inr fun t ht hkind => hdef ?_
      obtain ⟨u, hu, hkeyword, htext⟩ := def_mem_of_declaration_mem ht hkind
      exact htext ▸ hlisted u hu hkeyword
  · intro h t ht hkeyword
    obtain ⟨us, vs, hus⟩ := exists_lexemes_of_mem ht
    have hcases := keyword_listed_or_declares hus hkeyword
    simp only [Token.lexeme, String.ofList_toList] at hcases
    rcases hcases with hlisted | ⟨hdef, gap, name, more, rfl⟩
    · exact hlisted
    · rw [hdef]
      refine h.resolve_right fun hnone => ?_
      have hmem : ⟨.declaration, name⟩ ∈ lexemes ts source := by simp [hus]
      obtain ⟨u, hu, hkind, -⟩ := exists_token_of_mem hmem
      exact hnone u hu hkind

end

/-- Keyword tokens come from the keyword table, but for one: a keyword token that
is not listed is the `def` of a declaration. So a source keeps to the table
exactly where the table lists `def` or nothing is declared, and all sources do
exactly where it lists `def`. -/
theorem keywords_listed_iff (ts : Tables) :
    (∀ source, ∀ before l after, lexemes ts source = before ++ l :: after → l.kind = .keyword →
      String.ofList l.text ∈ ts.keywords ∨ String.ofList l.text = "def" ∧
        ∃ gap name more, after = ⟨.space, gap⟩ :: ⟨.declaration, name⟩ :: more) ∧
    (∀ source, KeywordsListed ts source ↔
      "def" ∈ ts.keywords ∨ ∀ t ∈ tokenize ts source, t.kind ≠ .declaration) ∧
    ((∀ source, KeywordsListed ts source) ↔ "def" ∈ ts.keywords) := by
  refine ⟨fun source before l after => keyword_listed_or_declares,
    fun source => keywordsListed_iff, fun hall => ?_, fun hdef source => ?_⟩
  · have hname : isName (String.ofList ['f']) = true := by decide
    have hgap : ∀ c ∈ [' '], isSpace c = true := by simp [isSpace, isBlank]
    have hrun : Reads ts [] ("def f").toList
        [⟨.keyword, ['d', 'e', 'f']⟩, ⟨.space, [' ']⟩, ⟨.declaration, ['f']⟩] [] [] :=
      reads_declaration hgap (by simp) hname (stops_nil _)
    refine (keywordsListed_iff.mp (hall "def f")).resolve_right fun hnone => ?_
    rw [tokenize_eq_of_reads hrun] at hnone
    exact hnone ⟨.declaration, "f", 4⟩ (by decide) rfl
  · exact keywordsListed_iff.mpr (.inl hdef)

/-- Under the standard tables the `def` of a declaration is listed. -/
theorem listed_def :
    lexemes .standard "def f" =
      [] ++ ⟨.keyword, ['d', 'e', 'f']⟩ :: [⟨.space, [' ']⟩, ⟨.declaration, ['f']⟩] ∧
    "def" ∈ Tables.standard.keywords ∧ KeywordsListed .standard "def f" := by
  have htokens : lexemes .standard "def f" =
      [] ++ ⟨.keyword, ['d', 'e', 'f']⟩ :: [⟨.space, [' ']⟩, ⟨.declaration, ['f']⟩] := by decide
  have hlisted : "def" ∈ Tables.standard.keywords := by decide
  exact ⟨htokens, hlisted, (keywords_listed_iff .standard).2.2.mpr hlisted "def f"⟩

/-- With `def` taken out of the keywords a declaration still starts with a keyword. -/
theorem def_not_listed :
    tokenize (WordLists.standard.remove .keywords ["def"]).toTables "def f" =
      [⟨.keyword, "def", 0⟩, ⟨.space, " ", 3⟩, ⟨.declaration, "f", 4⟩] ∧
    "def" ∉ (WordLists.standard.remove .keywords ["def"]).toTables.keywords ∧
    ¬ KeywordsListed (WordLists.standard.remove .keywords ["def"]).toTables "def f" := by
  have htokens : tokenize (WordLists.standard.remove .keywords ["def"]).toTables "def f" =
      [⟨.keyword, "def", 0⟩, ⟨.space, " ", 3⟩, ⟨.declaration, "f", 4⟩] := by decide
  have hunlisted : "def" ∉ (WordLists.standard.remove .keywords ["def"]).toTables.keywords := by
    decide
  refine ⟨htokens, hunlisted, fun hlisted => hunlisted ?_⟩
  exact hlisted ⟨.keyword, "def", 0⟩ (by rw [htokens]; exact List.mem_cons_self) rfl

end UnitLexer
