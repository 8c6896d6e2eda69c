/-
UnitLexer.Proofs.AcceptedEntries — what the check of a configuration promises.

The check of an entry looks at its shape alone, and the rules decide on their
own what they take. `Live` says what an accepted entry should be good for: in
the tables it has been added to, it is read as what its table lists. Names and
unit words keep that promise, because the rules before `word` decline them.
A run of symbols keeps it unless it starts with a colon: a colon is taken as a
delimiter, alone, before any run is looked for (`live_iff_of_accepted`).
-/
import UnitLexer.Proofs.AppliedConfigs
import UnitLexer.Proofs.LineEnds
import UnitLexer.Proofs.Lookups
import UnitLexer.Proofs.UnitExpressions

namespace UnitLexer

open Rule

/-! ## §1 Configurations that add one entry -/

namespace WordLists

/-- An added entry is in its table. -/
theorem mem_entries_added (ls : WordLists) (t : Table) (e : String) :
    e ∈ (ls.add t [e]).toTables.entries t := by
  rw [mem_entries_toTables, mem_entries_add]
  exact .inr ⟨rfl, List.mem_singleton_self e⟩

end WordLists

namespace Config

/-- The configuration that adds an entry to a table and does nothing else. -/
def adding (t : Table) (e : String) : Config :=
  ({} : Config).set t { add := [e] }

theorem introduced_adding (t : Table) (e : String) : (adding t e).introduced = [(t, e)] := by
  cases t <;> rfl

theorem editAll_adding (t : Table) (e : String) (ls : WordLists) :
    (adding t e).editAll ls = ls.add t [e] := by
  cases t <;> simp [editAll_eq, Table.all, adding, set, TableEdit.apply]

/-- The configuration is accepted if the check finds no fault with the entry. -/
theorem apply_adding_eq_ok {t : Table} {e : String} {ls ls' : WordLists} :
    (adding t e).apply ls = .ok ls' ↔ t.fault? e = none ∧ ls.add t [e] = ls' := by
  simp [apply_eq_ok, firstFault?, introduced_adding, editAll_adding]

end Config

/-! ## §2 The shapes that the check asks for -/

section

variable {e : String} {c : Char} {cs : List Char}

theorem ne_empty_of_toList_eq_cons (h : e.toList = c :: cs) : e ≠ "" := by
  rintro rfl
  contradiction

theorem isName_iff : isName e = true ↔ e ≠ "" ∧ leadingName e.toList = e.toList := by
  simp [isName]

theorem isUnitWord_iff : isUnitWord e = true ↔ e ≠ "" ∧ leadingUnitWord e.toList = e.toList := by
  simp [isUnitWord]

/-- A unit word, character by character. -/
theorem isUnitWord_iff_cons : isUnitWord e = true ↔
    ∃ c cs, e.toList = c :: cs ∧ isUnitStart c = true ∧ ∀ d ∈ cs, isUnitChar d = true := by
  rw [isUnitWord_iff]
  constructor
  · rintro ⟨hne, hword⟩
    have hlead : leadingUnitWord e.toList ≠ [] := by
      rw [hword]
      simpa using hne
    obtain ⟨c, cs, hrun, hc, hcs⟩ := leadingRun_cases hlead
    exact ⟨c, cs, hword.symm.trans hrun, hc, hcs⟩
  · rintro ⟨c, cs, he, hc, hcs⟩
    refine ⟨ne_empty_of_toList_eq_cons he, ?_⟩
    rw [he]
    exact leadingRun_eq_self hc hcs

/-- A name is a unit word too. -/
theorem isUnitWord_of_isName (h : isName e = true) : isUnitWord e = true := by
  obtain ⟨hne, hname⟩ := isName_iff.mp h
  have hword : isUnitWord (String.ofList (leadingName e.toList)) = true :=
    isUnitWord_leadingName (by simpa [hname] using hne)
  rwa [hname, String.ofList_toList] at hword

/-- The shape of the entries that a table can hold. None of these is empty. -/
def Table.Admits (t : Table) (e : String) : Prop :=
  match t with
  | .keywords | .builtins => isName e = true
  | .operators => e = "[]" ∨ isSymbolRun e = true ∨ isName e = true
  | .siPrefixes | .baseUnits | .otherUnits | .knownUnits => isUnitWord e = true

theorem Table.fault?_eq_none_iff {t : Table} : t.fault? e = none ↔ t.Admits e := by
  have hite : ∀ (p : Prop) [Decidable p] (f : EntryFault),
      (if p then none else some f) = none ↔ p := by
    intro p _ f
    split <;> simp_all
  by_cases he : e = ""
  · subst he
    cases t <;> simp [Table.fault?, Table.Admits, isName, isUnitWord, isSymbolRun]
  · unfold Table.fault?
    rw [if_neg he]
    cases t <;> exact hite _ _

theorem isDigit_of_isUnitStart (h : isUnitStart c = true) : c.isDigit = false := by
  have hdigits : ∀ n ≤ '9'.toNat, '0'.toNat ≤ n → isUnitStart (Char.ofNat n) = false := by decide
  by_contra hd
  rw [Bool.not_eq_false] at hd
  obtain ⟨hlow, hhigh⟩ := Char.isDigit_iff_toNat.mp hd
  have hstart := hdigits c.toNat hhigh hlow
  rw [Char.ofNat_toNat, h] at hstart
  contradiction

end

/-! ## §3 What the root mode reads whole -/

section

variable {ts : Tables} {c : Char} {cs : List Char} {e : String}

/-- A source that is read in one step is one token. -/
theorem tokenize_of_step? {k : Kind} (hne : e ≠ "")
    (h : Mode.step? .root ts e.toList = some (.one k e.toList .stay)) :
    tokenize ts e = [⟨k, e, 0⟩] := by
  have hrun : Reads ts [] e.toList [⟨k, e.toList⟩] [] [] :=
    Reads.of_step? (s := .one k e.toList .stay) h (by simp) (by simpa using hne)
  rw [tokenize_eq_of_reads hrun]
  simp [place]

theorem comment_cons_eq_none : comment ts (c :: cs) = none ↔ c ≠ '#' := by
  constructor
  · rintro h rfl
    simp [comment] at h
  · exact fun hc => comment_eq_none fun tail htail => hc (List.cons.inj htail).1

/-- A number starts with a digit or a point. -/
theorem number_eq_none (hdigit : c.isDigit = false) (hpoint : c ≠ '.') :
    number ts (c :: cs) = none := by
  simp [number, Step.one?, leadingNumber, leadingMantissa, leadingDigits, leadingFraction, hdigit,
    hpoint]

/-- The rules before the one for words decline an input that is one unit word. -/
theorem step?_root_of_unitWord (hc : isUnitStart c = true) (hcs : ∀ d ∈ cs, isUnitChar d = true)
    {s : Step} (hs : word ts (c :: cs) = some s) : Mode.step? .root ts (c :: cs) = some s := by
  have hchars : ∀ d ∈ c :: cs, isUnitChar d = true :=
    List.forall_mem_cons.mpr ⟨isUnitChar_of_isUnitStart hc, hcs⟩
  have hcomment : comment ts (c :: cs) = none := by
    refine comment_cons_eq_none.mpr ?_
    rintro rfl
    contradiction
  have hnumber : number ts (c :: cs) = none := by
    refine number_eq_none (isDigit_of_isUnitStart hc) ?_
    rintro rfl
    contradiction
  -- A declaration needs white space and a call a parenthesis.
  have hdeclaration : declaration ts (c :: cs) = none := by
    refine Option.eq_none_iff_forall_ne_some.mpr fun s' h => ?_
    obtain ⟨tail, hdef, hgap, -⟩ := declaration_eq_some.mp h
    obtain ⟨d, hd⟩ := List.exists_mem_of_ne_nil _ hgap
    have hspace : isSpace d = true := List.all_eq_true.mp List.all_takeWhile d hd
    have hmem : d ∈ c :: cs := by
      rw [hdef]
      simp [(List.takeWhile_prefix isSpace).subset hd]
    rcases isSpace_iff.mp hspace with rfl | rfl | rfl | rfl <;>
      exact absurd (hchars _ hmem) (by decide)
  have hcall : call ts (c :: cs) = none := by
    refine Option.eq_none_iff_forall_ne_some.mpr fun s' h => ?_
    obtain ⟨-, -, hparen, -⟩ := call_eq_some.mp h
    have hmem : '(' ∈ c :: cs := List.mem_of_mem_drop (List.mem_of_mem_head? hparen)
    exact absurd (hchars '(' hmem) (by decide)
  simp [Mode.step?, Mode.rules, hcomment, hnumber, hdeclaration, hcall, hs]

theorem tokenize_of_word {k : Kind} (he : isUnitWord e = true)
    (hs : word ts e.toList = some (.one k e.toList .stay)) : tokenize ts e = [⟨k, e, 0⟩] := by
  obtain ⟨c, cs, hchars, hc, hcs⟩ := isUnitWord_iff_cons.mp he
  refine tokenize_of_step? (ne_empty_of_toList_eq_cons hchars) ?_
  rw [hchars] at hs ⊢
  exact step?_root_of_unitWord hc hcs hs

/-- Where no comment, number or word starts, the root mode looks for white space,
strings and signs. -/
theorem step?_root_cons (hhash : c ≠ '#') (hpoint : c ≠ '.') (hunit : isUnitChar c = false) :
    Mode.step? .root ts (c :: cs) =
      [spaces, unclosedString, stringOpening, delimiter, bracket, symbolRun].findSome? fun rule =>
        rule ts (c :: cs) := by
  simp only [isUnitChar, Bool.or_eq_false_iff] at hunit
  obtain ⟨hstart, hdigit⟩ := hunit
  have hstops : Stops isUnitStart (c :: cs) := stops_cons.mpr hstart
  have hname : leadingName (c :: cs) = [] :=
    leadingName_of_stops (hstops.mono fun _ => isUnitStart_of_isWordStart)
  have hword : leadingUnitWord (c :: cs) = [] := leadingUnitWord_of_stops hstops
  have hcomment : comment ts (c :: cs) = none := comment_cons_eq_none.mpr hhash
  have hdeclaration : declaration ts (c :: cs) = none := by
    refine declaration_eq_none ?_
    rintro tail ⟨⟩
    contradiction
  have hcall : call ts (c :: cs) = none := by simp [call, hname]
  have hbare : word ts (c :: cs) = none := by simp [word, hname, hword, Step.one?]
  simp only [Mode.step?, Mode.rules, List.findSome?_cons, hcomment, number_eq_none hdigit hpoint,
    hdeclaration, hcall, hbare]

/-- A symbol that is no colon starts a run of symbols. -/
theorem step?_root_of_isSymbol (hc : isSymbol c = true) (hcolon : c ≠ ':') :
    Mode.step? .root ts (c :: cs) = symbolRun ts (c :: cs) := by
  have hsymbols : symbolChars.all (fun d => decide (d ≠ ':' → d ≠ '#' ∧ d ≠ '.' ∧
      isUnitChar d = false ∧ isSpace d = false ∧ Quote.ofChar? d = none ∧ d ∉ [',', '.', ':'] ∧
      Bracket.ofChar? d = none)) = true := by decide
  have hmem : c ∈ symbolChars := by simpa [isSymbol] using hc
  obtain ⟨hhash, hpoint, hunit, hspace, hquote, hdelimiter, hbracket⟩ :=
    of_decide_eq_true (List.all_eq_true.mp hsymbols c hmem) hcolon
  have hspaces : spaces ts (c :: cs) = none := run_eq_none (stops_cons.mpr hspace)
  have hunclosed : unclosedString ts (c :: cs) = none := by simp [unclosedString, hquote]
  have hopening : stringOpening ts (c :: cs) = none := by simp [stringOpening, hquote]
  have hdelimiter : delimiter ts (c :: cs) = none := oneOf_eq_none hdelimiter
  have hbracket : bracket ts (c :: cs) = none := by simp [bracket, hbracket]
  rw [step?_root_cons hhash hpoint hunit]
  simp [hspaces, hunclosed, hopening, hdelimiter, hbracket]

/-- A colon is a delimiter whatever symbols follow it. -/
theorem step?_root_colon : Mode.step? .root ts (':' :: cs) = some (.one .delimiter [':'] .stay) := by
  have hspaces : spaces ts (':' :: cs) = none := run_eq_none (stops_cons.mpr (by decide))
  rw [step?_root_cons (by decide) (by decide) (by decide)]
  simp [hspaces, unclosedString, stringOpening, Quote.ofChar?, delimiter, oneOf]

theorem tokenize_of_isSymbolRun (he : isSymbolRun e = true) (hcolon : e.toList.head? ≠ some ':')
    (hmem : e ∈ ts.operators) : tokenize ts e = [⟨.operator, e, 0⟩] := by
  simp only [isSymbolRun, Bool.and_eq_true, Bool.not_eq_true', List.all_eq_true] at he
  obtain ⟨hne, hall⟩ := he
  have hne : e ≠ "" := by simpa using hne
  refine tokenize_of_step? hne ?_
  have hrun : e.toList.takeWhile isSymbol = e.toList := by
    simpa using takeWhile_append_of_all hall (stops_nil isSymbol)
  have hstep : symbolRun ts e.toList = some (.one .operator e.toList .stay) := by
    rw [symbolRun_eq_some, hrun, String.ofList_toList, if_pos hmem]
    exact ⟨by simpa using hne, rfl⟩
  cases hchars : e.toList with
  | nil => exact absurd hchars (by simpa using hne)
  | cons c cs =>
    rw [hchars] at hstep hall hcolon
    rw [step?_root_of_isSymbol (hall c List.mem_cons_self) (by simpa using hcolon), hstep]

/-- A source that starts with a colon starts with a delimiter. -/
theorem exists_tokenize_of_colon (ts : Tables) (hcolon : e.toList.head? = some ':') :
    ∃ more, tokenize ts e = ⟨.delimiter, ":", 0⟩ :: more := by
  obtain ⟨tail, htail⟩ := List.head?_eq_some_iff.mp hcolon
  obtain ⟨ls, frames, hmore, -, -⟩ := exists_reads_source ts (String.ofList tail)
  rw [String.toList_ofList] at hmore
  have hfirst : Reads ts [] (':' :: tail) [⟨.delimiter, [':']⟩] [] tail :=
    Reads.of_step? (s := .one .delimiter [':'] .stay) step?_root_colon rfl (by simp)
  have hrun := hfirst.append hmore
  rw [← htail] at hrun
  rw [tokenize_eq_of_reads hrun]
  exact ⟨place 1 ls, rfl⟩

end

/-! ## §4 Units behind a number -/

/-- What should be read of a number, a blank and a unit. -/
def quantityTokens (unit : String) : List Token :=
  [⟨.number, "1", 0⟩, ⟨.space, " ", 1⟩, ⟨.unit, unit, 2⟩]

section

variable {ts : Tables} {e : String}

theorem tokenize_unit (he : isUnitWord e = true) (hreads : ts.isUnit e = true) :
    tokenize ts ("1 " ++ e) = quantityTokens e := by
  obtain ⟨hne, hword⟩ := isUnitWord_iff.mp he
  have hunit : IsUnit ts e.toList := ⟨hword, by simpa using hne, by simpa using hreads⟩
  obtain ⟨c, cs, hchars, hc⟩ := hunit.head
  have hblank : Stops isBlank e.toList := by
    rw [hchars]
    exact stops_cons.mpr (isBlank_of_isSpace (isSpace_of_isUnitStart hc))
  have hnumber : Reads ts [] (['1'] ++ ([' '] ++ e.toList)) [⟨.number, ['1']⟩] [.expectUnit]
      ([' '] ++ e.toList) :=
    reads_number (.plain (.whole (isDigits_singleton rfl))) (stops_cons.mpr (by decide))
  have hgap : Reads ts [.expectUnit] ([' '] ++ e.toList) [⟨.space, [' ']⟩]
      [.expectUnitAfterSpace] e.toList := reads_gap (by simp [isBlank]) (by simp) hblank
  have hlast : Reads ts [.expectUnitAfterSpace] e.toList [⟨.unit, e.toList⟩] [.unitExpression] [] :=
    reads_unitExpr_after_gap (.single (.plain (.word ⟨e.toList, hunit⟩)))
  have hrun := hnumber.append (hgap.append hlast)
  have hsource : ['1'] ++ ([' '] ++ e.toList) = ("1 " ++ e).toList := by simp
  have hbytes : byteLength ['1'] = 1 ∧ byteLength [' '] = 1 := by decide
  rw [hsource] at hrun
  rw [tokenize_eq_of_reads hrun]
  simp [place, quantityTokens, hbytes]

/-- A prefix goes before all base units that may continue a word. -/
theorem tokenize_prefixed {b : String} (he : isUnitWord e = true) (hprefixes : e ∈ ts.siPrefixes)
    (hb : b ≠ "") (hchars : b.toList.all isUnitChar = true) (hunits : b ∈ ts.baseUnits) :
    tokenize ts ("1 " ++ (e ++ b)) = quantityTokens (e ++ b) := by
  obtain ⟨c, cs, hcons, hc, hcs⟩ := isUnitWord_iff_cons.mp he
  have hword : isUnitWord (e ++ b) = true := by
    refine isUnitWord_iff_cons.mpr ⟨c, cs ++ b.toList, by simp [hcons], hc, ?_⟩
    intro d hd
    rcases List.mem_append.mp hd with hd | hd
    · exact hcs d hd
    · exact List.all_eq_true.mp hchars d hd
  have hne : e ≠ "" := ne_empty_of_toList_eq_cons hcons
  exact tokenize_unit hword (Tables.isUnit_iff.mpr (.inl ⟨e, hprefixes, b, hunits, hne, hb, rfl⟩))

end

/-! ## §5 Live entries -/

/-- The lexer reads the entry as what the table lists. Of the operators this is
about runs of symbols alone, since nothing else is looked up among them. -/
def Live (ts : Tables) (t : Table) (e : String) : Prop :=
  match t with
  | .keywords => tokenize ts e = [⟨.keyword, e, 0⟩]
  | .builtins => e ∉ ts.keywords → tokenize ts e = [⟨.builtin, e, 0⟩]
  | .operators => isSymbolRun e = true → tokenize ts e = [⟨.operator, e, 0⟩]
  | .siPrefixes => ∀ b ∈ ts.baseUnits, tokenize ts ("1 " ++ (e ++ b)) = quantityTokens (e ++ b)
  | .baseUnits | .otherUnits => tokenize ts ("1 " ++ e) = quantityTokens e
  | .knownUnits =>
    String.ofList (leadingName e.toList) ∉ ts.keywords →
    String.ofList (leadingName e.toList) ∉ ts.builtins → tokenize ts e = [⟨.unit, e, 0⟩]

section

variable {ts : Tables} {t : Table} {e : String}

theorem live_keyword (he : isName e = true) (hmem : e ∈ ts.keywords) : Live ts .keywords e := by
  obtain ⟨hne, hname⟩ := isName_iff.mp he
  refine tokenize_of_word (isUnitWord_of_isName he) ?_
  simp [word, hname, hne, hmem]

theorem live_builtin (he : isName e = true) (hmem : e ∈ ts.builtins) : Live ts .builtins e := by
  obtain ⟨hne, hname⟩ := isName_iff.mp he
  intro hkeyword
  refine tokenize_of_word (isUnitWord_of_isName he) ?_
  simp [word, hname, hne, hmem, hkeyword]

/-- A known unit is looked up as a unit word, after its name has been looked up
among the keywords and the builtins. -/
theorem live_knownUnit (he : isUnitWord e = true) (hmem : e ∈ ts.knownUnits) :
    Live ts .knownUnits e := by
  obtain ⟨hne, hword⟩ := isUnitWord_iff.mp he
  intro hkeyword hbuiltin
  refine tokenize_of_word he ?_
  simp [word, hword, hne, hmem, hkeyword, hbuiltin]

theorem live_prefix (he : isUnitWord e = true) (hmem : e ∈ ts.siPrefixes)
    (hunits : ∀ b ∈ ts.baseUnits, b ≠ "" ∧ b.toList.all isUnitChar = true) :
    Live ts .siPrefixes e :=
  fun b hb => tokenize_prefixed he hmem (hunits b hb).1 (hunits b hb).2 hb

/-- A run of symbols is live where no delimiter is its first symbol. -/
theorem live_operator_iff (hmem : e ∈ ts.operators) :
    Live ts .operators e ↔ (isSymbolRun e = true → e.toList.head? ≠ some ':') := by
  constructor
  · intro hlive hrun hcolon
    obtain ⟨more, hmore⟩ := exists_tokenize_of_colon ts hcolon
    rw [hlive hrun] at hmore
    simp at hmore
  · intro hcolon hrun
    exact tokenize_of_isSymbolRun hrun (hcolon hrun) hmem

/-- What may be listed among the operators and starts with a colon is a run of
symbols. -/
theorem isSymbolRun_of_colon (hcolon : e.toList.head? = some ':')
    (h : Table.operators.Admits e) : isSymbolRun e = true := by
  rcases h with rfl | hrun | hname
  · contradiction
  · exact hrun
  · obtain ⟨tail, htail⟩ := List.head?_eq_some_iff.mp hcolon
    have hstops : Stops isWordStart (':' :: tail) := stops_cons.mpr (by decide)
    simp [isName, htail, leadingName_of_stops hstops] at hname

/-- Every standard base unit may continue a word. -/
theorem standard_baseUnits_chars :
    ∀ b ∈ Table.standard .baseUnits, b ≠ "" ∧ b.toList.all isUnitChar = true := by decide

/-- An entry that is accepted for a table of the standard lists is live there,
but for operators that start with a colon. -/
theorem live_iff_of_accepted {ls : WordLists}
    (h : (Config.adding t e).apply .standard = .ok ls) :
    Live ls.toTables t e ↔ (t = .operators → e.toList.head? ≠ some ':') := by
  obtain ⟨hfault, rfl⟩ := Config.apply_adding_eq_ok.mp h
  have hshape : t.Admits e := Table.fault?_eq_none_iff.mp hfault
  have hmem := WordLists.standard.mem_entries_added t e
  cases t with
  | operators =>
    refine (live_operator_iff hmem).trans ⟨fun hlive _ hcolon => ?_, fun hcolon _ => hcolon rfl⟩
    exact hlive (isSymbolRun_of_colon hcolon hshape) hcolon
  | keywords => simpa using live_keyword hshape hmem
  | builtins => simpa using live_builtin hshape hmem
  | siPrefixes => simpa using live_prefix hshape hmem standard_baseUnits_chars
  | baseUnits =>
    simpa [Live] using tokenize_unit hshape (Tables.isUnit_iff.mpr (.inr (.inl hmem)))
  | otherUnits =>
    simpa [Live] using tokenize_unit hshape (Tables.isUnit_iff.mpr (.inr (.inr hmem)))
  | knownUnits => simpa using live_knownUnit hshape hmem

end

/-- The weber as a base unit. -/
theorem weber_live :
    (Config.adding .baseUnits "Wb").apply .standard =
      .ok (WordLists.standard.add .baseUnits ["Wb"]) ∧
    Live (WordLists.standard.add .baseUnits ["Wb"]).toTables .baseUnits "Wb" := by
  have haccepted := Config.apply_adding_eq_ok.mpr
    ⟨(by decide : Table.fault? .baseUnits "Wb" = none), (rfl : WordLists.standard.add _ _ = _)⟩
  exact ⟨haccepted, (live_iff_of_accepted haccepted).mpr (by decide)⟩

/-- `:=` is accepted as an operator, and read as a delimiter and an operator. -/
theorem colon_equals_not_live :
    (Config.adding .operators ":=").apply .standard =
      .ok (WordLists.standard.add .operators [":="]) ∧
    isSymbolRun ":=" = true ∧
    tokenize (WordLists.standard.add .operators [":="]).toTables ":=" =
      [⟨.delimiter, ":", 0⟩, ⟨.operator, "=", 1⟩] ∧
    ¬ Live (WordLists.standard.add .operators [":="]).toTables .operators ":=" := by
  have haccepted := Config.apply_adding_eq_ok.mpr
    ⟨(by decide : Table.fault? .operators ":=" = none), (rfl : WordLists.standard.add _ _ = _)⟩
  have htokens : tokenize (WordLists.standard.add .operators [":="]).toTables ":=" =
      [⟨.delimiter, ":", 0⟩, ⟨.operator, "=", 1⟩] := by decide
  refine ⟨haccepted, by decide, htokens, fun hlive => ?_⟩
  rw [hlive (by decide)] at htokens
  simp at htokens

end UnitLexer
