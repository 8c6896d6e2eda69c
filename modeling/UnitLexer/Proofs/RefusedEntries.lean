/-
UnitLexer.Proofs.RefusedEntries — what a refused entry would have done.

A table refuses an entry that the lexer could never produce for it. For six of
the tables that is so: what is looked up there has the shape of an entry
(`admits_of_looksUp`), so an entry of another shape, put past the check, changes
no token. The base units are different. What a unit word leaves behind a prefix
is looked up among them, and while the word starts with no digit its end may
start with one. So `2m` is refused, and read as a unit in `1 k2m`
(`inert_iff_of_refused`).
-/
import UnitLexer.Proofs.AcceptedEntries
import UnitLexer.Proofs.Kinds

namespace UnitLexer

/-! ## §1 The shape of what is looked up -/

section

variable {cs : List Char} {e : String}

/-- The start of a unit word is a unit word. -/
theorem isUnitWord_of_isPrefix (hne : e ≠ "") (h : e.toList <+: leadingUnitWord cs) :
    isUnitWord e = true := by
  obtain ⟨tail, htail⟩ := h
  have hlead : leadingUnitWord cs ≠ [] := by
    rw [← htail]
    simp [hne]
  obtain ⟨c, ds, hrun, hc, hds⟩ := leadingRun_cases hlead
  rw [leadingUnitWord, hrun] at htail
  cases hchars : e.toList with
  | nil => exact absurd hchars (by simpa using hne)
  | cons d ws =>
    rw [hchars, List.cons_append, List.cons.injEq] at htail
    obtain ⟨rfl, rfl⟩ := htail
    exact isUnitWord_iff_cons.mpr ⟨d, ws, hchars, hc, fun x hx => hds x (List.mem_append_left tail hx)⟩

/-- What is looked up in a table, but for the base units, is of the shape that
the table admits. -/
theorem admits_of_looksUp {t : Table} (h : LooksUp t cs e) (ht : t ≠ .baseUnits) : t.Admits e := by
  obtain ⟨hne, h⟩ := h
  have hname : e.toList = leadingName cs → isName e = true := by
    intro he
    have hlead : leadingName cs ≠ [] := by
      rw [← he]
      simpa using hne
    have := isName_leadingName hlead
    rwa [← he, String.ofList_toList] at this
  cases t with
  | keywords | builtins => exact hname h
  | operators =>
    refine .inr (.inl ?_)
    have hall : e.toList.all isSymbol = true := by
      rw [h]
      exact List.all_takeWhile
    simp [isSymbolRun, hne, hall]
  | siPrefixes => exact isUnitWord_of_isPrefix hne h
  | baseUnits => exact absurd rfl ht
  | otherUnits => exact isUnitWord_of_isPrefix hne ⟨[], (List.append_nil _).trans h⟩
  | knownUnits =>
    rcases h with h | h
    · exact isUnitWord_of_isName (hname h)
    · exact isUnitWord_of_isPrefix hne ⟨[], (List.append_nil _).trans h⟩

/-- What is looked up among the base units is the end of a unit word. -/
theorem unitChars_of_looksUp (h : LooksUp .baseUnits cs e) : e.toList.all isUnitChar = true :=
  List.all_eq_true.mpr fun _ hc => isUnitChar_of_mem_leadingUnitWord (h.2.subset hc)

/-- Such an end that is no unit word starts with a digit. -/
theorem any_isDigit_of_not_isUnitWord (hne : e ≠ "") (hchars : e.toList.all isUnitChar = true)
    (h : isUnitWord e ≠ true) : e.toList.any Char.isDigit = true := by
  cases he : e.toList with
  | nil => exact absurd he (by simpa using hne)
  | cons c tail =>
    rw [he] at hchars
    simp only [List.all_cons, Bool.and_eq_true, List.all_eq_true] at hchars
    refine List.any_eq_true.mpr ⟨c, List.mem_cons_self, ?_⟩
    by_contra hd
    refine h (isUnitWord_iff_cons.mpr ⟨c, tail, he, ?_, hchars.2⟩)
    simpa [isUnitChar, hd] using hchars.1

end

/-! ## §2 Digits in standard units -/

/-- The standard tables list units and prefixes without digits. -/
theorem standard_units_digitFree :
    ∀ t ∈ [Table.siPrefixes, .baseUnits, .otherUnits, .knownUnits],
      ∀ e ∈ Tables.standard.entries t, e.toList.any Char.isDigit = false := by decide

/-- With the standard tables no unit has a digit in it. -/
theorem any_isDigit_of_unit {source : String} {before after : List Lexeme} {l : Lexeme}
    (h : lexemes .standard source = before ++ l :: after) (hk : l.kind = .unit) :
    l.text.any Char.isDigit = false := by
  obtain ⟨k, hle, hlt⟩ := exists_step_of_lexemes h
  have hagrees := agrees_of_readIn h ⟨k, hle, hlt, rfl⟩
  rw [Agrees, hk] at hagrees
  have hword : l.text = (String.ofList l.text).toList := by simp
  rw [hword]
  obtain ⟨-, ⟨-, hknown⟩ | ⟨-, hunit⟩⟩ := hagrees
  · exact standard_units_digitFree .knownUnits (by simp) _ hknown
  · rcases Tables.isUnit_iff.mp hunit with ⟨p, hp, b, hb, -, -, hsplit⟩ | hbase | hother
    · rw [hsplit, String.toList_append, List.any_append, Bool.or_eq_false_iff]
      exact ⟨standard_units_digitFree .siPrefixes (by simp) p hp,
        standard_units_digitFree .baseUnits (by simp) b hb⟩
    · exact standard_units_digitFree .baseUnits (by simp) _ hbase
    · exact standard_units_digitFree .otherUnits (by simp) _ hother

/-! ## §3 Refused entries -/

section

variable {t : Table} {e : String} {f : EntryFault}

/-- An entry that is refused is looked up nowhere, but for the ends of unit words
among the base units. -/
theorem not_looksUp_of_refused (h : t.fault? e = some f)
    (hends : ¬ (t = .baseUnits ∧ e ≠ "" ∧ e.toList.all isUnitChar = true)) (cs : List Char) :
    ¬ LooksUp t cs e := by
  intro hlook
  by_cases ht : t = .baseUnits
  · subst ht
    exact hends ⟨rfl, hlook.1, unitChars_of_looksUp hlook⟩
  · rw [Table.fault?_eq_none_iff.mpr (admits_of_looksUp hlook ht)] at h
    contradiction

/-- An end of unit words behind the prefix `k` is read as a unit where it is a
base unit. -/
theorem tokenize_kilo (hne : e ≠ "") (hchars : e.toList.all isUnitChar = true) :
    tokenize (WordLists.standard.add .baseUnits [e]).toTables ("1 " ++ ("k" ++ e)) =
      quantityTokens ("k" ++ e) := by
  have hkilo : "k" ∈ (WordLists.standard.add .baseUnits [e]).toTables.entries .siPrefixes := by
    rw [WordLists.mem_entries_toTables, WordLists.mem_entries_add]
    exact .inl (by decide)
  have hbase := WordLists.standard.mem_entries_added .baseUnits e
  exact tokenize_prefixed (by decide) hkilo hne hchars hbase

/-- A refused entry makes no difference to any source, whatever the tables are,
unless it is made of the characters of unit words and refused as a base unit. -/
theorem inert_iff_of_refused (h : t.fault? e = some f) :
    (∀ (ls : WordLists) (source : String),
        tokenize (ls.add t [e]).toTables source = tokenize ls.toTables source) ↔
      ¬ (t = .baseUnits ∧ e ≠ "" ∧ e.toList.all isUnitChar = true) := by
  constructor
  · rintro hinert ⟨rfl, hne, hchars⟩
    have hshape : isUnitWord e ≠ true := by
      intro he
      rw [(Table.fault?_eq_none_iff (t := .baseUnits)).mpr he] at h
      contradiction
    have hdigit := any_isDigit_of_not_isUnitWord hne hchars hshape
    have htokens := tokenize_kilo hne hchars
    rw [hinert] at htokens
    have hlexemes : lexemes .standard ("1 " ++ ("k" ++ e)) =
        [⟨.number, ['1']⟩, ⟨.space, [' ']⟩] ++ [⟨.unit, ("k" ++ e).toList⟩] := by
      rw [lexemes, Tables.standard, htokens]
      rfl
    have hnone := any_isDigit_of_unit hlexemes rfl
    rw [String.toList_append, List.any_append, hdigit, Bool.or_true] at hnone
    contradiction
  · intro hends ls source
    refine tokenize_congr ((ls.agreeApart_add t e).agreeOn fun tail _ => ?_)
    exact not_looksUp_of_refused h hends tail

end

/-- A quotient is refused as a unit, and would be no unit of anything. -/
theorem quotient_inert :
    Table.fault? .otherUnits "m/s" = some .notUnitWord ∧
    ∀ (ls : WordLists) (source : String),
      tokenize (ls.add .otherUnits ["m/s"]).toTables source = tokenize ls.toTables source := by
  have hrefused : Table.fault? .otherUnits "m/s" = some .notUnitWord := by decide
  exact ⟨hrefused, (inert_iff_of_refused hrefused).mpr (by decide)⟩

/-- `2m` is refused as a base unit, and would be one behind a prefix. -/
theorem digit_before_metre_not_inert :
    Table.fault? .baseUnits "2m" = some .notUnitWord ∧
    tokenize (WordLists.standard.add .baseUnits ["2m"]).toTables "1 k2m" =
      [⟨.number, "1", 0⟩, ⟨.space, " ", 1⟩, ⟨.unit, "k2m", 2⟩] ∧
    tokenize WordLists.standard.toTables "1 k2m" =
      [⟨.number, "1", 0⟩, ⟨.space, " ", 1⟩, ⟨.identifier, "k2m", 2⟩] ∧
    ¬ ∀ (ls : WordLists) (source : String),
      tokenize (ls.add .baseUnits ["2m"]).toTables source = tokenize ls.toTables source := by
  have hadded : tokenize (WordLists.standard.add .baseUnits ["2m"]).toTables "1 k2m" =
      [⟨.number, "1", 0⟩, ⟨.space, " ", 1⟩, ⟨.unit, "k2m", 2⟩] := by decide
  have hplain : tokenize WordLists.standard.toTables "1 k2m" =
      [⟨.number, "1", 0⟩, ⟨.space, " ", 1⟩, ⟨.identifier, "k2m", 2⟩] := by decide
  refine ⟨by decide, hadded, hplain, fun hinert => ?_⟩
  rw [hinert, hplain] at hadded
  simp at hadded

end UnitLexer
