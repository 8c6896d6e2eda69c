/-
UnitLexer.Proofs.InvalidCharacters — which characters are invalid, and where.

A character becomes an invalid token where no rule of the settled mode takes
anything. Only the root and a group of units can decline a character: every
other mode ends in the rule that hands the input back. What the two decline is
given here outright. A group declines what is neither white space nor the start
of a unit word nor one of its signs and parentheses (`step?_unitGroup_eq_none_iff`).
The root declines a few ASCII characters and, beyond ASCII, all but those that
start a known unit (`step?_root_eq_none_iff`).

No mode calls what it takes invalid (`Mode.kind_ne_invalid_of_step?`). So invalid
tokens are these characters, one at a time, and nothing else is lost: the modes
stay as they are (`invalid_iff_refused`).
-/
import UnitLexer.Proofs.AcceptedEntries
import UnitLexer.Proofs.Progress
import UnitLexer.Proofs.UnitWords

namespace UnitLexer

open Rule

/-! ## §1 What rules decline -/

section

variable {ts : Tables} {c : Char} {cs : List Char}

theorem Step.one?_eq_none {k : Kind} {text : List Char} {t : Transition} :
    Step.one? k text t = none ↔ text = [] := by
  simp [Step.one?]

theorem takeWhile_cons_eq_nil {p : Char → Bool} :
    (c :: cs).takeWhile p = [] ↔ p c = false := by
  cases hc : p c <;> simp [hc]

theorem leadingRun_cons_eq_nil {first other : Char → Bool} :
    leadingRun first other (c :: cs) = [] ↔ first c = false := by
  cases hc : first c <;> simp [leadingRun, hc]

theorem run_cons_eq_none {p : Char → Bool} {k : Kind} {t : Transition} :
    run p k t ts (c :: cs) = none ↔ p c = false :=
  Step.one?_eq_none.trans takeWhile_cons_eq_nil

theorem oneOf_cons_eq_none {chars : List Char} {k : Kind} {t : Transition} :
    oneOf chars k t ts (c :: cs) = none ↔ c ∉ chars := by
  simp [oneOf]

/-- A point alone decides nothing, so it is left to the delimiters. -/
theorem number_cons_eq_none (hpoint : c ≠ '.') :
    number ts (c :: cs) = none ↔ c.isDigit = false := by
  refine ⟨fun h => ?_, fun hdigit => number_eq_none hdigit hpoint⟩
  by_contra hdigit
  have hprefix : [c] <+: leadingNumber ([c] ++ cs) :=
    (IsNumber.plain (.whole (isDigits_singleton (by simpa using hdigit)))).isPrefix_leading cs
  exact hprefix.ne_nil (by simp) (Step.one?_eq_none.mp h)

/-- A word is declined where no name starts and no unit that is known. -/
theorem word_eq_none : word ts cs = none ↔ leadingName cs = [] ∧
    ¬ (leadingUnitWord cs ≠ [] ∧ String.ofList (leadingUnitWord cs) ∈ ts.knownUnits) := by
  constructor
  · intro h
    have hname : leadingName cs = [] := by
      by_contra hne
      exact word_ne_none hne h
    refine ⟨hname, fun hunit => ?_⟩
    simp [word, hname, hunit] at h
  · rintro ⟨hname, hunit⟩
    simp only [word, hname, hunit, ne_eq, not_true_eq_false, false_and, if_false]
    rfl

end

/-! ## §2 What the group and the root decline -/

/-- A character that a group of units does not take. -/
structure RefusedInGroup (c : Char) : Prop where
  space : isSpace c = false
  unit : isUnitStart c = false
  sign : c ∉ ['*', '/', '^', '(', ')']

/-- A character that the root does not take, in front of this text: one of a few
ASCII characters, a control character, or one beyond ASCII at which no known unit
starts. -/
def RefusedInRoot (ts : Tables) (c : Char) (cs : List Char) : Prop :=
  c ∈ ['$', '@', ';', '\\', '`'] ∨
    (c.toNat < 0x20 ∨ c.toNat = 0x7f) ∧ c ∉ ['\t', '\n', '\r'] ∨
    0x80 ≤ c.toNat ∧ ¬ (leadingUnitWord (c :: cs) ≠ [] ∧
      String.ofList (leadingUnitWord (c :: cs)) ∈ ts.knownUnits)

/-- The root takes the character whatever follows it and whatever the tables are. -/
def startsRootToken (c : Char) : Bool :=
  c == '#' || c.isDigit || isWordStart c || isSpace c || (Quote.ofChar? c).isSome ||
    [',', '.', ':'].contains c || (Bracket.ofChar? c).isSome || isSymbol c

section

variable {ts : Tables} {c : Char} {cs : List Char}

theorem step?_unitGroup_eq_none_iff :
    Mode.step? .unitGroup ts (c :: cs) = none ↔ RefusedInGroup c := by
  have hword : groupWord ts (c :: cs) = none ↔ isUnitStart c = false :=
    Step.one?_eq_none.trans leadingRun_cons_eq_nil
  have hrules : Mode.step? .unitGroup ts (c :: cs) = none ↔ isSpace c = false ∧
      isUnitStart c = false ∧ c ∉ ['*', '/'] ∧ c ∉ ['^'] ∧ c ∉ ['('] ∧ c ∉ [')'] := by
    simp only [Mode.step?, Mode.rules, List.findSome?_eq_none_iff, List.forall_mem_cons, spaces,
      unitProduct, unitPower, nestedGroup, groupClosing, run_cons_eq_none, hword,
      oneOf_cons_eq_none, List.not_mem_nil, false_implies, implies_true, and_true]
  rw [hrules]
  constructor
  · rintro ⟨hspace, hunit, hsign⟩
    exact ⟨hspace, hunit, by simpa [and_assoc] using hsign⟩
  · rintro ⟨hspace, hunit, hsign⟩
    exact ⟨hspace, hunit, by simpa [and_assoc] using hsign⟩

theorem startsRootToken_eq_false : startsRootToken c = false ↔ c ≠ '#' ∧ c.isDigit = false ∧
    isWordStart c = false ∧ isSpace c = false ∧ Quote.ofChar? c = none ∧ c ∉ [',', '.', ':'] ∧
    Bracket.ofChar? c = none ∧ isSymbol c = false := by
  simp only [startsRootToken, Bool.or_eq_false_iff, beq_eq_false_iff_ne, Option.isSome_eq_false_iff,
    Option.isNone_iff_eq_none, List.contains_eq_mem, decide_eq_false_iff_not, and_assoc, ne_eq]

/-- The rules of the root look at the first character, and at the known units. -/
theorem step?_root_eq_none : Mode.step? .root ts (c :: cs) = none ↔ startsRootToken c = false ∧
    ¬ (leadingUnitWord (c :: cs) ≠ [] ∧
      String.ofList (leadingUnitWord (c :: cs)) ∈ ts.knownUnits) := by
  rw [startsRootToken_eq_false]
  have hname : leadingName (c :: cs) = [] ↔ isWordStart c = false := leadingRun_cons_eq_nil
  have hsymbol : symbolRun ts (c :: cs) = none ↔ isSymbol c = false :=
    Step.one?_eq_none.trans takeWhile_cons_eq_nil
  constructor
  · intro h
    simp only [Mode.step?, Mode.rules, List.findSome?_eq_none_iff, List.forall_mem_cons] at h
    obtain ⟨hcomment, hnumber, -, -, hword, hspace, -, hquote, hdelimiter, hbracket, hrun, -⟩ := h
    obtain ⟨hstart, hunit⟩ := word_eq_none.mp hword
    have hsign := oneOf_cons_eq_none.mp hdelimiter
    have hpoint : c ≠ '.' := by
      rintro rfl
      exact hsign (by decide)
    exact ⟨⟨comment_cons_eq_none.mp hcomment, (number_cons_eq_none hpoint).mp hnumber,
      hname.mp hstart, run_cons_eq_none.mp hspace, Option.map_eq_none_iff.mp hquote, hsign,
      Option.map_eq_none_iff.mp hbracket, hsymbol.mp hrun⟩, hunit⟩
  · rintro ⟨⟨hhash, hdigit, hstart, hspace, hquote, hsign, hbracket, hrun⟩, hunit⟩
    have hpoint : c ≠ '.' := by
      rintro rfl
      exact hsign (by decide)
    have hcomment : comment ts (c :: cs) = none := comment_cons_eq_none.mpr hhash
    have hnumber : number ts (c :: cs) = none := (number_cons_eq_none hpoint).mpr hdigit
    have hdeclaration : declaration ts (c :: cs) = none := by
      refine declaration_eq_none fun tail htail => ?_
      obtain ⟨rfl, -⟩ := List.cons.inj htail
      contradiction
    have hcall : call ts (c :: cs) = none := by simp [call, hname.mpr hstart]
    have hword : word ts (c :: cs) = none := word_eq_none.mpr ⟨hname.mpr hstart, hunit⟩
    have hspaces : spaces ts (c :: cs) = none := run_cons_eq_none.mpr hspace
    have hdelimiter : delimiter ts (c :: cs) = none := oneOf_cons_eq_none.mpr hsign
    simp [Mode.step?, Mode.rules, hcomment, hnumber, hdeclaration, hcall, hword, hspaces,
      unclosedString, stringOpening, hquote, hdelimiter, bracket, hbracket, hsymbol.mpr hrun]

/-- Of the ASCII characters the root takes all but these. -/
theorem startsRootToken_ascii (h : c.toNat < 0x80) : startsRootToken c = false ↔
    c ∈ ['$', '@', ';', '\\', '`'] ∨
      (c.toNat < 0x20 ∨ c.toNat = 0x7f) ∧ c ∉ ['\t', '\n', '\r'] := by
  have hall : ∀ n < 0x80, startsRootToken (Char.ofNat n) = false ↔
      Char.ofNat n ∈ ['$', '@', ';', '\\', '`'] ∨
        (n < 0x20 ∨ n = 0x7f) ∧ Char.ofNat n ∉ ['\t', '\n', '\r'] := by decide
  simpa only [Char.ofNat_toNat] using hall c.toNat h

theorem not_alphanum_of_le (h : 0x80 ≤ c.toNat) : c.isDigit = false ∧ c.isAlpha = false := by
  -- Every range of letters or digits ends in ASCII, below the character.
  have hbelow : ∀ {d : Char}, d.toNat < 0x80 → ¬ c.val ≤ d.val :=
    fun hd hle => absurd (Nat.lt_of_le_of_lt (UInt32.le_iff_toNat_le.mp hle) hd) (Nat.not_lt.mpr h)
  have hdigit : c.isDigit = false := by
    change (decide (c.val ≥ '0'.val) && decide (c.val ≤ '9'.val)) = false
    rw [decide_eq_false (hbelow (by decide)), Bool.and_false]
  have hlower : c.isLower = false := by
    change (decide (c.val ≥ 'a'.val) && decide (c.val ≤ 'z'.val)) = false
    rw [decide_eq_false (hbelow (by decide)), Bool.and_false]
  have hupper : c.isUpper = false := by
    change decide (c.val ≥ 'A'.val ∧ c.val ≤ 'Z'.val) = false
    exact decide_eq_false fun hrange => hbelow (by decide) hrange.2
  have halpha : c.isAlpha = (c.isUpper || c.isLower) := rfl
  exact ⟨hdigit, by rw [halpha, hupper, hlower]; rfl⟩

/-- Beyond ASCII the root takes no character for its own sake. -/
theorem startsRootToken_of_le (h : 0x80 ≤ c.toNat) : startsRootToken c = false := by
  have hlisted : ∀ {chars : List Char}, (∀ d ∈ chars, d.toNat < 0x80) → c ∉ chars :=
    fun hchars hc => absurd (hchars c hc) (Nat.not_lt.mpr h)
  have hne : ∀ {d : Char}, d.toNat < 0x80 → c ≠ d := by
    rintro d hd rfl
    omega
  obtain ⟨hdigit, halpha⟩ := not_alphanum_of_le h
  refine startsRootToken_eq_false.mpr ⟨hne (by decide), hdigit, ?_, ?_, ?_, hlisted (by simp),
    ?_, ?_⟩
  · simp [isWordStart, halpha, hne (show '_'.toNat < 0x80 by decide)]
  · by_contra hspace
    rw [Bool.not_eq_false, isSpace_iff] at hspace
    rcases hspace with rfl | rfl | rfl | rfl <;> contradiction
  · refine Option.eq_none_iff_forall_ne_some.mpr fun quote hquote => ?_
    exact hne (by cases quote <;> decide) (Quote.ofChar?_eq_some.mp hquote)
  · refine List.find?_eq_none.mpr fun shape _ => ?_
    have hbracket : c ≠ shape.opening ∧ c ≠ shape.closing := by
      constructor <;> exact hne (by cases shape <;> decide)
    simp [hbracket.1.symm, hbracket.2.symm]
  · simpa [isSymbol] using hlisted (show ∀ d ∈ symbolChars, d.toNat < 0x80 by simp [symbolChars])

theorem isUnitStart_eq_isWordStart (h : c.toNat < 0x80) : isUnitStart c = isWordStart c := by
  have hascii : ¬ 0x80 ≤ c.toNat := Nat.not_le.mpr h
  simp [isUnitStart, hascii]

theorem step?_root_eq_none_iff :
    Mode.step? .root ts (c :: cs) = none ↔ RefusedInRoot ts c cs := by
  rw [step?_root_eq_none, RefusedInRoot]
  rcases Nat.lt_or_ge c.toNat 0x80 with hlt | hle
  · -- An ASCII character that starts a unit word starts a name.
    have hword : startsRootToken c = false → leadingUnitWord (c :: cs) = [] := by
      intro h
      rw [leadingUnitWord, leadingRun_cons_eq_nil, isUnitStart_eq_isWordStart hlt]
      exact (startsRootToken_eq_false.mp h).2.2.1
    have hbeyond : ¬ 0x80 ≤ c.toNat := Nat.not_le.mpr hlt
    simp only [hbeyond, false_and, or_false]
    rw [← startsRootToken_ascii hlt]
    exact and_iff_left_of_imp fun h hunit => hunit.1 (hword h)
  · have hlisted : c ∉ ['$', '@', ';', '\\', '`'] := by
      intro hc
      have hascii : ∀ d ∈ ['$', '@', ';', '\\', '`'], d.toNat < 0x80 := by simp
      exact absurd (hascii c hc) (Nat.not_lt.mpr hle)
    have hcontrol : ¬ (c.toNat < 0x20 ∨ c.toNat = 0x7f) := by omega
    simp only [startsRootToken_of_le hle, hlisted, hcontrol, hle, true_and, false_and, false_or]

end

/-! ## §3 No mode reads an invalid character -/

namespace Mode

variable {m : Mode} {ts : Tables} {cs text : List Char}

theorem Finds.kind_ne_invalid {k : Kind} {t : Transition} (h : m.Finds ts cs k text t) :
    k ≠ .invalid := by
  cases h <;> nofun

theorem Called.kind_ne_invalid {k : Kind} (h : Called ts text k) : k ≠ .invalid := by
  cases h <;> nofun

/-- What a mode takes it gives another kind than that of invalid characters. -/
theorem kind_ne_invalid_of_step? {s : Step} (h : m.step? ts cs = some s) :
    ∀ l ∈ s.lexemes, l.kind ≠ .invalid := by
  cases answers_of_step? h with
  | one hfinds => simpa [Step.one] using hfinds.kind_ne_invalid
  | declaration => simp
  | call hcalled => simpa [parenthesis] using hcalled.kind_ne_invalid
  | spacedCall hcalled => simpa [parenthesis] using hcalled.kind_ne_invalid
  | handBack => simp [Step.handBack]

end Mode

/-! ## §4 Invalid tokens -/

/-- The settled modes do not take the character: a group of units does not, or no
mode is open above the root and the root does not. -/
def Refused (ts : Tables) (settled : List Mode) (c : Char) (cs : List Char) : Prop :=
  (∃ below, settled = .unitGroup :: below) ∧ RefusedInGroup c ∨
    settled = [] ∧ RefusedInRoot ts c cs

section

variable {ts : Tables} {c : Char} {cs : List Char} {settled : List Mode}

theorem Refused.step?_eq_none (h : Refused ts settled c cs) :
    (currentMode settled).step? ts (c :: cs) = none := by
  rcases h with ⟨⟨below, rfl⟩, hc⟩ | ⟨rfl, hc⟩
  · exact step?_unitGroup_eq_none_iff.mpr hc
  · exact step?_root_eq_none_iff.mpr hc

/-- Every other mode has a rule for everything. -/
theorem refused_of_step?_eq_none (hopen : OpenFrames settled)
    (h : (currentMode settled).step? ts (c :: cs) = none) : Refused ts settled c cs := by
  cases hspans : (currentMode settled).spansLines with
  | false =>
    have hsome := Mode.step?_isSome hspans ts (c :: cs)
    rw [h] at hsome
    contradiction
  | true =>
    rcases hopen.of_spansLines hspans with rfl | ⟨below, rfl⟩
    · exact .inr ⟨rfl, step?_root_eq_none_iff.mp h⟩
    · exact .inl ⟨⟨below, rfl⟩, step?_unitGroup_eq_none_iff.mp h⟩

/-- A step of the lexer reads an invalid character only where it is refused, and
then nothing else. -/
theorem refused_of_invalid_mem {frames : List Mode} {l : Lexeme} (hopen : OpenFrames frames)
    (hl : l ∈ (advance ts c cs frames).1) (hkind : l.kind = .invalid) :
    Refused ts (settle ts (c :: cs) frames) c cs ∧
      advance ts c cs frames = ([invalidLexeme c], settle ts (c :: cs) frames) := by
  rcases advance_cases ts c cs frames with ⟨s, hs, -, hadv⟩ | ⟨hnone, hadv⟩
  · rw [hadv] at hl
    exact absurd hkind (Mode.kind_ne_invalid_of_step? hs l hl)
  · refine ⟨refused_of_step?_eq_none hopen.settle ?_, hadv⟩
    -- An answer of the settled mode would take something.
    exact Option.eq_none_iff_forall_ne_some.mpr fun s hs => text_ne_nil_of_settled hs (hnone s hs)

end

/-- Invalid tokens are the characters that the settled modes refuse. Each of them
is one such character, read by a step that reads nothing else and leaves the
settled modes open. And where a lexer stands at such a character its next step
reads it so. -/
theorem invalid_iff_refused (ts : Tables) :
    (∀ source before l after, lexemes ts source = before ++ l :: after → l.kind = .invalid →
      ∃ k c, l = ⟨.invalid, [c]⟩ ∧ (Lexer.atStep ts source k).readSoFar = before ∧
        (Lexer.atStep ts source k).rest = c :: textOf after ∧
        Refused ts (Lexer.atStep ts source k).settledFrames c (textOf after) ∧
        (Lexer.atStep ts source (k + 1)).readSoFar = before ++ [l] ∧
        (Lexer.atStep ts source (k + 1)).state.frames =
          (Lexer.atStep ts source k).settledFrames) ∧
    ∀ (l : Lexer) (c : Char) (cs : List Char), l.tables = ts → l.rest = c :: cs →
      Refused ts l.settledFrames c cs →
      l.step = { l with
        rest := cs
        state := ⟨l.state.pos + byteLength [c], l.settledFrames⟩
        pending := l.pending ++ [⟨.invalid, String.ofList [c], l.state.pos⟩] } := by
  refine ⟨fun source before l after h hkind => ?_, fun l c cs hts hrest hrefused => ?_⟩
  · obtain ⟨k, hle, hlt⟩ := exists_step_of_lexemes h
    obtain ⟨c, cs, us, vs, more, hr, hls, hbefore, -⟩ := lexemes_of_step h hle hlt
    have hmem : l ∈ (advance ts c cs (Lexer.atStep ts source k).state.frames).1 := by simp [hls]
    obtain ⟨hrefused, hadv⟩ := refused_of_invalid_mem (Lexer.openFrames_atStep k) hmem hkind
    rw [hadv] at hls
    obtain ⟨rfl, rfl⟩ := lexeme_of_singleton hls
    have hrest := rest_eq_of_lexemes h hbefore
    rw [hr] at hrest
    obtain rfl : cs = textOf after := (List.cons.inj hrest).2
    obtain ⟨-, hframes, hpend⟩ := Lexer.atStep_succ_eq hr hadv rfl
    rw [← Lexer.settledFrames_atStep hr] at hrefused hframes
    rw [List.append_nil] at hbefore
    refine ⟨k, c, rfl, hbefore.symm, hr, hrefused, ?_, hframes⟩
    rw [Lexer.readSoFar_eq_append hpend, hbefore]
  · subst hts
    rw [Lexer.settledFrames, hrest] at hrefused ⊢
    have hadv : advance l.tables c cs l.state.frames =
        ([invalidLexeme c], settle l.tables (c :: cs) l.state.frames) := by
      simp only [advance, hrefused.step?_eq_none]
    rw [Lexer.step_eq hrest hadv rfl]
    rfl

/-- A letter of a longer word is invalid where the word is no known unit, and so is
a character without a meaning in a group. -/
theorem refused_letter_and_sign :
    lexemes .standard "mètre" =
      [⟨.unit, ['m']⟩] ++ ⟨.invalid, ['è']⟩ :: [⟨.identifier, ['t', 'r', 'e']⟩] ∧
    (∃ k, Refused .standard (Lexer.atStep .standard "mètre" k).settledFrames 'è'
      ['t', 'r', 'e']) ∧
    (Lexer.atStep .standard "1(m@)" 3).rest = ['@', ')'] ∧
    Refused .standard (Lexer.atStep .standard "1(m@)" 3).settledFrames '@' [')'] ∧
    (Lexer.atStep .standard "1(m@)" 3).step.state.frames = unitFrames 1 := by
  have htokens : lexemes .standard "mètre" =
      [⟨.unit, ['m']⟩] ++ ⟨.invalid, ['è']⟩ :: [⟨.identifier, ['t', 'r', 'e']⟩] := by decide
  obtain ⟨k, c, hc, -, -, hrefused, -⟩ :=
    (invalid_iff_refused .standard).1 "mètre" _ _ _ htokens rfl
  obtain rfl : 'è' = c := List.singleton_inj.mp (Lexeme.mk.inj hc).2
  have hframes : (Lexer.atStep .standard "1(m@)" 3).settledFrames = unitFrames 1 := by decide
  have hrest : (Lexer.atStep .standard "1(m@)" 3).rest = ['@', ')'] := by decide
  have hsign : Refused .standard (Lexer.atStep .standard "1(m@)" 3).settledFrames '@' [')'] :=
    .inl ⟨⟨unitFrames 0, hframes⟩, ⟨by decide, by decide, by decide⟩⟩
  have hstep := (invalid_iff_refused .standard).2 _ '@' [')'] (Lexer.tables_atStep 3) hrest hsign
  refine ⟨htokens, ⟨k, hrefused⟩, hrest, hsign, ?_⟩
  rw [hstep, hframes]

end UnitLexer
