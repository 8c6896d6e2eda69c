/-
UnitLexer.Proofs.ByteScan — the rules find in bytes what they find in characters.

A scan refines a rule if, wherever its cursor stands between characters, it has
an answer, and the answer is that of the rule in bytes: the same kinds and the
same transition, and for the texts their lengths (`Scan.Refines`). All scans of
all modes refine the rules of the grammar, in the same order
(`refines_rules`), so no cut that a rule asks for is refused and no answer of a
mode ends inside a character (`firstAnswer_eq`).
-/
import UnitLexer.Bytes.Scan
import UnitLexer.Proofs.ByteCursor
import UnitLexer.Proofs.InvalidCharacters

namespace UnitLexer

/-- The piece that the lexeme is in bytes. -/
def Lexeme.measured (l : Lexeme) : Bytes.Piece :=
  ⟨l.kind, byteLength l.text⟩

/-- The step in bytes. -/
def Step.measured (s : Step) : Bytes.Scanned :=
  ⟨s.lexemes.map Lexeme.measured, s.transition⟩

namespace Bytes

open Rule (parenthesis)

/-! ## §1 Classes -/

section

variable {d : Char}

theorem isSpace_of_le (h : 0x80 ≤ d.toNat) : isSpace d = false :=
  (startsRootToken_eq_false.mp (startsRootToken_of_le h)).2.2.2.1

theorem isBlank_of_le (h : 0x80 ≤ d.toNat) : isBlank d = false := by
  rw [Bool.eq_false_iff]
  intro hblank
  have hspace := isSpace_of_le h
  rw [isSpace_of_isBlank hblank] at hspace
  contradiction

theorem isWordStart_of_le (h : 0x80 ≤ d.toNat) : isWordStart d = false :=
  (startsRootToken_eq_false.mp (startsRootToken_of_le h)).2.2.1

theorem isWordChar_of_le (h : 0x80 ≤ d.toNat) : isWordChar d = false := by
  have hstart := isWordStart_of_le h
  rw [isWordStart, Bool.or_eq_false_iff] at hstart
  rw [isWordChar, Char.isAlphanum, hstart.1, hstart.2, (not_alphanum_of_le h).1]
  rfl

theorem isSymbol_of_le (h : 0x80 ≤ d.toNat) : isSymbol d = false :=
  (startsRootToken_eq_false.mp (startsRootToken_of_le h)).2.2.2.2.2.2.2

theorem isPlain_of_le (quote : Quote) (h : 0x80 ≤ d.toNat) : isPlain quote d = true := by
  have hne : ∀ {e : Char}, e.toNat < 0x80 → d ≠ e := by
    rintro e he rfl
    omega
  exact isPlain_iff.mpr ⟨hne (by decide), hne (by cases quote <;> decide), hne (by decide)⟩

end

/-! ## §2 Refinement -/

/-- Wherever its cursor stands between characters, the scan answers as the rule does. -/
def Scan.Refines (scan : Scan) (r : Rule) : Prop :=
  ∀ {ts : Tables} {c : Cursor} {before rest : List Char}, c.At before rest →
    scan ts c = .ok ((r ts rest).map Step.measured)

@[simp] theorem measured_one (k : Kind) (text : List Char) (t : Transition) :
    (Step.one k text t).measured = Scanned.one k (byteLength text) t := rfl

theorem byteLength_of_ascii {cs : List Char} (h : ∀ d ∈ cs, d.toNat < 0x80) :
    byteLength cs = cs.length := by
  have hcodes := congrArg List.length (encoded_of_ascii h)
  rwa [encoded, List.length_map, ← utf8, length_utf8] at hcodes

theorem byteLength_of_lt {d : Char} (h : d.toNat < 0x80) : byteLength [d] = 1 :=
  byteLength_of_ascii (by simpa using h)

theorem one?_byteLength (k : Kind) (text : List Char) (t : Transition) :
    Scanned.one? k (byteLength text) t = (Step.one? k text t).map Step.measured := by
  by_cases h : text = []
  · simp [Scanned.one?, Step.one?, h]
  · simp [Scanned.one?, Step.one?, byteLength_eq_zero, h]

theorem measured_several (ls : List Lexeme) (t : Transition) :
    (Step.several ls t).measured = Scanned.several (ls.map Lexeme.measured) t := by
  have hempty : ((fun p : Piece => decide (p.length ≠ 0)) ∘ Lexeme.measured) =
      fun l => decide (l.text ≠ []) := by
    funext l
    simp [Lexeme.measured, byteLength_eq_zero]
  rw [Step.measured, Step.several, Scanned.several, List.filter_map, hempty]

namespace Scan

/-! ## §3 Rules of one shape -/

theorem refines_run {p : Char → Bool} (hp : SameBeyondAscii p) (k : Kind) (t : Transition) :
    (run p k t).Refines (Rule.run p k t) := by
  intro ts c before rest h
  rw [run, h.eatWhile_eq hp, Cursor.pos_advance, Nat.add_sub_cancel_left, one?_byteLength]
  rfl

theorem refines_oneOf {chars : List Char} (hchars : ∀ d ∈ chars, d.toNat < 0x80 ∧ d ≠ '\x00')
    (k : Kind) (t : Transition) : (oneOf chars k t).Refines (Rule.oneOf chars k t) := by
  intro ts c before rest h
  have hmem : c.current ∈ chars.map Char.toUInt8 ↔ ∃ d ∈ chars, rest.head? = some d := by
    rw [List.mem_map]
    refine exists_congr fun d => and_congr_right fun hd => ?_
    rw [eq_comm, h.current_eq_toUInt8 (hchars d hd).1 (hchars d hd).2]
  cases rest with
  | nil => simp [oneOf, Rule.oneOf, hmem]
  | cons d tail =>
    by_cases hd : d ∈ chars
    · have hone : byteLength [d] = 1 := byteLength_of_lt (hchars d hd).1
      simp [oneOf, Rule.oneOf, hmem, hd, hone]
    · simp [oneOf, Rule.oneOf, hmem, hd]

theorem refines_handBack : handBack.Refines Rule.handBack :=
  fun _ => rfl

end Scan

/-! ## §4 Words -/

section

variable {c : Cursor} {before rest : List Char}

/-- What stands at the cursor can be cut out. -/
theorem Cursor.At.lookahead_of_isPrefix (h : c.At before rest) {text : List Char}
    (htext : text <+: rest) : c.lookahead (byteLength text) = .ok (String.ofList text) := by
  obtain ⟨more, rfl⟩ := htext
  exact h.lookahead_eq

theorem nameLength_eq (h : c.At before rest) : nameLength c = byteLength (leadingName rest) := by
  have hstart : SameBeyondAscii isWordStart := ⟨false, fun _ => isWordStart_of_le⟩
  have hchar : SameBeyondAscii isWordChar := ⟨false, fun _ => isWordChar_of_le⟩
  rw [nameLength, h.eatWhile_eq hchar, Cursor.pos_advance, Nat.add_sub_cancel_left]
  cases rest with
  | nil =>
    rw [h.current_nil]
    rfl
  | cons d tail =>
    rw [codeIn, h.ofUInt8_current hstart]
    cases hd : isWordStart d with
    | true =>
      have hname : leadingName (d :: tail) = (d :: tail).takeWhile isWordChar := by
        simp [leadingName, leadingRun, hd, isWordChar_of_isWordStart hd]
      rw [if_pos rfl, hname]
    | false => simp [leadingName, leadingRun, hd]

theorem unitWordLength_eq (h : c.At before rest) :
    unitWordLength c = .ok (byteLength (leadingUnitWord rest)) := by
  rw [unitWordLength, h.char?_eq]
  cases rest with
  | nil => rfl
  | cons d tail =>
    cases hd : isUnitStart d with
    | true =>
      have hword : leadingUnitWord (d :: tail) = (d :: tail).takeWhile isUnitChar := by
        simp [leadingUnitWord, leadingRun, hd, isUnitChar_of_isUnitStart hd]
      simp [hd, h.eatCharWhile_eq, hword]
    | false => simp [hd, leadingUnitWord, leadingRun]

theorem unitLength?_eq (ts : Tables) (h : c.At before rest) : unitLength? ts c =
    .ok (if leadingUnit ts rest = [] then none else some (byteLength (leadingUnit ts rest))) := by
  have htext := h.lookahead_of_isPrefix (leadingUnitWord_isPrefix rest)
  rw [unitLength?, unitWordLength_eq h, leadingUnit]
  by_cases hword : leadingUnitWord rest = []
  · simp [hword]
  · cases hunit : ts.isUnit (String.ofList (leadingUnitWord rest)) <;>
      simp [byteLength_eq_zero, hword, htext, hunit]

/-! ## §5 Groups -/

theorem eatBlanks_eq (h : c.At before rest) :
    c.eatBlanks = c.advance (byteLength (rest.takeWhile isBlank)) :=
  h.eatWhile_eq ⟨false, fun _ => isBlank_of_le⟩

theorem at_eatBlanks (h : c.At before rest) :
    c.eatBlanks.At (before ++ rest.takeWhile isBlank) (rest.dropWhile isBlank) := by
  rw [eatBlanks_eq h]
  exact h.advance_takeWhile isBlank

/-- The loop stops where no blank and no parenthesis follows. -/
theorem skipOpenings_eq (h : c.At before rest) :
    skipOpenings c = c.advance (byteLength (rest.takeWhile opensOrBlank)) := by
  fun_induction skipOpenings c generalizing before rest with
  | case1 c hcurrent _ _ ih =>
    have hblanks := at_eatBlanks h
    obtain ⟨tail, htail⟩ := List.head?_eq_some_iff.mp
      ((hblanks.current_eq_toUInt8 (by decide) (by decide)).mp hcurrent)
    rw [takeWhile_opensOrBlank, htail, List.takeWhile_cons_of_pos (by decide)]
    rw [htail] at hblanks
    have hone : byteLength ['('] = 1 := byteLength_of_lt (by decide)
    rw [ih (hblanks.advance_one (by decide)), eatBlanks_eq h, ← hone, Cursor.advance_append,
      Cursor.advance_append, List.singleton_append]
  | case2 c hcurrent =>
    have hblanks := at_eatBlanks h
    have hstops : Stops opensOrBlank (rest.dropWhile isBlank) := by
      intro d hd
      have hblank : isBlank d = false := stops_dropWhile isBlank rest d hd
      have hne : d ≠ '(' := by
        rintro rfl
        exact hcurrent ((hblanks.current_eq_toUInt8 (by decide) (by decide)).mpr hd)
      simp [opensOrBlank, hblank, hne]
    rw [takeWhile_opensOrBlank, takeWhile_eq_nil_of_stops hstops, List.append_nil, eatBlanks_eq h]

theorem opensUnitGroup_eq_ok (ts : Tables) (h : c.At before rest) :
    opensUnitGroup ts c = .ok (UnitLexer.opensUnitGroup ts rest) := by
  have hparenthesis := h.current_eq_toUInt8 (d := '(') (by decide) (by decide)
  have hword := h.advance_takeWhile opensOrBlank
  rw [opensUnitGroup, opensUnitGroup_eq, skipOpenings_eq h, unitLength?_eq ts hword]
  by_cases hhead : rest.head? = some '('
  · rw [if_pos (hparenthesis.mpr hhead)]
    by_cases hunit : leadingUnit ts (rest.dropWhile opensOrBlank) = [] <;> simp [hhead, hunit]
  · rw [if_neg (mt hparenthesis.mp hhead)]
    simp [hhead]

end

/-! ## §6 Numbers -/

section

variable {bytes : List UInt8}

theorem digitsFrom_eq (bytes : List UInt8) (i : Nat) :
    digitsFrom bytes i = (leadingDigits ((bytes.map Char.ofUInt8).drop i)).length := by
  rw [digitsFrom, leadingDigits, ← List.map_drop, List.takeWhile_map, List.length_map]
  rfl

theorem getElem?_eq_toUInt8 {d : Char} (hd : d.toNat < 0x80) (i : Nat) :
    bytes[i]? = some d.toUInt8 ↔ ((bytes.map Char.ofUInt8).drop i).head? = some d := by
  rw [List.head?_drop, List.getElem?_map, Option.map_eq_some_iff]
  constructor
  · exact fun h => ⟨_, h, ofUInt8_toUInt8 hd⟩
  · rintro ⟨b, hb, rfl⟩
    rw [hb, toUInt8_ofUInt8]

/-- The length of a text that starts with a mark, if something follows the mark. -/
theorem length_marked {α : Type} (mark : α) (behind : List α) :
    (if behind = [] then [] else mark :: behind).length =
      if 0 < behind.length then 1 + behind.length else 0 := by
  cases behind with
  | nil => rfl
  | cons a as => simp [Nat.add_comm]

/-- A list that is no `a :: tail` has another first entry, or none. -/
theorem head?_ne_some {α : Type} {a : α} {as : List α} (h : ∀ tail, as = a :: tail → False) :
    as.head? ≠ some a := by
  intro hhead
  obtain ⟨tail, htail⟩ := List.head?_eq_some_iff.mp hhead
  exact h tail htail

theorem length_leadingFraction (cs : List Char) : (leadingFraction cs).length =
    if cs.head? = some '.' ∧ 0 < (leadingDigits cs.tail).length then
      1 + (leadingDigits cs.tail).length else 0 := by
  unfold leadingFraction
  split
  · simp [length_marked]
  · next hpoint =>
    rw [if_neg fun h => head?_ne_some hpoint h.1]
    rfl

theorem length_leadingInteger (cs : List Char) : (leadingInteger cs).length =
    if cs.head? = some '+' ∨ cs.head? = some '-' then
      if 0 < (leadingDigits cs.tail).length then 1 + (leadingDigits cs.tail).length else 0
    else (leadingDigits cs).length := by
  unfold leadingInteger
  split
  · exact length_marked ..
  · exact length_marked ..
  · next hplus hminus =>
    rw [if_neg (not_or.mpr ⟨head?_ne_some hplus, head?_ne_some hminus⟩)]

theorem length_leadingExponent (cs : List Char) : (leadingExponent cs).length =
    if cs.head? = some 'e' ∨ cs.head? = some 'E' then
      if 0 < (leadingInteger cs.tail).length then 1 + (leadingInteger cs.tail).length else 0
    else 0 := by
  unfold leadingExponent
  split
  · exact length_marked ..
  · exact length_marked ..
  · next hlower hupper =>
    rw [if_neg (not_or.mpr ⟨head?_ne_some hlower, head?_ne_some hupper⟩)]
    rfl

theorem mantissaEnd?_eq (bytes : List UInt8) : mantissaEnd? bytes =
    if 0 < (leadingMantissa (bytes.map Char.ofUInt8)).length then
      some (leadingMantissa (bytes.map Char.ofUInt8)).length
    else none := by
  rw [leadingMantissa, List.length_append, length_leadingFraction, mantissaEnd?]
  simp only [digitsFrom_eq, getElem?_eq_toUInt8 (d := '.') (by decide), List.drop_zero,
    List.tail_drop]
  generalize (leadingDigits (bytes.map Char.ofUInt8)).length = whole
  split_ifs <;> first | rfl | omega | exact congrArg some (by omega)

theorem exponentEnd_eq (bytes : List UInt8) (m : Nat) : exponentEnd bytes m =
    m + (leadingExponent ((bytes.map Char.ofUInt8).drop m)).length := by
  rw [length_leadingExponent, exponentEnd]
  simp only [digitsFrom_eq, getElem?_eq_toUInt8 (d := 'e') (by decide),
    getElem?_eq_toUInt8 (d := 'E') (by decide), getElem?_eq_toUInt8 (d := '+') (by decide),
    getElem?_eq_toUInt8 (d := '-') (by decide), length_leadingInteger, List.tail_drop]
  split_ifs <;> omega

theorem scanNumber?_eq (bytes : List UInt8) : scanNumber? bytes = numberLength? bytes := by
  have hlength := exponentEnd_eq bytes (leadingMantissa (bytes.map Char.ofUInt8)).length
  rw [scanNumber?, mantissaEnd?_eq, numberLength?, leadingNumber]
  by_cases hfound : leadingMantissa (bytes.map Char.ofUInt8) = []
  · simp [hfound]
  · simp [hfound, List.length_pos_iff, hlength]

end

/-! ## §7 Strings -/

section

variable {c : Cursor} {before rest : List Char}

theorem char_quote_lt (quote : Quote) : quote.char.toNat < 0x80 := by
  cases quote <;> decide

theorem char_quote_ne_zero (quote : Quote) : quote.char ≠ '\x00' := by
  cases quote <;> decide

theorem atLineEnd_nil (h : c.At before []) : c.atLineEnd = true :=
  h.atLineEnd_eq_true.mpr (by simp)

theorem atLineEnd_cons {d : Char} (h : c.At before (d :: rest)) :
    c.atLineEnd = (d == '\n') := by
  rw [Bool.eq_iff_iff, h.atLineEnd_eq_true, beq_iff_eq]
  simp

/-- One round of the loop. -/
theorem unclosedEnd?_round (quote : Quote) (c : Cursor) : unclosedEnd? quote c =
    if c.atLineEnd then some c
    else if c.current = quote.char.toUInt8 then none
    else if c.current = '\\'.toUInt8 then
      if (c.advance 1).atLineEnd then none else unclosedEnd? quote (c.advance 1).advanceChar
    else unclosedEnd? quote c.advanceChar := by
  rw [unclosedEnd?]
  split <;> rfl

/-- What is left of the line in a string is what the loop goes over. -/
theorem unclosedEnd?_eq {quote : Quote} (h : c.At before rest) : unclosedEnd? quote c =
    (unclosedTail? quote.char rest).map fun tail => c.advance (byteLength tail) := by
  have hquote : ∀ {c : Cursor} {before rest : List Char}, c.At before rest →
      (c.current = quote.char.toUInt8 ↔ rest.head? = some quote.char) :=
    fun h => h.current_eq_toUInt8 (char_quote_lt quote) (char_quote_ne_zero quote)
  have hbackslash : ∀ {c : Cursor} {before rest : List Char}, c.At before rest →
      (c.current = '\\'.toUInt8 ↔ rest.head? = some '\\') :=
    fun h => h.current_eq_toUInt8 (by decide) (by decide)
  have hne : ¬ '\\' = quote.char := fun heq => quote.char_ne.1 heq.symm
  fun_induction unclosedTail? quote.char rest generalizing c before with
  | case1 => simp [unclosedEnd?_round, atLineEnd_nil h]
  | case2 => simp [unclosedEnd?_round, atLineEnd_cons h]
  | case3 =>
    have hbehind : (c.advance 1).At (before ++ ['\\']) [] := h.advance_one (by decide)
    simp [unclosedEnd?_round quote c, atLineEnd_cons h, hquote h, hbackslash h, hne,
      atLineEnd_nil hbehind]
  | case4 tail =>
    have hbehind : (c.advance 1).At (before ++ ['\\']) ('\n' :: tail) := h.advance_one (by decide)
    simp [unclosedEnd?_round quote c, atLineEnd_cons h, hquote h, hbackslash h, hne,
      atLineEnd_cons hbehind]
  | case5 d tail hd ih =>
    have hbehind : (c.advance 1).At (before ++ ['\\']) (d :: tail) := h.advance_one (by decide)
    have hescape : (c.advance 1).advanceChar = c.advance (byteLength ['\\', d]) := by
      have hone : byteLength ['\\'] = 1 := byteLength_of_lt (by decide)
      rw [hbehind.advanceChar_eq, ← hone, Cursor.advance_append]
      rfl
    have hmoved : (c.advance (byteLength ['\\', d])).At (before ++ ['\\', d]) tail := h.advance
    rw [unclosedEnd?_round, if_neg (by simp [atLineEnd_cons h]), if_neg (by simp [hquote h, hne]),
      if_pos (by simp [hbackslash h]), if_neg (by simp [atLineEnd_cons hbehind, hd]), hescape,
      ih hmoved, Option.map_map]
    exact congrArg (Option.map · _) (funext fun text => c.advance_append ['\\', d] text)
  | case6 tail hnewline =>
    rw [unclosedEnd?_round, if_neg (by simpa [atLineEnd_cons h] using hnewline),
      if_pos (by simp [hquote h])]
    rfl
  | case7 d tail hnewline hlast hescape hd ih =>
    have hplain : d ≠ '\\' := by
      rintro rfl
      cases tail with
      | nil => exact hlast rfl rfl
      | cons e tail => exact hescape e tail rfl rfl
    have hmoved : (c.advance (byteLength [d])).At (before ++ [d]) tail := h.advance
    rw [unclosedEnd?_round, if_neg (by simpa [atLineEnd_cons h] using hnewline),
      if_neg (by simpa [hquote h] using hd), if_neg (by simpa [hbackslash h] using hplain),
      h.advanceChar_eq, ih hmoved, Option.map_map]
    exact congrArg (Option.map · _) (funext fun text => c.advance_append [d] text)

end

namespace Scan

/-! ## §8 The rules of the root -/

theorem refines_comment : comment.Refines Rule.comment := by
  intro ts c before rest h
  have hhash := h.current_eq_toUInt8 (d := '#') (by decide) (by decide)
  by_cases hhead : rest.head? = some '#'
  · obtain ⟨tail, rfl⟩ := List.head?_eq_some_iff.mp hhead
    rw [comment, if_pos (hhash.mpr rfl), h.eatLine_eq]
    simp [Rule.comment]
  · have hnone : Rule.comment ts rest = none :=
      comment_eq_none fun tail htail => hhead (by rw [htail, List.head?_cons])
    rw [comment, if_neg (mt hhash.mp hhead), hnone]
    rfl

theorem refines_number : number.Refines Rule.number := by
  intro ts c before rest h
  have hcodes : (utf8 rest).map Char.ofUInt8 = encoded rest := rfl
  have hascii : byteLength (leadingNumber rest) = (leadingNumber rest).length := by
    refine byteLength_of_ascii fun d hd => ?_
    have hnumber := isNumber_leadingNumber (List.ne_nil_of_mem hd)
    exact lt_of_isNumberChar (hnumber.numberChar d hd)
  rw [number, h.unread_eq, ok_bind, bytesOf_eq_utf8, String.toList_ofList, scanNumber?_eq,
    numberLength?, hcodes, leadingNumber_encoded, Rule.number, Step.one?]
  by_cases hfound : leadingNumber rest = []
  · simp [hfound]
  · simp [hfound, hascii]

/-- White space and a name, behind the word `def`. -/
theorem refines_declaration : declaration.Refines Rule.declaration := by
  intro ts c before rest h
  rw [declaration, h.unread_eq, ok_bind, String.toList_ofList]
  by_cases hdef : ['d', 'e', 'f'] <+: rest
  · obtain ⟨tail, rfl⟩ := hdef
    have hthree : byteLength ['d', 'e', 'f'] = 3 := byteLength_of_ascii (by simp)
    have hgap : (c.advance (byteLength ['d', 'e', 'f'])).At (before ++ ['d', 'e', 'f']) tail :=
      h.advance
    rw [hthree] at hgap
    have hspace : SameBeyondAscii isSpace := ⟨false, fun _ => isSpace_of_le⟩
    have hname := hgap.advance_takeWhile isSpace
    rw [if_pos (by simp)]
    dsimp only
    rw [hgap.eatWhile_eq hspace, nameLength_eq hname, Cursor.pos_advance, Nat.add_sub_cancel_left]
    simp only [List.cons_append, List.nil_append, Rule.declaration, drop_length_takeWhile,
      byteLength_eq_zero]
    by_cases hempty : tail.takeWhile isSpace = [] ∨ leadingName (tail.dropWhile isSpace) = []
    · rw [if_pos hempty, if_pos hempty]
      rfl
    · obtain ⟨hspace_ne, hname_ne⟩ := not_or.mp hempty
      rw [if_neg hempty, if_neg hempty]
      simp [Scanned.several, byteLength_eq_zero, hspace_ne, hname_ne, Step.measured,
        Lexeme.measured, hthree]
  · have hnone : Rule.declaration ts rest = none :=
      declaration_eq_none fun tail htail => hdef ⟨tail, htail.symm⟩
    rw [if_neg (by simpa using hdef), hnone]
    rfl

/-- A name, and behind blanks a parenthesis. -/
theorem refines_call : call.Refines Rule.call := by
  intro ts c before rest h
  obtain ⟨more, hmore⟩ := leadingName_isPrefix rest
  have hname := h.lookahead_of_isPrefix (leadingName_isPrefix rest)
  have hgap : (c.advance (byteLength (leadingName rest))).At (before ++ leadingName rest) more :=
    Cursor.At.advance (by rwa [hmore])
  have hparenthesis := (at_eatBlanks hgap).current_eq_toUInt8 (d := '(') (by decide) (by decide)
  have hone : byteLength ['('] = 1 := byteLength_of_lt (by decide)
  rw [eatBlanks_eq hgap, Cursor.advance_advance] at hparenthesis
  have hdrop : rest.drop (leadingName rest).length = more := by
    rw [← List.append_cancel_left_eq (leadingName rest), hmore]
    exact List.prefix_iff_eq_append.mp (leadingName_isPrefix rest)
  simp only [call, Rule.call, nameLength_eq h, byteLength_eq_zero, hname, ok_bind, ne_eq,
    Cursor.advance_advance, hparenthesis, hdrop, ← List.drop_drop, drop_length_takeWhile,
    eatBlanks_eq hgap, Cursor.pos_advance, Nat.add_sub_add_left]
  by_cases hne : leadingName rest = []
  · simp [hne]
  · by_cases hkeyword : String.ofList (leadingName rest) ∈ ts.keywords
    · simp [hne, hkeyword]
    · by_cases hhead : (more.dropWhile isBlank).head? = some '('
      · simp [hne, hkeyword, hhead, measured_several, Lexeme.measured, parenthesis, hone]
      · simp [hne, hkeyword, hhead]

theorem refines_word : word.Refines Rule.word := by
  intro ts c before rest h
  have hname := h.lookahead_of_isPrefix (leadingName_isPrefix rest)
  have hunit := h.lookahead_of_isPrefix (leadingUnitWord_isPrefix rest)
  simp only [word, nameLength_eq h, hname, ok_bind, unitWordLength_eq h, hunit, ne_eq,
    byteLength_eq_zero, one?_byteLength, Rule.word, pure_eq_ok]
  split_ifs <;> rfl

section

variable {c : Cursor} {before rest : List Char}

/-- What is told by one ASCII character is told by the byte at the cursor. -/
theorem ofUInt8_current_eq_bind (h : c.At before rest) {α : Type} {f : Char → Option α}
    (hbeyond : ∀ d : Char, 0x80 ≤ d.toNat → f d = none) (hzero : f '\x00' = none) :
    f (Char.ofUInt8 c.current) = rest.head?.bind f := by
  cases rest with
  | nil =>
    rw [h.current_nil]
    exact hzero
  | cons d tail => exact h.ofUInt8_current ⟨none, hbeyond⟩

theorem quote?_eq (h : c.At before rest) : quote? c = rest.head?.bind Quote.ofChar? :=
  ofUInt8_current_eq_bind h
    (fun _ hd => (startsRootToken_eq_false.mp (startsRootToken_of_le hd)).2.2.2.2.1) rfl

end

theorem refines_unclosedString : unclosedString.Refines Rule.unclosedString := by
  intro ts c before rest h
  rw [unclosedString, quote?_eq h]
  cases rest with
  | nil => rfl
  | cons d tail =>
    cases hquote : Quote.ofChar? d with
    | none => simp [Rule.unclosedString, hquote]
    | some quote =>
      obtain rfl := Quote.ofChar?_eq_some.mp hquote
      have hone : byteLength [quote.char] = 1 := byteLength_of_lt (char_quote_lt quote)
      have hbehind := h.advance_one (char_quote_lt quote)
      cases htail : unclosedTail? quote.char tail with
      | none => simp [Rule.unclosedString, hquote, unclosedEnd?_eq hbehind, htail]
      | some text =>
        have hlength : 1 + byteLength text = byteLength (quote.char :: text) := by
          rw [← hone, ← byteLength_append]
          rfl
        simp [Rule.unclosedString, hquote, unclosedEnd?_eq hbehind, htail, hlength]

theorem refines_stringOpening : stringOpening.Refines Rule.stringOpening := by
  intro ts c before rest h
  rw [stringOpening, quote?_eq h]
  cases rest with
  | nil => rfl
  | cons d tail =>
    cases hquote : Quote.ofChar? d with
    | none => simp [Rule.stringOpening, hquote]
    | some quote =>
      obtain rfl := Quote.ofChar?_eq_some.mp hquote
      have hone : byteLength [quote.char] = 1 := byteLength_of_lt (char_quote_lt quote)
      simp [Rule.stringOpening, hquote, hone]

theorem refines_bracket : bracket.Refines Rule.bracket := by
  intro ts c before rest h
  have hbeyond : ∀ d : Char, 0x80 ≤ d.toNat → Bracket.ofChar? d = none :=
    fun _ hd => (startsRootToken_eq_false.mp (startsRootToken_of_le hd)).2.2.2.2.2.2.1
  rw [bracket, ofUInt8_current_eq_bind h hbeyond rfl]
  cases rest with
  | nil => rfl
  | cons d tail =>
    cases hshape : Bracket.ofChar? d with
    | none => simp [Rule.bracket, hshape]
    | some shape =>
      have hascii : d.toNat < 0x80 := by
        refine Nat.lt_of_not_le fun hle => ?_
        rw [hbeyond d hle] at hshape
        exact Option.some_ne_none shape hshape.symm
      simp [Rule.bracket, hshape, byteLength_of_lt hascii]

theorem refines_symbolRun : symbolRun.Refines Rule.symbolRun := by
  intro ts c before rest h
  have hclass : SameBeyondAscii isSymbol := ⟨false, fun _ => isSymbol_of_le⟩
  have hstop := h.advance_takeWhile isSymbol
  rw [symbolRun, h.eatWhile_eq hclass, h.pos_eq, hstop.textSince_eq, Rule.symbolRun]
  by_cases hrun : rest.takeWhile isSymbol = []
  · simp [hrun, h.pos_eq, Step.one?]
  · simp [hrun, h.pos_eq, Step.one?, byteLength_eq_zero]

/-! ## §9 The rules of strings and units -/

theorem refines_stringEscape : stringEscape.Refines Rule.stringEscape := by
  intro ts c before rest h
  have hbackslash := h.current_eq_toUInt8 (d := '\\') (by decide) (by decide)
  by_cases hhead : rest.head? = some '\\'
  · obtain ⟨tail, rfl⟩ := List.head?_eq_some_iff.mp hhead
    have hone : byteLength ['\\'] = 1 := byteLength_of_lt (by decide)
    have hbehind : (c.advance 1).At (before ++ ['\\']) tail := h.advance_one (by decide)
    rw [stringEscape, if_pos (hbackslash.mpr rfl)]
    cases tail with
    | nil => simp [atLineEnd_nil hbehind, Rule.stringEscape]
    | cons d tail =>
      by_cases hd : d = '\n'
      · simp [atLineEnd_cons hbehind, Rule.stringEscape, hd]
      · have hlength : 1 + byteLength [d] = byteLength ['\\', d] := by
          rw [← hone, ← byteLength_append]
          rfl
        simp [atLineEnd_cons hbehind, Rule.stringEscape, hd, hbehind.advanceChar_eq, hlength]
  · have hnone : Rule.stringEscape ts rest = none := by
      refine Option.eq_none_iff_forall_ne_some.mpr fun s hs => ?_
      obtain ⟨d, tail, rfl, -⟩ := Rule.stringEscape_eq_some.mp hs
      exact hhead rfl
    rw [stringEscape, if_neg (mt hbackslash.mp hhead), hnone]
    rfl

theorem refines_unit (t : Transition) :
    (unit t).Refines fun ts cs => Step.one? .unit (leadingUnit ts cs) t := by
  intro ts c before rest h
  rw [unit, unitLength?_eq ts h]
  by_cases hunit : leadingUnit ts rest = []
  · simp [hunit, Step.one?]
  · simp [hunit, Step.one?]

theorem refines_group (t : Transition) : (group t).Refines fun ts cs =>
    if UnitLexer.opensUnitGroup ts cs then some (.one parenthesis ['('] t) else none := by
  intro ts c before rest h
  have hone : byteLength ['('] = 1 := byteLength_of_lt (by decide)
  rw [group, opensUnitGroup_eq_ok ts h]
  cases hopens : UnitLexer.opensUnitGroup ts rest with
  | true => simp [hone, hopens]
  | false => simp [hopens]

/-- Digits, behind a sign that has been read or behind none. -/
theorem exponent_eq (ts : Tables) {c : Cursor} {before sign digits : List Char}
    (h : c.At before (sign ++ digits))
    (hsign : (if c.current ∈ ['-', '+'].map Char.toUInt8 then c.advance 1 else c) =
      c.advance (byteLength sign)) :
    exponent ts c = .ok (if leadingDigits digits = [] then none
      else some (.one .exponent (byteLength (sign ++ leadingDigits digits)) .pop)) := by
  have hdigit : SameBeyondAscii Char.isDigit := ⟨false, fun _ hd => (not_alphanum_of_le hd).1⟩
  have hrun : byteLength (digits.takeWhile Char.isDigit) = byteLength (leadingDigits digits) := rfl
  rw [exponent, hsign, h.advance.eatWhile_eq hdigit, Cursor.pos_advance, Nat.add_sub_cancel_left,
    hrun]
  by_cases hne : leadingDigits digits = []
  · simp [hne]
  · have hpos : 0 < byteLength (leadingDigits digits) :=
      Nat.pos_of_ne_zero (mt byteLength_eq_zero.mp hne)
    simp [hne, hpos, Nat.add_assoc]

theorem refines_exponent : exponent.Refines Rule.exponent := by
  intro ts c before rest h
  have hplus := h.current_eq_toUInt8 (d := '+') (by decide) (by decide)
  have hminus := h.current_eq_toUInt8 (d := '-') (by decide) (by decide)
  have hsign : ∀ d ∈ ['-', '+'], byteLength [d] = 1 := by
    intro d hd
    refine byteLength_of_lt ?_
    rcases List.mem_pair.mp hd with rfl | rfl <;> decide
  rw [Rule.exponent]
  unfold leadingInteger
  split
  · next tail =>
    have hread : c.At before (['+'] ++ tail) := h
    rw [exponent_eq ts hread (by simp [hplus, hsign])]
    split <;> simp_all [Step.one?]
  · next tail =>
    have hread : c.At before (['-'] ++ tail) := h
    rw [exponent_eq ts hread (by simp [hminus, hsign])]
    split <;> simp_all [Step.one?]
  · next hnoPlus hnoMinus =>
    have hunsigned : c.current ∉ ['-', '+'].map Char.toUInt8 := by
      simp only [List.map_cons, List.map_nil, List.mem_pair, hplus, hminus]
      exact not_or.mpr ⟨head?_ne_some hnoMinus, head?_ne_some hnoPlus⟩
    have hread : c.At before ([] ++ rest) := h
    rw [exponent_eq ts hread (by rw [if_neg hunsigned]; rfl)]
    split <;> simp_all [Step.one?]

theorem refines_groupWord : groupWord.Refines Rule.groupWord := by
  intro ts c before rest h
  have hword := h.lookahead_of_isPrefix (leadingUnitWord_isPrefix rest)
  rw [groupWord, unitWordLength_eq h, Rule.groupWord]
  by_cases hne : leadingUnitWord rest = []
  · simp [hne, Step.one?]
  · simp [hne, byteLength_eq_zero, hword, Step.one?]

end Scan

/-! ## §10 Modes -/

open Scan

/-- The scans of a mode refine its rules, one by one. -/
theorem refines_rules (m : Mode) : List.Forall₂ Refines (rules m) m.rules := by
  have hspaces : (run isSpace .space .stay).Refines Rule.spaces :=
    refines_run ⟨false, fun _ => isSpace_of_le⟩ _ _
  have hblanks : ∀ t, (run isBlank .space t).Refines (Rule.run isBlank .space t) :=
    fun t => refines_run ⟨false, fun _ => isBlank_of_le⟩ _ t
  have hproduct : ∀ t, (oneOf ['*', '/'] .unitOperator t).Refines
      (Rule.oneOf ['*', '/'] .unitOperator t) := fun t => refines_oneOf (by simp) _ t
  have hpower : (oneOf ['^'] .unitOperator (.push .unitExponent)).Refines Rule.unitPower :=
    refines_oneOf (by simp) _ _
  cases m with
  | root =>
    have hdelimiter : (oneOf [',', '.', ':'] .delimiter .stay).Refines Rule.delimiter :=
      refines_oneOf (by simp) _ _
    exact .cons refines_comment (.cons refines_number (.cons refines_declaration
      (.cons refines_call (.cons refines_word (.cons hspaces (.cons refines_unclosedString
      (.cons refines_stringOpening (.cons hdelimiter (.cons refines_bracket
      (.cons refines_symbolRun .nil))))))))))
  | whitespace => exact .cons hspaces .nil
  | string quote =>
    have htext : (run (fun c => c != '\\' && c != quote.char && c != '\n') .string .stay).Refines
        (Rule.stringText quote) := refines_run ⟨true, fun _ => isPlain_of_le quote⟩ _ _
    have hclosing : (oneOf [quote.char] .quote .pop).Refines (Rule.stringClosing quote) :=
      refines_oneOf (by simp [char_quote_lt, char_quote_ne_zero]) _ _
    have hdangling : (oneOf ['\\'] .brokenString .pop).Refines Rule.danglingBackslash :=
      refines_oneOf (by simp) _ _
    exact .cons htext (.cons refines_stringEscape (.cons hclosing (.cons hdangling
      (.cons refines_handBack .nil))))
  | expectUnit =>
    exact .cons (hblanks _) (.cons (refines_unit _) (.cons (refines_group _)
      (.cons refines_handBack .nil)))
  | expectUnitAfterSpace =>
    exact .cons (refines_unit _) (.cons (refines_group _) (.cons refines_handBack .nil))
  | unitExpression =>
    exact .cons (hblanks _) (.cons (hproduct _) (.cons hpower (.cons (refines_unit _)
      (.cons (refines_group _) (.cons refines_handBack .nil)))))
  | unitExponent =>
    exact .cons refines_exponent (.cons (hblanks _) (.cons (hproduct _)
      (.cons refines_handBack .nil)))
  | unitGroup =>
    have hnested : (oneOf ['('] parenthesis (.push .unitGroup)).Refines Rule.nestedGroup :=
      refines_oneOf (by simp) _ _
    have hclosing : (oneOf [')'] parenthesis .pop).Refines Rule.groupClosing :=
      refines_oneOf (by simp) _ _
    exact .cons hspaces (.cons refines_groupWord (.cons (hproduct _) (.cons hpower
      (.cons hnested (.cons hclosing .nil)))))

/-- Scans that refine rules find the answer of the first rule that applies. -/
theorem firstAnswer_of_refines {scans : List Scan} {rs : List Rule}
    (hrefines : List.Forall₂ Refines scans rs) (ts : Tables) {c : Cursor} {before rest : List Char}
    (h : c.At before rest) : firstAnswer ts c scans =
      .ok ((rs.findSome? fun r => r ts rest).map Step.measured) := by
  induction hrefines with
  | nil => rfl
  | @cons scan r scans rs hr _ ih =>
    rw [firstAnswer, hr h, ok_bind, List.findSome?_cons]
    cases hs : r ts rest with
    | some s => rfl
    | none => exact ih

/-- Between characters a mode has an answer, and it is that of the grammar. -/
theorem firstAnswer_eq (ts : Tables) (m : Mode) {c : Cursor} {before rest : List Char}
    (h : c.At before rest) :
    firstAnswer ts c (rules m) = .ok ((m.step? ts rest).map Step.measured) :=
  firstAnswer_of_refines (refines_rules m) ts h

end Bytes

end UnitLexer
