/-
UnitLexer.Proofs.NumberExpression — numeric literals by their regular expression.

`[0-9]*\.?[0-9]+([eE][-+]?[0-9]+)?` is written down here as it stands, and what
it matches are the literals of the grammar (`mem_numberExpression`). The scan
goes through the input once and never back, and yet it ends where the longest
match does: it takes a point or an `e` only after it has seen the digits that
must follow.

Nothing of this asks for text. The expression is ASCII, so bytes can be scanned
as the characters they are the codes of, whether they encode a text or not
(`numberLength?`). In the encoding of a text the bytes of a character beyond
ASCII belong to no literal, and the scan of the bytes ends where that of the
characters does (`leadingNumber_encoded`).
-/
import Mathlib.Computability.RegularExpressions
import UnitLexer.Proofs.NumberGrammar
import UnitLexer.Rule.Literal

namespace UnitLexer

/-! ## §1 Expressions -/

section

variable {α : Type}

/-- One of the symbols. -/
def anyOf (symbols : List α) : RegularExpression α :=
  symbols.foldr (fun a r => .char a + r) 0

/-- The expression or nothing. -/
def optionally (r : RegularExpression α) : RegularExpression α :=
  1 + r

/-- The expression once or more often. -/
def oneOrMore (r : RegularExpression α) : RegularExpression α :=
  r * r.star

variable {symbols w : List α} {r : RegularExpression α}

theorem mem_anyOf : w ∈ (anyOf symbols).matches' ↔ ∃ a ∈ symbols, w = [a] := by
  induction symbols with
  | nil => simp [anyOf, Language.notMem_zero]
  | cons a symbols ih =>
    have hsplit : w ∈ (anyOf (a :: symbols)).matches' ↔
        w = [a] ∨ w ∈ (anyOf symbols).matches' := Iff.rfl
    rw [hsplit, ih, List.exists_mem_cons_iff]

theorem mem_optionally : w ∈ (optionally r).matches' ↔ w = [] ∨ w ∈ r.matches' :=
  Iff.rfl

theorem mem_star_anyOf : w ∈ (anyOf symbols).star.matches' ↔ ∀ a ∈ w, a ∈ symbols := by
  rw [RegularExpression.matches'_star, Language.mem_kstar]
  constructor
  · rintro ⟨pieces, rfl, hpieces⟩ a ha
    obtain ⟨piece, hpiece, ha⟩ := List.mem_flatten.mp ha
    obtain ⟨b, hb, rfl⟩ := mem_anyOf.mp (hpieces piece hpiece)
    rwa [List.mem_singleton.mp ha]
  · intro h
    have hpieces : w = (w.map fun a => [a]).flatten := by
      rw [← List.flatMap_def, List.flatMap_singleton']
    refine ⟨_, hpieces, fun piece hpiece => ?_⟩
    obtain ⟨a, ha, rfl⟩ := List.mem_map.mp hpiece
    exact mem_anyOf.mpr ⟨a, h a ha, rfl⟩

theorem mem_oneOrMore_anyOf :
    w ∈ (oneOrMore (anyOf symbols)).matches' ↔ w ≠ [] ∧ ∀ a ∈ w, a ∈ symbols := by
  rw [oneOrMore, RegularExpression.matches'_mul, Language.mem_mul]
  constructor
  · rintro ⟨first, hfirst, others, hothers, rfl⟩
    obtain ⟨a, ha, rfl⟩ := mem_anyOf.mp hfirst
    exact ⟨by simp, by simpa using ⟨ha, mem_star_anyOf.mp hothers⟩⟩
  · rintro ⟨hne, hall⟩
    obtain ⟨a, others, rfl⟩ := List.exists_cons_of_ne_nil hne
    rw [List.forall_mem_cons] at hall
    exact ⟨[a], mem_anyOf.mpr ⟨a, hall.1, rfl⟩, others, mem_star_anyOf.mpr hall.2, rfl⟩

end

/-- From `0` to `9`. -/
def digitChars : List Char :=
  ['0', '1', '2', '3', '4', '5', '6', '7', '8', '9']

/-- `[0-9]` -/
def digitExpression : RegularExpression Char :=
  anyOf digitChars

/-- `[-+]?[0-9]+` -/
def integerExpression : RegularExpression Char :=
  optionally (anyOf ['-', '+']) * oneOrMore digitExpression

/-- `[0-9]*\.?[0-9]+` -/
def mantissaExpression : RegularExpression Char :=
  digitExpression.star * optionally (.char '.') * oneOrMore digitExpression

/-- `[0-9]*\.?[0-9]+([eE][-+]?[0-9]+)?` -/
def numberExpression : RegularExpression Char :=
  mantissaExpression * optionally (anyOf ['e', 'E'] * integerExpression)

/-! ## §2 What they match -/

section

variable {cs : List Char}

theorem mem_digitChars {c : Char} : c ∈ digitChars ↔ c.isDigit = true := by
  have hlisted : digitChars.all Char.isDigit = true := rfl
  have hcodes : ∀ n ≤ '9'.toNat, '0'.toNat ≤ n → Char.ofNat n ∈ digitChars := by decide
  constructor
  · exact List.all_eq_true.mp hlisted c
  · intro h
    obtain ⟨hlow, hhigh⟩ := Char.isDigit_iff_toNat.mp h
    simpa only [Char.ofNat_toNat] using hcodes c.toNat hhigh hlow

theorem mem_star_digitExpression :
    cs ∈ digitExpression.star.matches' ↔ ∀ c ∈ cs, c.isDigit = true := by
  simp only [digitExpression, mem_star_anyOf, mem_digitChars]

theorem mem_oneOrMore_digitExpression :
    cs ∈ (oneOrMore digitExpression).matches' ↔ IsDigits cs := by
  simp only [digitExpression, mem_oneOrMore_anyOf, mem_digitChars]
  exact ⟨fun h => ⟨h.1, h.2⟩, fun h => ⟨h.ne_nil, h.digit⟩⟩

theorem mem_integerExpression : cs ∈ integerExpression.matches' ↔ IsInteger cs := by
  simp only [integerExpression, RegularExpression.matches'_mul, Language.mem_mul, mem_optionally,
    mem_anyOf, mem_oneOrMore_digitExpression]
  constructor
  · rintro ⟨sign, rfl | ⟨c, hc, rfl⟩, ds, hds, rfl⟩
    · exact .unsigned hds
    · rcases List.mem_pair.mp hc with rfl | rfl
      · exact .minus hds
      · exact .plus hds
  · rintro (hds | hds | hds)
    · exact ⟨[], .inl rfl, cs, hds, rfl⟩
    · exact ⟨['+'], .inr ⟨'+', by simp, rfl⟩, _, hds, rfl⟩
    · exact ⟨['-'], .inr ⟨'-', by simp, rfl⟩, _, hds, rfl⟩

theorem mem_mantissaExpression : cs ∈ mantissaExpression.matches' ↔ IsMantissa cs := by
  have hpoint : ∀ w, w ∈ (RegularExpression.char '.').matches' ↔ w = ['.'] := fun _ => Iff.rfl
  simp only [mantissaExpression, RegularExpression.matches'_mul, Language.mem_mul, mem_optionally,
    hpoint, mem_star_digitExpression, mem_oneOrMore_digitExpression]
  constructor
  · rintro ⟨_, ⟨ds, hds, point, rfl | rfl, rfl⟩, fs, hfs, rfl⟩
    · -- Without a point the digits on both sides are one run.
      refine .whole ⟨by simp [hfs.ne_nil], fun c hc => ?_⟩
      rw [List.append_nil, List.mem_append] at hc
      exact hc.elim (hds c) (hfs.digit c)
    · rw [List.append_assoc]
      exact .fraction hds hfs
  · rintro (hds | ⟨hds, hfs⟩)
    · exact ⟨[], ⟨[], by simp, [], .inl rfl, rfl⟩, cs, hds, rfl⟩
    · exact ⟨_, ⟨_, hds, ['.'], .inr rfl, rfl⟩, _, hfs, by simp⟩

/-- What the expression matches are the literals of the grammar. -/
theorem mem_numberExpression : cs ∈ numberExpression.matches' ↔ IsNumber cs := by
  simp only [numberExpression, RegularExpression.matches'_mul, Language.mem_mul, mem_optionally,
    mem_anyOf, mem_mantissaExpression, mem_integerExpression]
  constructor
  · rintro ⟨ms, hms, _, rfl | ⟨_, ⟨c, hc, rfl⟩, is, his, rfl⟩, rfl⟩
    · rw [List.append_nil]
      exact .plain hms
    · rcases List.mem_pair.mp hc with rfl | rfl
      · exact .lower hms his
      · exact .upper hms his
  · rintro (hms | ⟨hms, his⟩ | ⟨hms, his⟩)
    · exact ⟨cs, hms, [], .inl rfl, List.append_nil cs⟩
    · exact ⟨_, hms, _, .inr ⟨['e'], ⟨'e', by simp, rfl⟩, _, his, rfl⟩, rfl⟩
    · exact ⟨_, hms, _, .inr ⟨['E'], ⟨'E', by simp, rfl⟩, _, his, rfl⟩, rfl⟩

end

/-! ## §3 Bytes -/

/-- The length of the literal that bytes start with, each of them read as the
character it is the code of. -/
def numberLength? (bytes : List UInt8) : Option Nat :=
  let found := leadingNumber (bytes.map Char.ofUInt8)
  if found = [] then none else some found.length

/-- The expression for the codes of the characters. -/
def numberBytes : RegularExpression UInt8 :=
  numberExpression.map Char.toUInt8

/-- The lengths of the prefixes that an expression matches. -/
def matchLengths {α : Type} (r : RegularExpression α) (whole : List α) : Set Nat :=
  {n | ∃ start ∈ r.matches', start <+: whole ∧ start.length = n}

theorem toNat_ofUInt8 (b : UInt8) : (Char.ofUInt8 b).toNat = b.toNat :=
  UInt8.toNat_toUInt32 b

theorem toUInt8_ofUInt8 (b : UInt8) : (Char.ofUInt8 b).toUInt8 = b :=
  UInt8.toUInt8_toUInt32 b

theorem ofUInt8_toUInt8 {c : Char} (h : c.toNat < 0x80) : Char.ofUInt8 c.toUInt8 = c := by
  have hcode : (Char.ofUInt8 c.toUInt8).toNat = c.toNat :=
    calc (Char.ofUInt8 c.toUInt8).toNat = c.toUInt8.toNat := toNat_ofUInt8 _
      _ = c.toNat % 2 ^ 8 := UInt32.toNat_toUInt8 c.val
      _ = c.toNat := Nat.mod_eq_of_lt (Nat.lt_trans h (by decide))
  exact Char.ext (UInt32.toNat_inj.mp hcode)

theorem ofUInt8_map_toUInt8 {cs : List Char} (h : ∀ c ∈ cs, c.toNat < 0x80) :
    (cs.map Char.toUInt8).map Char.ofUInt8 = cs := by
  have hcodes : cs.map (Char.ofUInt8 ∘ Char.toUInt8) = cs.map id :=
    List.map_congr_left fun c hc => ofUInt8_toUInt8 (h c hc)
  rw [List.map_map, hcodes, List.map_id]

theorem lt_of_isNumberChar {c : Char} (h : isNumberChar c = true) : c.toNat < 0x80 := by
  simp only [isNumberChar, Bool.or_eq_true, beq_iff_eq] at h
  rcases h with ((((h | rfl) | rfl) | rfl) | rfl) | rfl
  · exact Nat.lt_of_le_of_lt (Char.isDigit_iff_toNat.mp h).2 (by decide)
  all_goals decide

theorem mem_numberBytes {start : List UInt8} :
    start ∈ numberBytes.matches' ↔ IsNumber (start.map Char.ofUInt8) := by
  have himage : start ∈ numberBytes.matches' ↔
      ∃ cs ∈ numberExpression.matches', cs.map Char.toUInt8 = start := by
    rw [numberBytes, RegularExpression.matches'_map]
    exact Iff.rfl
  rw [himage]
  constructor
  · rintro ⟨cs, hcs, rfl⟩
    have hnumber := mem_numberExpression.mp hcs
    rwa [ofUInt8_map_toUInt8 fun c hc => lt_of_isNumberChar (hnumber.numberChar c hc)]
  · intro h
    refine ⟨_, mem_numberExpression.mpr h, ?_⟩
    rw [List.map_map]
    exact List.map_id'' toUInt8_ofUInt8 start

section

variable {bytes : List UInt8} {n : Nat}

/-- The lengths are those of the literals at the start of the characters. -/
theorem mem_matchLengths : n ∈ matchLengths numberBytes bytes ↔
    ∃ m, IsNumber m ∧ m <+: bytes.map Char.ofUInt8 ∧ m.length = n := by
  constructor
  · rintro ⟨start, hmatch, hprefix, rfl⟩
    exact ⟨_, mem_numberBytes.mp hmatch, hprefix.map _, List.length_map _⟩
  · rintro ⟨m, hm, hprefix, rfl⟩
    obtain ⟨start, hstart, rfl⟩ := List.prefix_map_iff.mp hprefix
    exact ⟨start, mem_numberBytes.mpr hm, hstart, (List.length_map _).symm⟩

theorem matchLengths_eq_empty (h : leadingNumber (bytes.map Char.ofUInt8) = []) :
    matchLengths numberBytes bytes = ∅ := by
  refine Set.eq_empty_of_forall_notMem fun n hn => ?_
  obtain ⟨m, hm, hprefix, -⟩ := mem_matchLengths.mp hn
  exact (hm.isPrefix_leadingNumber hprefix).ne_nil hm.ne_nil h

theorem isGreatest_matchLengths (h : leadingNumber (bytes.map Char.ofUInt8) ≠ []) :
    IsGreatest (matchLengths numberBytes bytes)
      (leadingNumber (bytes.map Char.ofUInt8)).length := by
  refine ⟨mem_matchLengths.mpr ⟨_, isNumber_leadingNumber h, leadingNumber_isPrefix _, rfl⟩, ?_⟩
  intro n hn
  obtain ⟨m, hm, hprefix, rfl⟩ := mem_matchLengths.mp hn
  exact (hm.isPrefix_leadingNumber hprefix).length_le

/-- The scan ends where the longest match does. -/
theorem numberLength?_eq_some_iff :
    numberLength? bytes = some n ↔ IsGreatest (matchLengths numberBytes bytes) n := by
  by_cases h : leadingNumber (bytes.map Char.ofUInt8) = []
  · rw [matchLengths_eq_empty h]
    exact iff_of_false (by simp [numberLength?, h]) fun hn => hn.1
  · have hgreatest := isGreatest_matchLengths h
    simp only [numberLength?, h, if_false, Option.some.injEq]
    exact ⟨fun hn => hn ▸ hgreatest, fun hn => hgreatest.unique hn⟩

/-- The scan finds nothing just where nothing matches. -/
theorem numberLength?_eq_none_iff :
    numberLength? bytes = none ↔ matchLengths numberBytes bytes = ∅ := by
  by_cases h : leadingNumber (bytes.map Char.ofUInt8) = []
  · exact iff_of_true (by simp [numberLength?, h]) (matchLengths_eq_empty h)
  · have hmem := (isGreatest_matchLengths h).1
    exact iff_of_false (by simp [numberLength?, h]) fun hempty => by simp [hempty] at hmem

end

/-! ## §4 The bytes of a text -/

/-- What the characters are read as where their encoding is scanned. -/
def encoded (cs : List Char) : List Char :=
  (cs.flatMap String.utf8EncodeChar).map Char.ofUInt8

section

variable {c : Char} {cs u rest : List Char}

theorem utf8EncodeChar_of_lt (h : c.toNat < 0x80) : String.utf8EncodeChar c = [c.toUInt8] := by
  have hsize : c.utf8Size = 1 :=
    Char.utf8Size_eq_one_iff.mpr (UInt32.le_iff_toNat_le.mpr (Nat.le_of_lt_succ h))
  rw [String.utf8EncodeChar_eq_singleton hsize, Char.toUInt8_val]

/-- The first byte of a character beyond ASCII is beyond it too. -/
theorem exists_utf8EncodeChar_of_le (h : 0x80 ≤ c.toNat) :
    ∃ b bs, String.utf8EncodeChar c = b :: bs ∧ 0x80 ≤ b.toNat := by
  have hascii : ¬ c.val.toNat ≤ 127 := Nat.not_le.mpr h
  simp only [String.utf8EncodeChar, hascii, if_false]
  split_ifs
  all_goals
    refine ⟨_, _, rfl, ?_⟩
    rw [UInt8.toNat_ofNat']
    omega

theorem encoded_append : encoded (u ++ rest) = encoded u ++ encoded rest := by
  simp only [encoded, List.flatMap_append, List.map_append]

theorem encoded_of_ascii (h : ∀ c ∈ u, c.toNat < 0x80) : encoded u = u := by
  have hcodes : u.flatMap String.utf8EncodeChar = u.map Char.toUInt8 := by
    rw [List.map_eq_flatMap]
    exact List.flatMap_congr fun c hc => utf8EncodeChar_of_lt (h c hc)
  rw [encoded, hcodes, ofUInt8_map_toUInt8 h]

theorem Stops.encoded (h : Stops isNumberChar rest) : Stops isNumberChar (encoded rest) := by
  cases rest with
  | nil => exact h
  | cons c rest =>
    rw [← List.singleton_append, encoded_append]
    rcases Nat.lt_or_ge c.toNat 0x80 with hlt | hle
    · rw [encoded_of_ascii (by simpa using hlt)]
      exact stops_cons.mpr (stops_cons.mp h)
    · obtain ⟨b, bs, hbytes, hb⟩ := exists_utf8EncodeChar_of_le hle
      -- A byte beyond ASCII is the code of no character that numbers are written with.
      have hone : encoded [c] = Char.ofUInt8 b :: bs.map Char.ofUInt8 := by
        simp [encoded, hbytes]
      rw [hone, List.cons_append, stops_cons, Bool.eq_false_iff]
      intro hnumber
      have hlt := lt_of_isNumberChar hnumber
      rw [toNat_ofUInt8] at hlt
      exact Nat.not_lt.mpr hb hlt

/-- In the encoding of a text the literal is the one of the text. -/
theorem leadingNumber_encoded (cs : List Char) :
    leadingNumber (encoded cs) = leadingNumber cs := by
  -- Up to the first character that no literal holds the two are the same, and it stops both.
  have hascii : ∀ c ∈ cs.takeWhile isNumberChar, c.toNat < 0x80 :=
    fun c hc => lt_of_isNumberChar (List.all_eq_true.mp List.all_takeWhile c hc)
  have hstops := stops_dropWhile isNumberChar cs
  calc leadingNumber (encoded cs)
      = leadingNumber (encoded (cs.takeWhile isNumberChar ++ cs.dropWhile isNumberChar)) := by
        rw [List.takeWhile_append_dropWhile]
    _ = leadingNumber (cs.takeWhile isNumberChar ++ encoded (cs.dropWhile isNumberChar)) := by
        rw [encoded_append, encoded_of_ascii hascii]
    _ = leadingNumber (cs.takeWhile isNumberChar) := leadingNumber_append hstops.encoded
    _ = leadingNumber (cs.takeWhile isNumberChar ++ cs.dropWhile isNumberChar) :=
        (leadingNumber_append hstops).symm
    _ = leadingNumber cs := by rw [List.takeWhile_append_dropWhile]

theorem toList_toUTF8 (text : String) :
    text.toUTF8.data.toList = text.toList.flatMap String.utf8EncodeChar := by
  have hbytes : text.toByteArray = text.toList.utf8Encode := by
    rw [← String.toByteArray_ofList, String.ofList_toList]
  rw [String.toUTF8_eq_toByteArray, hbytes, List.utf8Encode, List.data_toByteArray]

end

/-- Whatever bytes are scanned, the literal that is found is the longest of their
prefixes that the expression matches, and none is found just where it matches
none. This is how the lexer reads numbers: the rule takes as many characters of
a text as the scan finds bytes in its encoding. -/
theorem number_ends_at_longest_match :
    (∀ bytes n, numberLength? bytes = some n ↔ IsGreatest (matchLengths numberBytes bytes) n) ∧
    (∀ bytes, numberLength? bytes = none ↔ matchLengths numberBytes bytes = ∅) ∧
    ∀ (ts : Tables) (text : String), Rule.number ts text.toList =
      (numberLength? text.toUTF8.data.toList).map fun n =>
        Step.one .number (text.toList.take n) (.push .expectUnit) := by
  refine ⟨fun _ _ => numberLength?_eq_some_iff, fun _ => numberLength?_eq_none_iff, ?_⟩
  intro ts text
  have hfound : leadingNumber (text.toUTF8.data.toList.map Char.ofUInt8) =
      leadingNumber text.toList := by
    rw [toList_toUTF8]
    exact leadingNumber_encoded text.toList
  have htake := List.prefix_iff_eq_take.mp (leadingNumber_isPrefix text.toList)
  simp only [Rule.number, Step.one?, numberLength?, hfound]
  split_ifs with h
  · rfl
  · rw [Option.map_some, ← htake]

/-- The digit of `1.e` is a number and the rest is not, also before a byte that
no text goes on with. -/
example : numberLength? [0x31, 0x2e, 0x65, 0xff] = some 1 := by decide

end UnitLexer
