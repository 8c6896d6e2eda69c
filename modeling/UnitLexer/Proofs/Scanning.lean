/-
UnitLexer.Proofs.Scanning — scanning does not look past a character that stops it.

Every scanning function reads runs of character classes, and what follows the
run matters only through its first character. If that one belongs to none of
the classes scanned for (`Stops`), the text behind it can be anything or be
missing: the answer is the same. Both uses of the library are instances: a
lexeme followed by a lexeme of another kind, and a line followed by its break.
-/
import UnitLexer.Rule.Quantity

namespace UnitLexer

/-! ## §1 Runs -/

/-- The text does not start with a character of the class. -/
def Stops (p : Char → Bool) (rest : List Char) : Prop :=
  ∀ d, rest.head? = some d → p d = false

theorem stops_nil (p : Char → Bool) : Stops p [] := by
  simp [Stops]

@[simp] theorem stops_cons {p : Char → Bool} {c : Char} {cs : List Char} :
    Stops p (c :: cs) ↔ p c = false := by
  simp [Stops]

theorem Stops.mono {p q : Char → Bool} {rest : List Char} (h : Stops p rest)
    (hqp : ∀ c, q c = true → p c = true) : Stops q rest := by
  intro d hd
  have hp := h d hd
  cases hq : q d with
  | false => rfl
  | true => rw [hqp d hq] at hp; contradiction

section

variable {p : Char → Bool} {u rest : List Char}

theorem takeWhile_eq_nil_of_stops (h : Stops p rest) : rest.takeWhile p = [] := by
  cases rest with
  | nil => rfl
  | cons d ds => simp [stops_cons.mp h]

theorem dropWhile_eq_self_of_stops (h : Stops p rest) : rest.dropWhile p = rest := by
  cases rest with
  | nil => rfl
  | cons d ds => simp [stops_cons.mp h]

theorem takeWhile_append_of_stops (h : Stops p rest) :
    (u ++ rest).takeWhile p = u.takeWhile p := by
  induction u with
  | nil => exact takeWhile_eq_nil_of_stops h
  | cons c u ih => by_cases hc : p c <;> simp [hc, ih]

theorem dropWhile_append_of_stops (h : Stops p rest) :
    (u ++ rest).dropWhile p = u.dropWhile p ++ rest := by
  induction u with
  | nil => exact dropWhile_eq_self_of_stops h
  | cons c u ih => by_cases hc : p c <;> simp [hc, ih]

theorem notMem_takeWhile {c : Char} (h : p c = false) : c ∉ u.takeWhile p := by
  intro hc
  rw [List.all_eq_true.mp List.all_takeWhile c hc] at h
  contradiction

theorem stops_dropWhile (p : Char → Bool) (cs : List Char) : Stops p (cs.dropWhile p) := by
  induction cs with
  | nil => exact stops_nil p
  | cons c cs ih => by_cases hc : p c <;> simp [hc, ih]

/-- What comes after a run is what is left without it. -/
theorem eq_dropWhile_of_append (h : u = u.takeWhile p ++ rest) : rest = u.dropWhile p :=
  List.append_cancel_left (h.symm.trans List.takeWhile_append_dropWhile.symm)

theorem drop_length_takeWhile (p : Char → Bool) (cs : List Char) :
    cs.drop (cs.takeWhile p).length = cs.dropWhile p :=
  eq_dropWhile_of_append (List.prefix_iff_eq_append.mp (List.takeWhile_prefix p)).symm

/-- What comes after a run does not continue it. -/
theorem stops_of_takeWhile (h : u = u.takeWhile p ++ rest) : Stops p rest := by
  rw [eq_dropWhile_of_append h]
  exact stops_dropWhile p u

/-- A run whose characters may all stand inside it, and that is followed by
none, is found whole. -/
theorem takeWhile_append_of_all (hu : ∀ c ∈ u, p c = true) (h : Stops p rest) :
    (u ++ rest).takeWhile p = u := by
  rw [List.takeWhile_append_of_pos hu, takeWhile_eq_nil_of_stops h, List.append_nil]

theorem leadingRun_append_of_stops {first other : Char → Bool} (hf : Stops first rest)
    (ho : Stops other rest) : leadingRun first other (u ++ rest) = leadingRun first other u := by
  cases u with
  | cons c u => simp only [List.cons_append, leadingRun, takeWhile_append_of_stops ho]
  | nil =>
    cases rest with
    | nil => rfl
    | cons d ds => simp [leadingRun, stops_cons.mp hf]

theorem leadingRun_of_stops {first other : Char → Bool} (h : Stops first rest) :
    leadingRun first other rest = [] := by
  cases rest with
  | nil => rfl
  | cons d ds => simp [leadingRun, stops_cons.mp h]

/-- What stands behind a scanned prefix, with more behind it. -/
theorem drop_append_of_isPrefix {w : List Char} (h : w <+: u) :
    (u ++ rest).drop w.length = u.drop w.length ++ rest :=
  List.drop_append_of_le_length h.length_le

/-! ## §2 Words -/

/-- Where a run may start with what it may go on with, all of it is of that class. -/
theorem of_mem_leadingRun {first other : Char → Bool} {c : Char}
    (hc : c ∈ leadingRun first other u) (h : ∀ c, first c = true → other c = true) :
    other c = true := by
  cases u with
  | nil => simp [leadingRun] at hc
  | cons d u =>
    by_cases hd : first d = true
    · simp only [leadingRun, hd, if_true, List.mem_cons] at hc
      rcases hc with rfl | hc
      · exact h c hd
      · exact List.all_eq_true.mp List.all_takeWhile c hc
    · simp [leadingRun, hd] at hc

theorem isWordChar_of_mem_leadingName {c : Char} (h : c ∈ leadingName u) : isWordChar c = true :=
  of_mem_leadingRun h fun _ => isWordChar_of_isWordStart

theorem isUnitChar_of_mem_leadingUnitWord {c : Char} (h : c ∈ leadingUnitWord u) :
    isUnitChar c = true :=
  of_mem_leadingRun h fun _ => isUnitChar_of_isUnitStart

theorem leadingRun_eq_self {first other : Char → Bool} {c : Char} (hc : first c = true)
    (hu : ∀ d ∈ u, other d = true) : leadingRun first other (c :: u) = c :: u := by
  simpa using leadingRun_append hc hu (by simp : ∀ d, [].head? = some d → other d = false)

/-- A run that is found is one character of the first class and others of the second. -/
theorem leadingRun_cases {first other : Char → Bool} (h : leadingRun first other u ≠ []) :
    ∃ c cs, leadingRun first other u = c :: cs ∧ first c = true ∧ ∀ d ∈ cs, other d = true := by
  cases u with
  | nil => exact absurd rfl h
  | cons c u =>
    by_cases hc : first c = true
    · exact ⟨c, u.takeWhile other, by simp [leadingRun, hc], hc,
        fun _ hd => List.all_eq_true.mp List.all_takeWhile _ hd⟩
    · simp [leadingRun, hc] at h

theorem isUnitChar_of_isWordChar {c : Char} (h : isWordChar c = true) : isUnitChar c = true := by
  simp only [isWordChar, Char.isAlphanum, Bool.or_eq_true] at h
  rcases h with (h | h) | h <;> simp [isUnitChar, isUnitStart, isWordStart, h]

/-- A name that is found is one. -/
theorem isName_leadingName (h : leadingName u ≠ []) :
    isName (String.ofList (leadingName u)) = true := by
  obtain ⟨c, cs, hrun, hc, hcs⟩ := leadingRun_cases h
  rw [leadingName, hrun]
  simp [isName, leadingName, leadingRun_eq_self hc hcs]

/-- A unit word that is found is one. -/
theorem isUnitWord_leadingUnitWord (h : leadingUnitWord u ≠ []) :
    isUnitWord (String.ofList (leadingUnitWord u)) = true := by
  obtain ⟨c, cs, hrun, hc, hcs⟩ := leadingRun_cases h
  rw [leadingUnitWord, hrun]
  simp [isUnitWord, leadingUnitWord, leadingRun_eq_self hc hcs]

/-- A name is a unit word too. -/
theorem isUnitWord_leadingName (h : leadingName u ≠ []) :
    isUnitWord (String.ofList (leadingName u)) = true := by
  obtain ⟨c, cs, hrun, hc, hcs⟩ := leadingRun_cases h
  rw [leadingName, hrun]
  simp [isUnitWord, leadingUnitWord, leadingRun_eq_self (isUnitStart_of_isWordStart hc)
    fun d hd => isUnitChar_of_isWordChar (hcs d hd)]

theorem leadingName_append (h : Stops isWordChar rest) :
    leadingName (u ++ rest) = leadingName u :=
  leadingRun_append_of_stops (h.mono fun _ => isWordChar_of_isWordStart) h

theorem leadingUnitWord_append (h : Stops isUnitChar rest) :
    leadingUnitWord (u ++ rest) = leadingUnitWord u :=
  leadingRun_append_of_stops (h.mono fun _ => isUnitChar_of_isUnitStart) h

theorem leadingUnit_append (ts : Tables) (h : Stops isUnitChar rest) :
    leadingUnit ts (u ++ rest) = leadingUnit ts u := by
  simp only [leadingUnit, leadingUnitWord_append h]

theorem leadingName_of_stops (h : Stops isWordStart rest) : leadingName rest = [] :=
  leadingRun_of_stops h

theorem leadingUnitWord_of_stops (h : Stops isUnitStart rest) : leadingUnitWord rest = [] :=
  leadingRun_of_stops h

theorem leadingUnit_of_stops {ts : Tables} (h : Stops isUnitStart rest) :
    leadingUnit ts rest = [] := by
  simp [leadingUnit, leadingUnitWord_of_stops h]

/-- What the look-ahead for a group passes over before the first word. -/
def opensOrBlank (c : Char) : Bool :=
  c == '(' || isBlank c

theorem opensOrBlank_of_isBlank {c : Char} (h : isBlank c = true) : opensOrBlank c = true := by
  simp [opensOrBlank, h]

/-- The scan passes over blanks at the start of the input first. -/
theorem takeWhile_opensOrBlank (cs : List Char) : cs.takeWhile opensOrBlank =
    cs.takeWhile isBlank ++ (cs.dropWhile isBlank).takeWhile opensOrBlank := by
  conv =>
    lhs
    rw [← List.takeWhile_append_dropWhile (p := isBlank) (l := cs)]
  exact List.takeWhile_append_of_pos fun c hc =>
    opensOrBlank_of_isBlank (List.all_eq_true.mp List.all_takeWhile c hc)

theorem dropWhile_opensOrBlank (cs : List Char) :
    cs.dropWhile opensOrBlank = (cs.dropWhile isBlank).dropWhile opensOrBlank := by
  conv =>
    lhs
    rw [← List.takeWhile_append_dropWhile (p := isBlank) (l := cs)]
  exact List.dropWhile_append_of_pos fun c hc =>
    opensOrBlank_of_isBlank (List.all_eq_true.mp List.all_takeWhile c hc)

theorem opensUnitGroup_eq (ts : Tables) (cs : List Char) : opensUnitGroup ts cs =
    (cs.head? = some '(' && leadingUnit ts (cs.dropWhile opensOrBlank) ≠ []) := rfl

theorem opensUnitGroup_append (ts : Tables) (h : Stops opensOrBlank rest)
    (hw : Stops isUnitChar rest) : opensUnitGroup ts (u ++ rest) = opensUnitGroup ts u := by
  have hhead : ((u ++ rest).head? = some '(') = (u.head? = some '(') := by
    cases u with
    | cons c u => rfl
    | nil =>
      simp only [List.nil_append, List.head?_nil, reduceCtorEq, eq_iff_iff, iff_false]
      intro hd
      exact absurd (h '(' hd) (by decide)
  simp only [opensUnitGroup_eq, dropWhile_append_of_stops h, leadingUnit_append ts hw, hhead]

/-! ## §3 Numbers -/

/-- The characters that numeric literals are written with. -/
def isNumberChar (c : Char) : Bool :=
  c.isDigit || c == '.' || c == 'e' || c == 'E' || c == '+' || c == '-'

theorem Stops.digit (h : Stops isNumberChar rest) : Stops Char.isDigit rest :=
  h.mono fun c hc => by simp [isNumberChar, hc]

theorem leadingDigits_append (h : Stops Char.isDigit rest) :
    leadingDigits (u ++ rest) = leadingDigits u :=
  takeWhile_append_of_stops h

theorem leadingFraction_append (h : Stops isNumberChar rest) :
    leadingFraction (u ++ rest) = leadingFraction u := by
  cases u with
  | cons c u =>
    by_cases hc : c = '.'
    · simp only [hc, List.cons_append, leadingFraction, leadingDigits_append h.digit]
    · simp [leadingFraction, hc]
  | nil =>
    cases rest with
    | nil => rfl
    | cons d ds =>
      have hd : d ≠ '.' := by rintro rfl; simp [isNumberChar] at h
      simp [leadingFraction, hd]

theorem leadingInteger_of_unsigned {c : Char} {cs : List Char} (hp : c ≠ '+') (hm : c ≠ '-') :
    leadingInteger (c :: cs) = leadingDigits (c :: cs) := by
  unfold leadingInteger
  split <;> simp_all

theorem leadingInteger_append (h : Stops isNumberChar rest) :
    leadingInteger (u ++ rest) = leadingInteger u := by
  cases u with
  | cons c u =>
    by_cases hp : c = '+'
    · simp only [hp, List.cons_append, leadingInteger, leadingDigits_append h.digit]
    · by_cases hm : c = '-'
      · simp only [hm, List.cons_append, leadingInteger, leadingDigits_append h.digit]
      · rw [leadingInteger_of_unsigned hp hm, List.cons_append, leadingInteger_of_unsigned hp hm]
        exact leadingDigits_append (u := c :: u) h.digit
  | nil =>
    cases rest with
    | nil => rfl
    | cons d ds =>
      have hp : d ≠ '+' := by rintro rfl; simp [isNumberChar] at h
      have hm : d ≠ '-' := by rintro rfl; simp [isNumberChar] at h
      rw [List.nil_append, leadingInteger_of_unsigned hp hm]
      exact leadingDigits_append (u := []) h.digit

theorem leadingExponent_append (h : Stops isNumberChar rest) :
    leadingExponent (u ++ rest) = leadingExponent u := by
  cases u with
  | cons c u =>
    by_cases hl : c = 'e'
    · simp only [hl, List.cons_append, leadingExponent, leadingInteger_append h]
    · by_cases hu : c = 'E'
      · simp only [hu, List.cons_append, leadingExponent, leadingInteger_append h]
      · simp [leadingExponent, hl, hu]
  | nil =>
    cases rest with
    | nil => rfl
    | cons d ds =>
      have hl : d ≠ 'e' := by rintro rfl; simp [isNumberChar] at h
      have hu : d ≠ 'E' := by rintro rfl; simp [isNumberChar] at h
      simp [leadingExponent, hl, hu]

theorem leadingMantissa_isPrefix (cs : List Char) : leadingMantissa cs <+: cs :=
  append_isPrefix (leadingDigits_isPrefix cs) (leadingFraction_isPrefix _)

theorem leadingMantissa_append (h : Stops isNumberChar rest) :
    leadingMantissa (u ++ rest) = leadingMantissa u := by
  simp only [leadingMantissa, leadingDigits_append h.digit,
    drop_append_of_isPrefix (leadingDigits_isPrefix u), leadingFraction_append h]

theorem leadingNumber_append (h : Stops isNumberChar rest) :
    leadingNumber (u ++ rest) = leadingNumber u := by
  simp only [leadingNumber, leadingMantissa_append h,
    drop_append_of_isPrefix (leadingMantissa_isPrefix u), leadingExponent_append h]

theorem leadingNumber_of_stops (h : Stops isNumberChar rest) : leadingNumber rest = [] :=
  leadingNumber_append (u := []) h

end

end UnitLexer
