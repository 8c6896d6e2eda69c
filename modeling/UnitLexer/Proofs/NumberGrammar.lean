/-
UnitLexer.Proofs.NumberGrammar — the grammar of numeric literals.

The grammar is given here on its own, one constructor for each form of
`[0-9]*\.?[0-9]+([eE][-+]?[0-9]+)?`, and the scanning functions find what it
describes: a literal is found whole wherever nothing that numbers are written
with follows it, nothing is found that is no literal, and whatever follows, what
is found is the longest literal there (`isLongestNumber_iff`).

Numbers that are printed have no sign and no fraction: their digits are those of
one number (`toDigits_inj`).
-/
import Mathlib.Tactic.SplitIfs
import UnitLexer.Proofs.Scanning

namespace UnitLexer

/-! ## §1 The grammar -/

/-- `[0-9]+` -/
structure IsDigits (cs : List Char) : Prop where
  ne_nil : cs ≠ []
  digit : ∀ c ∈ cs, c.isDigit = true

theorem isDigits_singleton {c : Char} (h : c.isDigit = true) : IsDigits [c] :=
  ⟨List.cons_ne_nil c [], by simpa using h⟩

/-- `[-+]?[0-9]+` -/
inductive IsInteger : List Char → Prop where
  | unsigned {ds : List Char} (h : IsDigits ds) : IsInteger ds
  | plus {ds : List Char} (h : IsDigits ds) : IsInteger ('+' :: ds)
  | minus {ds : List Char} (h : IsDigits ds) : IsInteger ('-' :: ds)

/-- `[0-9]*\.?[0-9]+` -/
inductive IsMantissa : List Char → Prop where
  | whole {ds : List Char} (h : IsDigits ds) : IsMantissa ds
  | fraction {ds fs : List Char} (hd : ∀ c ∈ ds, c.isDigit = true) (hf : IsDigits fs) :
      IsMantissa (ds ++ '.' :: fs)

/-- `[0-9]*\.?[0-9]+([eE][-+]?[0-9]+)?` -/
inductive IsNumber : List Char → Prop where
  | plain {ms : List Char} (h : IsMantissa ms) : IsNumber ms
  | lower {ms is : List Char} (hm : IsMantissa ms) (hi : IsInteger is) : IsNumber (ms ++ 'e' :: is)
  | upper {ms is : List Char} (hm : IsMantissa ms) (hi : IsInteger is) : IsNumber (ms ++ 'E' :: is)

/-! ## §2 What the grammar describes is found whole -/

section

variable {cs rest : List Char}

theorem IsDigits.leading (h : IsDigits cs) (hrest : Stops Char.isDigit rest) :
    leadingDigits (cs ++ rest) = cs :=
  takeWhile_append_of_all h.digit hrest

/-- Where digits come first, there is no sign. -/
theorem IsDigits.leadingInteger_append (h : IsDigits cs) (rest : List Char) :
    leadingInteger (cs ++ rest) = leadingDigits (cs ++ rest) := by
  obtain ⟨c, cs, rfl⟩ := List.exists_cons_of_ne_nil h.ne_nil
  have hc : c.isDigit = true := h.digit c List.mem_cons_self
  have hp : c ≠ '+' := by rintro rfl; contradiction
  have hm : c ≠ '-' := by rintro rfl; contradiction
  exact leadingInteger_of_unsigned hp hm

theorem IsInteger.ne_nil (h : IsInteger cs) : cs ≠ [] := by
  cases h with
  | unsigned h => exact h.ne_nil
  | plus h | minus h => exact List.cons_ne_nil _ _

theorem IsInteger.leading (h : IsInteger cs) (hrest : Stops Char.isDigit rest) :
    leadingInteger (cs ++ rest) = cs := by
  cases h with
  | plus h => simp [leadingInteger, h.leading hrest, h.ne_nil]
  | minus h => simp [leadingInteger, h.leading hrest, h.ne_nil]
  | unsigned h =>
    rw [h.leadingInteger_append]
    exact h.leading hrest

theorem IsMantissa.ne_nil (h : IsMantissa cs) : cs ≠ [] := by
  cases h with
  | whole h => exact h.ne_nil
  | fraction => simp

theorem IsMantissa.leading (h : IsMantissa cs) (hrest : Stops Char.isDigit rest)
    (hpoint : rest.head? ≠ some '.') : leadingMantissa (cs ++ rest) = cs := by
  cases h with
  | whole h =>
    have hfrac : leadingFraction rest = [] := by
      unfold leadingFraction
      split
      · simp at hpoint
      · rfl
    simp only [leadingMantissa, h.leading hrest, List.drop_left, hfrac, List.append_nil]
  | @fraction ds fs hd hf =>
    have hwhole : leadingDigits (ds ++ ('.' :: fs ++ rest)) = ds :=
      takeWhile_append_of_all hd (by simp)
    have hfrac : leadingFraction ('.' :: fs ++ rest) = '.' :: fs := by
      simp [leadingFraction, hf.leading hrest, hf.ne_nil]
    simp only [leadingMantissa, List.append_assoc, hwhole, List.drop_left, hfrac]

/-- Behind a mantissa a literal goes on with a letter if an integer follows that. -/
theorem IsMantissa.leadingNumber_append {c : Char} (h : IsMantissa cs) (hc : c = 'e' ∨ c = 'E')
    (tail : List Char) : leadingNumber (cs ++ c :: tail) =
      cs ++ if leadingInteger tail = [] then [] else c :: leadingInteger tail := by
  have hmant : leadingMantissa (cs ++ c :: tail) = cs := by
    rcases hc with rfl | rfl <;> exact h.leading (stops_cons.mpr (by decide)) (by simp)
  have hexp : leadingExponent (c :: tail) =
      if leadingInteger tail = [] then [] else c :: leadingInteger tail := by
    rcases hc with rfl | rfl <;> rfl
  simp only [leadingNumber, hmant, h.ne_nil, if_false, List.drop_left, hexp]

theorem IsNumber.ne_nil (h : IsNumber cs) : cs ≠ [] := by
  cases h with
  | plain h => exact h.ne_nil
  | lower | upper => simp

/-- A literal is found whole. -/
theorem IsNumber.leading (h : IsNumber cs) (hrest : Stops isNumberChar rest) :
    leadingNumber (cs ++ rest) = cs := by
  cases h with
  | plain h =>
    have hpoint : rest.head? ≠ some '.' := fun hd => absurd (hrest '.' hd) (by decide)
    have hexp : leadingExponent rest = [] := by
      rw [← List.nil_append rest, leadingExponent_append hrest]
      rfl
    simp only [leadingNumber, h.leading hrest.digit hpoint, h.ne_nil, if_false, List.drop_left,
      hexp, List.append_nil]
  | lower hm hi | upper hm hi =>
    rw [List.append_assoc, List.cons_append, hm.leadingNumber_append (by simp),
      hi.leading hrest.digit, if_neg hi.ne_nil]

/-! ## §3 What is found is in the grammar -/

theorem isDigits_leadingDigits (h : leadingDigits cs ≠ []) : IsDigits (leadingDigits cs) :=
  ⟨h, fun _ hc => List.all_eq_true.mp List.all_takeWhile _ hc⟩

theorem isInteger_leadingInteger (h : leadingInteger cs ≠ []) : IsInteger (leadingInteger cs) := by
  unfold leadingInteger at h ⊢
  split
  · next tail =>
    by_cases hd : leadingDigits tail = []
    · simp [hd] at h
    · simpa [hd] using IsInteger.plus (isDigits_leadingDigits hd)
  · next tail =>
    by_cases hd : leadingDigits tail = []
    · simp [hd] at h
    · simpa [hd] using IsInteger.minus (isDigits_leadingDigits hd)
  · next hp hm =>
    refine .unsigned (isDigits_leadingDigits ?_)
    split at h
    · next tail => exact absurd rfl (hp tail)
    · next tail => exact absurd rfl (hm tail)
    · exact h

/-- A fraction is nothing, or a point and digits. -/
theorem leadingFraction_cases (cs : List Char) :
    leadingFraction cs = [] ∨ ∃ fs, leadingFraction cs = '.' :: fs ∧ IsDigits fs := by
  unfold leadingFraction
  split
  · next tail =>
    by_cases hd : leadingDigits tail = []
    · simp [hd]
    · exact .inr ⟨_, if_neg hd, isDigits_leadingDigits hd⟩
  · exact .inl rfl

/-- An exponent is nothing, or a letter and an integer. -/
theorem leadingExponent_cases (cs : List Char) : leadingExponent cs = [] ∨
    ∃ is, (leadingExponent cs = 'e' :: is ∨ leadingExponent cs = 'E' :: is) ∧ IsInteger is := by
  unfold leadingExponent
  split
  · next tail =>
    by_cases hi : leadingInteger tail = []
    · simp [hi]
    · exact .inr ⟨_, .inl (if_neg hi), isInteger_leadingInteger hi⟩
  · next tail =>
    by_cases hi : leadingInteger tail = []
    · simp [hi]
    · exact .inr ⟨_, .inr (if_neg hi), isInteger_leadingInteger hi⟩
  · exact .inl rfl

theorem isMantissa_leadingMantissa (h : leadingMantissa cs ≠ []) :
    IsMantissa (leadingMantissa cs) := by
  have hdigit : ∀ c ∈ leadingDigits cs, c.isDigit = true :=
    fun _ hc => List.all_eq_true.mp List.all_takeWhile _ hc
  unfold leadingMantissa at h ⊢
  dsimp only at h ⊢
  rcases leadingFraction_cases (cs.drop (leadingDigits cs).length) with hf | ⟨fs, hf, hfs⟩
  · rw [hf, List.append_nil] at h ⊢
    exact .whole (isDigits_leadingDigits h)
  · rw [hf]
    exact .fraction hdigit hfs

/-- A literal that is found is one of the grammar. -/
theorem isNumber_leadingNumber (h : leadingNumber cs ≠ []) : IsNumber (leadingNumber cs) := by
  unfold leadingNumber at h ⊢
  dsimp only at h ⊢
  by_cases hm : leadingMantissa cs = []
  · simp [hm] at h
  · have hmant := isMantissa_leadingMantissa hm
    rw [if_neg hm]
    rcases leadingExponent_cases (cs.drop (leadingMantissa cs).length) with
      he | ⟨is, he | he, his⟩
    · rw [he, List.append_nil]
      exact .plain hmant
    · rw [he]
      exact .lower hmant his
    · rw [he]
      exact .upper hmant his

/-! ## §4 No longer literal is there -/

/-- The literal starts the text, and no longer one does. -/
structure IsLongestNumber (n cs : List Char) : Prop where
  isNumber : IsNumber n
  isPrefix : n <+: cs
  longest : ∀ m, IsNumber m → m <+: cs → m.length ≤ n.length

theorem isPrefix_leadingDigits (h : ∀ c ∈ cs, c.isDigit = true) (rest : List Char) :
    cs <+: leadingDigits (cs ++ rest) := by
  rw [leadingDigits, List.takeWhile_append_of_pos h]
  exact List.prefix_append _ _

theorem IsInteger.isPrefix_leading (h : IsInteger cs) (rest : List Char) :
    cs <+: leadingInteger (cs ++ rest) := by
  cases h with
  | @plus ds h =>
    have hds := isPrefix_leadingDigits h.digit rest
    simpa [leadingInteger, hds.ne_nil h.ne_nil] using hds
  | @minus ds h =>
    have hds := isPrefix_leadingDigits h.digit rest
    simpa [leadingInteger, hds.ne_nil h.ne_nil] using hds
  | unsigned h =>
    rw [h.leadingInteger_append]
    exact isPrefix_leadingDigits h.digit rest

theorem IsMantissa.isPrefix_leading (h : IsMantissa cs) (rest : List Char) :
    cs <+: leadingMantissa (cs ++ rest) := by
  cases h with
  | whole h => exact (isPrefix_leadingDigits h.digit rest).trans (List.prefix_append _ _)
  | @fraction ds fs hd hf =>
    have hwhole : leadingDigits (ds ++ ('.' :: fs ++ rest)) = ds :=
      takeWhile_append_of_all hd (by simp)
    have hfs := isPrefix_leadingDigits hf.digit rest
    have hfrac : leadingFraction ('.' :: fs ++ rest) = '.' :: leadingDigits (fs ++ rest) := by
      simp [leadingFraction, hfs.ne_nil hf.ne_nil]
    simp only [leadingMantissa, List.append_assoc, hwhole, List.drop_left, hfrac]
    simpa using hfs

/-- What is found reaches as far as any literal that starts the text. -/
theorem IsNumber.isPrefix_leading (h : IsNumber cs) (rest : List Char) :
    cs <+: leadingNumber (cs ++ rest) := by
  cases h with
  | plain h =>
    have hms := h.isPrefix_leading rest
    rw [leadingNumber, if_neg (hms.ne_nil h.ne_nil)]
    exact hms.trans (List.prefix_append _ _)
  | lower hm hi | upper hm hi =>
    have his := hi.isPrefix_leading rest
    rw [List.append_assoc, List.cons_append, hm.leadingNumber_append (by simp),
      if_neg (his.ne_nil hi.ne_nil)]
    simpa using his

theorem IsNumber.isPrefix_leadingNumber {m : List Char} (hm : IsNumber m) (h : m <+: cs) :
    m <+: leadingNumber cs := by
  obtain ⟨tail, rfl⟩ := h
  exact hm.isPrefix_leading tail

/-- The literal that is found is the longest one. -/
theorem isLongestNumber_iff {n : List Char} :
    IsLongestNumber n cs ↔ n ≠ [] ∧ leadingNumber cs = n := by
  constructor
  · intro h
    have hn := h.isNumber.isPrefix_leadingNumber h.isPrefix
    have hfound := isNumber_leadingNumber (hn.ne_nil h.isNumber.ne_nil)
    have hle := h.longest _ hfound (leadingNumber_isPrefix cs)
    exact ⟨h.isNumber.ne_nil, (hn.eq_of_length_le hle).symm⟩
  · rintro ⟨hne, rfl⟩
    exact ⟨isNumber_leadingNumber hne, leadingNumber_isPrefix cs,
      fun _ hm hprefix => (hm.isPrefix_leadingNumber hprefix).length_le⟩

/-! ## §5 The characters of a literal -/

theorem isNumberChar_of_isDigit {c : Char} (h : c.isDigit = true) : isNumberChar c = true := by
  simp [isNumberChar, h]

theorem IsInteger.numberChar (h : IsInteger cs) : ∀ c ∈ cs, isNumberChar c = true := by
  cases h with
  | unsigned h => exact fun c hc => isNumberChar_of_isDigit (h.digit c hc)
  | plus h | minus h =>
    intro c hc
    rcases List.mem_cons.mp hc with rfl | hc
    · decide
    · exact isNumberChar_of_isDigit (h.digit c hc)

theorem IsMantissa.numberChar (h : IsMantissa cs) : ∀ c ∈ cs, isNumberChar c = true := by
  cases h with
  | whole h => exact fun c hc => isNumberChar_of_isDigit (h.digit c hc)
  | fraction hd hf =>
    intro c hc
    rcases List.mem_append.mp hc with hc | hc
    · exact isNumberChar_of_isDigit (hd c hc)
    · rcases List.mem_cons.mp hc with rfl | hc
      · decide
      · exact isNumberChar_of_isDigit (hf.digit c hc)

theorem IsNumber.numberChar (h : IsNumber cs) : ∀ c ∈ cs, isNumberChar c = true := by
  cases h with
  | plain h => exact h.numberChar
  | lower hm hi | upper hm hi =>
    intro c hc
    rcases List.mem_append.mp hc with hc | hc
    · exact hm.numberChar c hc
    · rcases List.mem_cons.mp hc with rfl | hc
      · decide
      · exact hi.numberChar c hc

end

/-! ## §6 Printed numbers -/

/-- The last digit of a number, behind those of the number without it. -/
theorem toDigits_eq_append {b : Nat} (hb : 1 < b) (n : Nat) :
    Nat.toDigits b n =
      (if n < b then [] else Nat.toDigits b (n / b)) ++ [Nat.digitChar (n % b)] := by
  rw [Nat.toDigits_eq_if hb]
  split_ifs with hn
  · rw [Nat.mod_eq_of_lt hn, List.nil_append]
  · rfl

/-- The digits of a number are digits. -/
theorem exists_digitChar_of_mem_toDigits {b n : Nat} {c : Char} (hb : 1 < b)
    (h : c ∈ Nat.toDigits b n) : ∃ d, c = Nat.digitChar d := by
  induction n using Nat.strongRecOn with
  | ind n ih =>
    rw [toDigits_eq_append hb, List.mem_append, List.mem_singleton] at h
    rcases h with h | h
    · split_ifs at h with hn
      · contradiction
      · exact ih (n / b) (Nat.div_lt_self (by omega) hb) h
    · exact ⟨n % b, h⟩

theorem digitChar_inj : ∀ m < 16, ∀ n < 16, Nat.digitChar m = Nat.digitChar n → m = n := by
  decide

/-- No two numbers have the same digits. -/
theorem toDigits_inj {b m n : Nat} (hb : 1 < b) (hb' : b ≤ 16)
    (h : Nat.toDigits b m = Nat.toDigits b n) : m = n := by
  induction m using Nat.strongRecOn generalizing n with
  | ind m ih =>
    rw [toDigits_eq_append hb, toDigits_eq_append hb n, List.append_singleton_inj] at h
    have hm := Nat.mod_lt m (Nat.zero_lt_of_lt hb)
    have hn := Nat.mod_lt n (Nat.zero_lt_of_lt hb)
    have hlast : m % b = n % b := digitChar_inj _ (by omega) _ (by omega) h.2
    have hfirst := h.1
    split_ifs at hfirst with hsmall hsmall' hsmall'
    · rwa [Nat.mod_eq_of_lt hsmall, Nat.mod_eq_of_lt hsmall'] at hlast
    · exact absurd hfirst.symm Nat.toDigits_ne_nil
    · exact absurd hfirst Nat.toDigits_ne_nil
    · have hquot := ih (m / b) (Nat.div_lt_self (by omega) hb) hfirst
      rw [← Nat.div_add_mod m b, ← Nat.div_add_mod n b, hquot, hlast]

/-- A number starts with a zero only if it is zero. -/
theorem toDigits_head_zero {n : Nat} (h : (Nat.toDigits 10 n).head? = some '0') :
    Nat.toDigits 10 n = ['0'] := by
  induction n using Nat.strongRecOn with
  | ind n ih =>
    by_cases hn : n < 10
    · rw [Nat.toDigits_of_lt_base hn] at h ⊢
      simpa using h
    · have hlast := Nat.toDigits_of_base_le (by decide) (Nat.not_lt.mp hn)
      rw [hlast, List.head?_append, List.head?_eq_some_head Nat.toDigits_ne_nil, Option.some_or,
        ← List.head?_eq_some_head] at h
      have hzero : n / 10 = 0 := toDigits_inj (by decide) (by decide) (ih (n / 10) (by omega) h)
      omega

end UnitLexer
