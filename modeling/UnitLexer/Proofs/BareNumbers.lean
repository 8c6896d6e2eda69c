/-
UnitLexer.Proofs.BareNumbers — numbers without a unit.

After every number the lexer expects a unit, past blanks too. If none is there
(`NoUnitAhead`), the mode that was opened for it hands the input back before a
character of it has been read, and the root mode goes on as at the start of a
source. So the number leaves no trace: what follows it is read as a source of
its own, be it arithmetic, a string, a call, a comment or another number
(`tokenize_number_append`).
-/
import UnitLexer.Proofs.Lines
import UnitLexer.Proofs.Terminals

namespace UnitLexer

open Rule

/-! ## §1 Where no unit comes next -/

/-- The unit word at the start of the text reads as a unit. -/
def StartsWithUnit (ts : Tables) (cs : List Char) : Prop :=
  leadingUnitWord cs ≠ [] ∧ ts.isUnit (String.ofList (leadingUnitWord cs)) = true

/-- The text starts neither with a unit nor with a parenthesis that a unit
follows, past blanks and further parentheses. -/
structure NoUnitAhead (ts : Tables) (cs : List Char) : Prop where
  unit : ¬ StartsWithUnit ts cs
  group : ∀ tail, cs = '(' :: tail →
    ¬ StartsWithUnit ts (tail.dropWhile fun c => c == '(' || isBlank c)

section

variable {ts : Tables} {cs : List Char}

theorem leadingUnit_ne_nil_iff : leadingUnit ts cs ≠ [] ↔ StartsWithUnit ts cs := by
  unfold leadingUnit StartsWithUnit
  dsimp only
  split
  · next h => exact iff_of_true h.1 h
  · next h => exact iff_of_false (fun hne => hne rfl) h

theorem NoUnitAhead.leadingUnit (h : NoUnitAhead ts cs) : leadingUnit ts cs = [] := by
  by_contra hne
  exact h.unit (leadingUnit_ne_nil_iff.mp hne)

theorem NoUnitAhead.opensUnitGroup (h : NoUnitAhead ts cs) : opensUnitGroup ts cs = false := by
  by_contra hopens
  rw [Bool.not_eq_false, opensUnitGroup_eq, Bool.and_eq_true, decide_eq_true_eq,
    decide_eq_true_eq] at hopens
  obtain ⟨hhead, hunit⟩ := hopens
  obtain ⟨tail, rfl⟩ := List.head?_eq_some_iff.mp hhead
  exact h.group tail rfl (leadingUnit_ne_nil_iff.mp hunit)

theorem NoUnitAhead.firstUnit_eq_none (h : NoUnitAhead ts cs) : firstUnit ts cs = none := by
  simp [firstUnit, h.leadingUnit, Step.one?]

theorem NoUnitAhead.firstGroup_eq_none (h : NoUnitAhead ts cs) : firstGroup ts cs = none := by
  simp [firstGroup, h.opensUnitGroup]

/-- Straight after a number the input is handed back. -/
theorem NoUnitAhead.step?_expectUnit (h : NoUnitAhead ts cs) (hblank : Stops isBlank cs) :
    Mode.step? .expectUnit ts cs = some .handBack := by
  have hgap : unitGap ts cs = none := run_eq_none hblank
  simp [Mode.step?, Mode.rules, hgap, h.firstUnit_eq_none, h.firstGroup_eq_none, handBack]

/-- And so it is past blanks. -/
theorem NoUnitAhead.step?_expectUnitAfterSpace (h : NoUnitAhead ts cs) :
    Mode.step? .expectUnitAfterSpace ts cs = some .handBack := by
  simp [Mode.step?, Mode.rules, h.firstUnit_eq_none, h.firstGroup_eq_none, handBack]

/-! ## §2 Handing back -/

/-- A run to the end is the same with such a mode open, but that at the end of
the source the mode is not left. -/
theorem Reads.of_handBack {m : Mode} {below frames : List Mode} {ls : List Lexeme}
    (h : m.step? ts cs = some .handBack) (hrun : Reads ts below cs ls frames []) :
    ∃ frames', Reads ts (m :: below) cs ls frames' [] := by
  cases cs with
  | nil =>
    cases hrun
    exact ⟨_, .done⟩
  | cons c cs => exact ⟨frames, hrun.of_advance_eq (advance_of_handBack h rfl)⟩

end

/-! ## §3 The rest of the source -/

section

variable {ts : Tables} {n w r : List Char}

/-- The number, and the blanks if there are any. -/
def bareNumber (n w : List Char) : List Lexeme :=
  ⟨.number, n⟩ :: if w = [] then [] else [⟨.space, w⟩]

theorem textOf_bareNumber (n w : List Char) : textOf (bareNumber n w) = n ++ w := by
  unfold bareNumber
  split
  · next h => simp [h]
  · simp

/-- Behind a number without a unit the rest is read as a source of its own. -/
theorem reads_bareNumber {frames : List Mode} {ls : List Lexeme}
    (hn : IsLongestNumber n (n ++ w ++ r)) (hw : ∀ c ∈ w, isBlank c = true)
    (hr : Stops isBlank r) (hunit : NoUnitAhead ts r) (hrun : Reads ts [] r ls frames []) :
    ∃ frames', Reads ts [] (n ++ w ++ r) (bareNumber n w ++ ls) frames' [] := by
  rw [List.append_assoc] at hn ⊢
  obtain ⟨hne, hlead⟩ := isLongestNumber_iff.mp hn
  have hnumber : Reads ts [] (n ++ (w ++ r)) [⟨.number, n⟩] [.expectUnit] (w ++ r) :=
    reads_leadingNumber hne hlead
  by_cases hempty : w = []
  · subst hempty
    obtain ⟨frames', hrest⟩ := hrun.of_handBack (hunit.step?_expectUnit hr)
    exact ⟨frames', hnumber.append hrest⟩
  · obtain ⟨frames', hrest⟩ := hrun.of_handBack hunit.step?_expectUnitAfterSpace
    have hgap : Reads ts [.expectUnit] (w ++ r) [⟨.space, w⟩] [.expectUnitAfterSpace] r :=
      reads_gap hw hempty hr
    have hall := hnumber.append (hgap.append hrest)
    refine ⟨frames', ?_⟩
    simpa [bareNumber, hempty] using hall

end

/-- A number that no unit follows is a token, and so are the blanks behind it if
there are any. What comes then is read as a source of its own. -/
theorem tokenize_number_append (ts : Tables) (n w r : String)
    (hn : IsLongestNumber n.toList (n ++ w ++ r).toList)
    (hw : ∀ c ∈ w.toList, isBlank c = true) (hr : Stops isBlank r.toList)
    (hunit : NoUnitAhead ts r.toList) :
    tokenize ts (n ++ w ++ r) =
      ⟨.number, n, 0⟩ :: (if w = "" then [] else [⟨.space, w, n.utf8ByteSize⟩]) ++
        (tokenize ts r).map (Token.shift (n ++ w).utf8ByteSize) := by
  obtain ⟨ls, frames, hrun, htokens, -⟩ := exists_reads_source ts r
  have hsource : (n ++ w ++ r).toList = n.toList ++ w.toList ++ r.toList := by simp
  rw [hsource] at hn
  obtain ⟨frames', hall⟩ := reads_bareNumber hn hw hr hunit hrun
  rw [← hsource] at hall
  have hfirst : place 0 (bareNumber n.toList w.toList) =
      ⟨.number, n, 0⟩ :: if w = "" then [] else [⟨.space, w, n.utf8ByteSize⟩] := by
    unfold bareNumber
    by_cases hempty : w = "" <;> simp [place, hempty]
  have hsize : byteLength (textOf (bareNumber n.toList w.toList)) = (n ++ w).utf8ByteSize := by
    rw [textOf_bareNumber, byteLength_append, byteLength_toList, byteLength_toList,
      String.utf8ByteSize_append]
  rw [tokenize_eq_of_reads hall, place_append, hfirst, htokens, ← place_add, hsize, Nat.zero_add,
    Nat.add_zero]

/-- The parenthesis in `2 (x + m)` opens no group of units, for `x` is none. -/
theorem tokenize_two_before_sum :
    IsLongestNumber "2".toList "2 (x + m)".toList ∧ NoUnitAhead .standard "(x + m)".toList ∧
    tokenize .standard "2 (x + m)" = ⟨.number, "2", 0⟩ :: ⟨.space, " ", 1⟩ ::
      (tokenize .standard "(x + m)").map (Token.shift 2) := by
  have hn : IsLongestNumber "2".toList "2 (x + m)".toList :=
    isLongestNumber_iff.mpr ⟨by decide, by decide⟩
  have hunit : NoUnitAhead .standard "(x + m)".toList := by
    refine ⟨by unfold StartsWithUnit; decide, ?_⟩
    rintro tail htail
    obtain rfl : "x + m)".toList = tail := (List.cons.inj htail).2
    unfold StartsWithUnit
    decide
  have hblank : ∀ c ∈ " ".toList, isBlank c = true := by simp [isBlank]
  exact ⟨hn, hunit, tokenize_number_append .standard "2" " " "(x + m)" hn hblank
    (stops_cons.mpr (by decide : isBlank '(' = false)) hunit⟩

end UnitLexer
