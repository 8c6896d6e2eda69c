/-
UnitLexer.Proofs.GroupLookahead — a group of units is read as it was foreseen.

Before a group of units is opened the input is scanned once, past parentheses
and blanks to the first word. What is read then goes another way: a mode for
each parenthesis, white space that may hold line breaks, words that may be no
units. The two meet in the text they pass over. Where the scan ends at a unit,
the open group reads it parenthesis by parenthesis and blank by blank, up to
that unit (`exists_reads_foreseen`); a line break would have ended the scan.

So the first thing in a group that is neither a parenthesis opened in it nor a
blank is the unit the scan found (`group_reads_foreseen_unit`). Only groups outside
every other are opened by the scan. One inside another is opened at once, and
behind the first unit it may hold none at all, as the inner one of `1 (m ())`
(`nested_group_without_unit`).
-/
import UnitLexer.Proofs.AcceptedEntries
import UnitLexer.Proofs.BareNumbers
import UnitLexer.Proofs.UnitContext
import UnitLexer.Proofs.UnitWords

namespace UnitLexer

open Rule

/-! ## §1 Reading up to the foreseen unit -/

/-- What the scan passes over, as it is read: a parenthesis that opens a group, or
blanks. -/
def Lexeme.PassedOver (l : Lexeme) : Prop :=
  l = ⟨parenthesis, ['(']⟩ ∨ l.kind = .space ∧ ∀ c ∈ l.text, isBlank c = true

/-- Behind the parenthesis of a group a unit comes before everything but white space
and further parentheses. -/
def UnitFirst (after : List Lexeme) : Prop :=
  ∀ us x vs, after = us ++ x :: vs → x.kind ≠ .space → x ≠ ⟨parenthesis, ['(']⟩ →
    x.kind ≠ .unit → ∃ u ∈ us, u.kind = .unit

/-- What the scan passes over is no more than that, so the unit behind it is first. -/
theorem unitFirst_of_passedOver {gap more : List Lexeme} {u : Lexeme}
    (hgap : ∀ l ∈ gap, l.PassedOver) (hu : u.kind = .unit) : UnitFirst (gap ++ u :: more) := by
  intro us x vs h hspace hopening hunit
  induction gap generalizing us with
  | nil =>
    cases us with
    | nil =>
      obtain ⟨rfl, -⟩ := List.cons.inj h
      exact absurd hu hunit
    | cons y us =>
      obtain ⟨rfl, -⟩ := List.cons.inj h
      exact ⟨u, List.mem_cons_self, hu⟩
  | cons g gap ih =>
    obtain ⟨hpassed, hgap⟩ := List.forall_mem_cons.mp hgap
    cases us with
    | nil =>
      obtain ⟨rfl, -⟩ := List.cons.inj h
      exact absurd hpassed (not_or.mpr ⟨hopening, fun hblank => hspace hblank.1⟩)
    | cons y us =>
      obtain ⟨w, hw, hkind⟩ := ih hgap us (List.cons.inj h).2
      exact ⟨w, List.mem_cons_of_mem y hw, hkind⟩

section

variable {ts : Tables} {cs : List Char}

/-- What reads as a unit at the start of the input is read as one in a group. -/
theorem reads_leadingUnit (h : leadingUnit ts cs ≠ []) (n : Nat) : ∃ rest,
    Reads ts (unitFrames (n + 1)) cs [⟨.unit, leadingUnit ts cs⟩] (unitFrames (n + 1)) rest := by
  obtain ⟨rest, hrest⟩ := leadingUnit_isPrefix ts cs
  have hword : IsUnit ts (leadingUnit ts cs) := by
    obtain ⟨hne, hreads⟩ := leadingUnit_ne_nil_iff.mp h
    rw [leadingUnit_eq_leadingUnitWord h]
    have hself := (isUnitWord_iff.mp (isUnitWord_leadingUnitWord hne)).2
    rw [String.toList_ofList] at hself
    exact ⟨hself, hne, hreads⟩
  have hread : Reads ts (unitFrames (n + 1)) (leadingUnit ts cs ++ rest)
      [⟨.unit, leadingUnit ts cs⟩] (unitFrames (n + 1)) rest :=
    reads_unit (.inr rfl) hword (stops_of_leadingUnit hrest h)
  rw [hrest] at hread
  exact ⟨rest, hread⟩

/-- No line break stands behind blanks in front of a foreseen unit. -/
theorem stops_isSpace_of_foreseen (h : leadingUnit ts (cs.dropWhile opensOrBlank) ≠ [])
    (hblank : Stops isBlank cs) : Stops isSpace cs := by
  rcases leadingUnit_or_opensUnitGroup h hblank with hunit | hgroup
  · obtain ⟨c, tail, rfl, hc⟩ := exists_cons_of_leadingUnit hunit
    exact stops_cons.mpr (isSpace_of_isUnitStart hc)
  · obtain ⟨tail, rfl⟩ := exists_cons_of_opensUnitGroup hgroup
    exact stops_cons.mpr (by decide)

/-- Blanks in front of a foreseen unit are read on their own. -/
theorem reads_blanks_foreseen (h : leadingUnit ts (cs.dropWhile opensOrBlank) ≠ [])
    (hne : cs.takeWhile isBlank ≠ []) (n : Nat) :
    Reads ts (unitFrames (n + 1)) cs [⟨.space, cs.takeWhile isBlank⟩] (unitFrames (n + 1))
      (cs.dropWhile isBlank) := by
  rw [dropWhile_opensOrBlank] at h
  have hread : Reads ts (unitFrames (n + 1)) (cs.takeWhile isBlank ++ cs.dropWhile isBlank)
      [⟨.space, cs.takeWhile isBlank⟩] (unitFrames (n + 1)) (cs.dropWhile isBlank) :=
    reads_blanks (.inr rfl) (fun c hc => List.all_eq_true.mp List.all_takeWhile c hc) hne
      (stops_isSpace_of_foreseen h (stops_dropWhile isBlank cs))
  rwa [List.takeWhile_append_dropWhile] at hread

/-- An open group reads what the scan passes over, piece by piece, and then the
unit that it foresees. Each parenthesis among the pieces opens a group. -/
theorem exists_reads_foreseen (h : leadingUnit ts (cs.dropWhile opensOrBlank) ≠ []) (n : Nat) :
    ∃ gap rest, Reads ts (unitFrames (n + 1)) cs
        (gap ++ [⟨.unit, leadingUnit ts (cs.dropWhile opensOrBlank)⟩])
        (unitFrames (n + 1 + gap.count ⟨parenthesis, ['(']⟩)) rest ∧
      textOf gap = cs.takeWhile opensOrBlank ∧ ∀ l ∈ gap, l.PassedOver := by
  -- Each piece leaves less to read, so the induction is on the length.
  induction hlen : cs.length using Nat.strongRecOn generalizing cs n with
  | ind len ih =>
    by_cases hblank : cs.takeWhile isBlank = []
    · have hstops : Stops isBlank cs := stops_of_takeWhile (by rw [hblank, List.nil_append])
      rcases leadingUnit_or_opensUnitGroup h hstops with hunit | hgroup
      · have hstart : Stops opensOrBlank cs :=
          stops_opensOrBlank_of_leadingUnitWord (leadingUnit_ne_nil_iff.mp hunit).1
        obtain ⟨rest, hread⟩ := reads_leadingUnit hunit n
        rw [dropWhile_eq_self_of_stops hstart, takeWhile_eq_nil_of_stops hstart]
        exact ⟨[], rest, hread, rfl, by simp⟩
      · obtain ⟨tail, rfl⟩ := exists_cons_of_opensUnitGroup hgroup
        have hopens : opensOrBlank '(' = true := rfl
        rw [List.dropWhile_cons_of_pos hopens] at h ⊢
        obtain ⟨gap, rest, hread, htext, hgap⟩ := ih tail.length (by simp [← hlen]) h (n + 1) rfl
        have hopening : Reads ts (unitFrames (n + 1)) ('(' :: tail) [⟨parenthesis, ['(']⟩]
            (unitFrames (n + 2)) tail := reads_opening (.inr rfl) (by simp)
        refine ⟨⟨parenthesis, ['(']⟩ :: gap, rest, ?_, ?_, ?_⟩
        · rw [List.count_cons_self, ← Nat.add_assoc, Nat.add_right_comm]
          exact hopening.append hread
        · rw [List.takeWhile_cons_of_pos hopens, textOf_cons, htext]
          rfl
        · exact List.forall_mem_cons.mpr ⟨.inl rfl, hgap⟩
    · have hlt : (cs.dropWhile isBlank).length < len := by
        have hsplit : (cs.takeWhile isBlank).length + (cs.dropWhile isBlank).length = len := by
          rw [← List.length_append, List.takeWhile_append_dropWhile, hlen]
        have hpos := List.length_pos_iff.mpr hblank
        omega
      have hblanks := reads_blanks_foreseen h hblank n
      rw [dropWhile_opensOrBlank] at h ⊢
      obtain ⟨gap, rest, hread, htext, hgap⟩ := ih _ hlt h n rfl
      refine ⟨⟨.space, cs.takeWhile isBlank⟩ :: gap, rest, ?_, ?_, ?_⟩
      · rw [List.count_cons_of_ne (by simp [parenthesis])]
        exact hblanks.append hread
      · rw [takeWhile_opensOrBlank, textOf_cons, htext]
      · exact List.forall_mem_cons.mpr
          ⟨.inr ⟨rfl, fun c hc => List.all_eq_true.mp List.all_takeWhile c hc⟩, hgap⟩

end

/-! ## §2 Groups in a source -/

section

variable {ts : Tables} {source : String} {before after : List Lexeme} {m : Mode}

/-- Outside every group a parenthesis that is read while a unit is read opens one
behind which a unit is foreseen. -/
theorem foreseen_of_readIn (h : lexemes ts source = before ++ ⟨parenthesis, ['(']⟩ :: after)
    (hread : ReadIn ts source before.length m)
    (hm : m = .expectUnit ∨ m = .expectUnitAfterSpace ∨ m = .unitExpression) :
    ∃ k, (Lexer.atStep ts source k).state.frames = unitFrames 1 ∧
      (Lexer.atStep ts source k).rest = textOf after ∧
      (Lexer.atStep ts source k).readSoFar = before ++ [⟨parenthesis, ['(']⟩] ∧
      opensUnitGroup ts ('(' :: textOf after) = true := by
  obtain ⟨k, hle, hlt, hmode⟩ := hread
  obtain ⟨c, cs, us, vs, more, hr, hls, hbefore, -⟩ := lexemes_of_step h hle hlt
  have hrest := rest_eq_of_lexemes h hbefore
  rw [Lexer.settledFrames_atStep hr] at hmode
  have hquantity : m.inQuantity = true := by rcases hm with rfl | rfl | rfl <;> rfl
  rw [← hmode] at hquantity
  obtain ⟨l, mid, hadv, hstep⟩ := UnitStep.of_advance (Lexer.openFrames_atStep k) hquantity
  rw [hadv] at hls
  obtain ⟨rfl, rfl⟩ := lexeme_of_singleton hls
  rw [textOf_nil, List.nil_append, List.singleton_append, hr] at hrest
  obtain ⟨rfl, rfl⟩ := List.cons.inj hrest
  have hgroup : mid = unitFrames 1 ∧ opensUnitGroup ts ('(' :: textOf after) = true := by
    generalize settle ts ('(' :: textOf after) (Lexer.atStep ts source k).state.frames = settled
      at hstep hmode
    cases hstep with
    | firstGroup _ hopens => exact ⟨rfl, hopens⟩
    | group hopens => exact ⟨rfl, hopens⟩
    | nested n =>
      rw [unitFrames_succ, currentMode] at hmode
      rcases hm with rfl | rfl | rfl <;> contradiction
  obtain ⟨hrest', hframes, hpend⟩ := Lexer.atStep_succ_eq hr hadv rfl
  refine ⟨k + 1, by rw [hframes, hgroup.1], hrest', ?_, hgroup.2⟩
  rw [Lexer.readSoFar_eq_append hpend, hbefore, List.append_nil]

end

/-- Where a parenthesis opens a group outside every other, the look-ahead has found
a unit behind it, and the tokens that follow are what the look-ahead passed over,
parentheses and blanks, and then that unit. So a unit comes first in the group. -/
theorem group_reads_foreseen_unit {ts : Tables} {source : String} {before after : List Lexeme}
    {m : Mode} (h : lexemes ts source = before ++ ⟨parenthesis, ['(']⟩ :: after)
    (hread : ReadIn ts source before.length m)
    (hm : m = .expectUnit ∨ m = .expectUnitAfterSpace ∨ m = .unitExpression) :
    opensUnitGroup ts ('(' :: textOf after) = true ∧
    (∃ gap more, after =
        gap ++ ⟨.unit, leadingUnit ts (('(' :: textOf after).dropWhile opensOrBlank)⟩ :: more ∧
      '(' :: textOf gap = ('(' :: textOf after).takeWhile opensOrBlank ∧
      ∀ l ∈ gap, l.PassedOver) ∧
    UnitFirst after := by
  obtain ⟨k, hframes, hrest, hsofar, hopens⟩ := foreseen_of_readIn h hread hm
  have hparenthesis : opensOrBlank '(' = true := rfl
  have hforeseen : leadingUnit ts ((textOf after).dropWhile opensOrBlank) ≠ [] := by
    rw [opensUnitGroup_eq, Bool.and_eq_true, List.dropWhile_cons_of_pos hparenthesis] at hopens
    simpa using hopens.2
  obtain ⟨gap, rest, hrun, htext, hgap⟩ := exists_reads_foreseen hforeseen 0
  rw [← hframes, ← hrest] at hrun
  obtain ⟨n, -, -, hpend⟩ := Lexer.exists_atStep_of_reads hrun
  have hprefix : (Lexer.atStep ts source (k + n)).readSoFar <+: lexemes ts source :=
    Lexer.readSoFar_isPrefix_lexemes _
  rw [Lexer.readSoFar_eq_append hpend, hsofar, h, hrest, List.append_assoc,
    List.prefix_append_right_inj, List.singleton_append, List.cons_prefix_cons] at hprefix
  obtain ⟨more, hafter⟩ := hprefix.2
  rw [List.append_assoc, List.singleton_append] at hafter
  refine ⟨hopens, ⟨gap, more, ?_, ?_, hgap⟩, ?_⟩
  · rw [List.dropWhile_cons_of_pos hparenthesis, hafter]
  · rw [List.takeWhile_cons_of_pos hparenthesis, htext]
  · rw [← hafter]
    exact unitFirst_of_passedOver hgap rfl

/-- The look-ahead of `1( (m)` finds the metre, behind a blank and a parenthesis. -/
theorem group_reads_foreseen_metre :
    lexemes .standard "1( (m)" = [⟨.number, ['1']⟩] ++ ⟨parenthesis, ['(']⟩ ::
      [⟨.space, [' ']⟩, ⟨parenthesis, ['(']⟩, ⟨.unit, ['m']⟩, ⟨parenthesis, [')']⟩] ∧
    ReadIn .standard "1( (m)" 1 .expectUnit ∧
    opensUnitGroup .standard ['(', ' ', '(', 'm', ')'] = true := by
  have htokens : lexemes .standard "1( (m)" = [⟨.number, ['1']⟩] ++ ⟨parenthesis, ['(']⟩ ::
      [⟨.space, [' ']⟩, ⟨parenthesis, ['(']⟩, ⟨.unit, ['m']⟩, ⟨parenthesis, [')']⟩] := by decide
  have hread : ReadIn .standard "1( (m)" 1 .expectUnit := ⟨1, by decide, by decide, by decide⟩
  exact ⟨htokens, hread, (group_reads_foreseen_unit htokens hread (.inl rfl)).1⟩

/-- The inner group of `1 (m ())` is read while a unit is read, but nothing has been
looked for behind its parenthesis, and it closes without a unit. -/
theorem nested_group_without_unit :
    lexemes .standard "1 (m ())" =
      [⟨.number, ['1']⟩, ⟨.space, [' ']⟩, ⟨parenthesis, ['(']⟩, ⟨.unit, ['m']⟩, ⟨.space, [' ']⟩] ++
        ⟨parenthesis, ['(']⟩ :: [⟨parenthesis, [')']⟩, ⟨parenthesis, [')']⟩] ∧
    ReadIn .standard "1 (m ())" 5 .unitGroup ∧
    ¬ UnitFirst [⟨parenthesis, [')']⟩, ⟨parenthesis, [')']⟩] := by
  refine ⟨by decide, ⟨5, by decide, by decide, by decide⟩, fun h => ?_⟩
  obtain ⟨u, hu, -⟩ := h [] ⟨parenthesis, [')']⟩ _ rfl (by decide) (by decide) (by decide)
  exact absurd hu List.not_mem_nil

end UnitLexer
