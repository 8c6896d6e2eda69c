/-
UnitLexer.Proofs.UnitContext — the signs of units stand behind a number.

`*`, `/` and `^` are signs of a unit in the context of a number only, though
they are spelled like operators. The context is a fact about what has been read:
somewhere before stands a number, and between it and the sign there is nothing
but the beginning of its unit (`UnitPart`). While a unit is read the open groups
count the parentheses of that beginning, and the mode says whether a unit is
among it yet (`InUnit`); one case analysis over the steps shows that it stays so
(`InUnit.step`). A step out of the root into the unit of a number reads that
number, so what holds along a unit holds along a source (`inContext_atStep`).
-/
import UnitLexer.Proofs.Terminals
import UnitLexer.Proofs.UnitSteps

namespace UnitLexer

open Rule

/-! ## §1 The beginning of a unit -/

/-- The kinds of what can stand between a number and a sign of its unit. -/
def unitKinds : List Kind :=
  [.space, .unit, .unitOperator, .exponent, parenthesis, .identifier, .invalid]

/-- The lexeme can stand outside parentheses there. -/
def Lexeme.IsFlat (l : Lexeme) : Prop :=
  '\n' ∉ l.text ∧ l.kind ≠ .identifier ∧ l.kind ≠ .invalid

/-- What stands between a number and a sign of its unit: parentheses are nested
so deep behind it, and some of it can stand in parentheses only. -/
structure UnitPart (between : List Lexeme) (depth : Nat) : Prop where
  kinds : ∀ l ∈ between, l.kind ∈ unitKinds
  nested : nesting 0 between = some depth
  outside : ∀ us l vs, between = us ++ l :: vs → nesting 0 us = some 0 → l.IsFlat

theorem UnitPart.nil : UnitPart [] 0 :=
  ⟨by simp, rfl, by simp⟩

theorem UnitPart.concat {between : List Lexeme} {l : Lexeme} {depth depth' : Nat}
    (h : UnitPart between depth) (hkind : l.kind ∈ unitKinds) (hnest : l.nest depth = some depth')
    (hflat : depth = 0 → l.IsFlat) : UnitPart (between ++ [l]) depth' where
  kinds := List.forall_mem_append.mpr ⟨h.kinds, by simpa using hkind⟩
  nested := by rw [nesting_concat, h.nested, Option.bind_some, hnest]
  outside := by
    intro us l' vs heq hzero
    rcases List.eq_nil_or_concat vs with rfl | ⟨vs, x, rfl⟩
    · obtain ⟨rfl, hl⟩ := List.append_inj' heq rfl
      obtain rfl := (List.cons.inj hl).1
      rw [h.nested, Option.some.injEq] at hzero
      exact hflat hzero
    · rw [List.concat_eq_append, ← List.cons_append, ← List.append_assoc] at heq
      exact h.outside us l' vs (List.append_inj' heq rfl).1 hzero

/-! ## §2 What the steps add to it -/

section

variable {ts : Tables} {cs tail : List Char} {frames mid : List Mode} {l : Lexeme}

theorem break_notMem_leadingUnit : '\n' ∉ leadingUnit ts cs := by
  unfold leadingUnit
  dsimp only
  split
  · exact fun hn => absurd (isUnitChar_of_mem_leadingUnitWord hn) (by decide)
  · simp

theorem stops_opensOrBlank_of_leadingUnitWord (h : leadingUnitWord cs ≠ []) :
    Stops opensOrBlank cs := by
  intro d hd
  have hstart : isUnitStart d = true := by
    by_contra hd'
    refine h (leadingUnitWord_of_stops fun e he => ?_)
    obtain rfl := Option.some.inj (hd.symm.trans he)
    simpa using hd'
  have hopens : d ≠ '(' := by rintro rfl; contradiction
  simp [opensOrBlank, hopens, isBlank_of_isSpace (isSpace_of_isUnitStart hstart)]

/-- White space does not hide a unit from the look-ahead unless it is blank. -/
theorem leadingUnit_dropWhile_isSpace (h : leadingUnit ts (cs.dropWhile opensOrBlank) ≠ []) :
    leadingUnit ts ((cs.dropWhile isSpace).dropWhile opensOrBlank) ≠ [] := by
  induction cs with
  | nil => exact h
  | cons c cs ih =>
    by_cases hspace : isSpace c = true
    · rw [List.dropWhile_cons_of_pos hspace]
      by_cases hblank : isBlank c = true
      · rw [List.dropWhile_cons_of_pos (by simp [opensOrBlank, hblank])] at h
        exact ih h
      · -- A line break would be what the look-ahead finds.
        have hopens : c ≠ '(' := by rintro rfl; contradiction
        rw [List.dropWhile_cons_of_neg (by simp [opensOrBlank, hblank, hopens])] at h
        obtain ⟨d, tail, hd, hstart⟩ := exists_cons_of_leadingUnit h
        obtain ⟨rfl, -⟩ := List.cons.inj hd
        rw [isSpace_of_isUnitStart hstart] at hspace
        contradiction
    · rwa [List.dropWhile_cons_of_neg hspace]

/-- The first unit is still to come: the number waits for it, or a group has been
opened in which it stands behind blanks and parentheses. -/
def UnitAhead (ts : Tables) (frames : List Mode) (rest : List Char) : Prop :=
  (currentMode frames).AwaitsUnit ∨
    currentMode frames = .unitGroup ∧ leadingUnit ts (rest.dropWhile opensOrBlank) ≠ []

theorem not_awaitsUnit_unitFrames (n : Nat) : ¬ (currentMode (unitFrames n)).AwaitsUnit := by
  cases n <;> simp [currentMode, Mode.AwaitsUnit, unitFrames_succ]

namespace UnitStep

theorem kind_mem (h : UnitStep ts cs frames l mid) : l.kind ∈ unitKinds := by
  cases h <;> simp [unitKinds]

/-- Outside every group only what can stand outside parentheses is read. -/
theorem isFlat (h : UnitStep ts cs frames l mid) (hn : openGroups frames = 0) : l.IsFlat := by
  cases h with
  | gap | blank | exponentBlank => exact ⟨notMem_takeWhile (by decide), by simp⟩
  | firstUnit | unit => exact ⟨break_notMem_leadingUnit, by simp⟩
  | firstGroup | group | power => exact ⟨by decide, by decide⟩
  | product _ _ hc | noExponent _ _ hc =>
    simp only [List.mem_cons, List.not_mem_nil, or_false] at hc
    rcases hc with rfl | rfl <;> exact ⟨by decide, by decide⟩
  | exponent _ h =>
    exact ⟨fun hn => absurd ((isInteger_leadingInteger h).numberChar _ hn) (by decide), by simp⟩
  | space | nested | closing | identifier | invalid => simp at hn

/-- A group opened in front of its first unit reads blanks and parentheses up to it. -/
theorem unitAhead_of_group (h : UnitStep ts cs frames l mid)
    (hgroup : currentMode frames = .unitGroup)
    (hlook : leadingUnit ts (cs.dropWhile opensOrBlank) ≠ []) (htext : cs = l.text ++ tail) :
    l.kind = .unit ∨ (l.kind = .space ∨ l.kind = parenthesis) ∧ UnitAhead ts mid tail := by
  -- Where the look-ahead passes over nothing the input starts with the unit.
  have hstart : Stops opensOrBlank cs → leadingUnit ts cs ≠ [] := fun hstops => by
    rwa [dropWhile_eq_self_of_stops hstops] at hlook
  have hsign : ∀ {c : Char} {ds : List Char}, cs = c :: ds → isUnitStart c = false →
      opensOrBlank c = false → False := by
    rintro c ds rfl hc hopens
    exact hstart (stops_cons.mpr hopens) (leadingUnit_of_stops (stops_cons.mpr hc))
  cases h with
  | firstUnit | unit => exact .inl rfl
  | space n =>
    rw [eq_dropWhile_of_append htext]
    exact .inr ⟨.inl rfl, .inr ⟨rfl, leadingUnit_dropWhile_isSpace hlook⟩⟩
  | nested n hcs =>
    obtain rfl := (List.cons.inj (hcs.symm.trans htext)).2
    rw [hcs, List.dropWhile_cons_of_pos rfl] at hlook
    exact .inr ⟨.inr rfl, .inr ⟨rfl, hlook⟩⟩
  | product n hcs hc =>
    simp only [List.mem_cons, List.not_mem_nil, or_false] at hc
    rcases hc with rfl | rfl <;> exact (hsign hcs (by decide) (by decide)).elim
  | power n hcs => exact (hsign hcs (by decide) (by decide)).elim
  | closing n hcs => exact (hsign hcs (by decide) (by decide)).elim
  | identifier n hne hunit =>
    exact absurd hunit (hstart (stops_opensOrBlank_of_leadingUnitWord hne))
  | invalid n hcs hword hspace hc =>
    refine absurd ?_ (hstart ?_)
    · simp [leadingUnit, hword]
    · subst hcs
      exact stops_cons.mpr (by simp [opensOrBlank, hc, isBlank_of_isSpace hspace])
  | firstGroup hm => rcases hm with rfl | rfl <;> simp [currentMode] at hgroup
  | gap | blank | group | exponent | exponentBlank | noExponent => simp [currentMode] at hgroup

/-- A number that waits for its unit reads it, or blanks or a parenthesis first. -/
theorem unitAhead_of_awaitsUnit (h : UnitStep ts cs frames l mid)
    (hm : (currentMode frames).AwaitsUnit) (htext : cs = l.text ++ tail) :
    l.kind = .unit ∨ (l.kind = .space ∨ l.kind = parenthesis) ∧ UnitAhead ts mid tail := by
  cases h with
  | gap => exact .inr ⟨.inl rfl, .inl (.inr rfl)⟩
  | firstUnit => exact .inl rfl
  | firstGroup _ hgroup =>
    rw [opensUnitGroup_eq, htext, Bool.and_eq_true, decide_eq_true_eq] at hgroup
    exact .inr ⟨.inr rfl, .inr ⟨rfl, of_decide_eq_true hgroup.2⟩⟩
  | exponent | exponentBlank | noExponent => simp [currentMode, Mode.AwaitsUnit] at hm
  | _ => exact absurd hm (not_awaitsUnit_unitFrames _)

/-- Before the first unit nothing is read but white space and parentheses, and
the unit is still to come then. -/
theorem unitAhead (h : UnitStep ts cs frames l mid) (hahead : UnitAhead ts frames cs)
    (htext : cs = l.text ++ tail) :
    l.kind = .unit ∨ (l.kind = .space ∨ l.kind = parenthesis) ∧ UnitAhead ts mid tail :=
  hahead.elim (fun hm => h.unitAhead_of_awaitsUnit hm htext)
    fun ⟨hgroup, hlook⟩ => h.unitAhead_of_group hgroup hlook htext

end UnitStep

/-! ## §3 The beginning of a unit while it is read -/

/-- The beginning of a unit ends in a power sign, with blanks after it perhaps,
which have been read to their end then. -/
def EndsInPower (between : List Lexeme) (rest : List Char) : Prop :=
  ∃ earlier gap, between = earlier ++ ⟨.unitOperator, ['^']⟩ :: gap ∧
    (gap = [] ∨ ∃ blanks, gap = [⟨.space, blanks⟩] ∧ (∀ c ∈ blanks, isBlank c = true) ∧
      Stops isBlank rest)

/-- What stands between a number and the rest of the input while the unit of the
number is read in these modes. -/
structure InUnit (ts : Tables) (between : List Lexeme) (frames : List Mode) (rest : List Char) :
    Prop where
  part : UnitPart between (openGroups frames)
  unit : (∃ l ∈ between, l.kind = .unit) ∨ UnitAhead ts frames rest
  power : currentMode frames = .unitExponent → EndsInPower between rest

theorem currentMode_unitFrames_ne (n : Nat) : currentMode (unitFrames n) ≠ .unitExponent := by
  cases n <;> simp [currentMode, unitFrames_succ]

variable {between : List Lexeme}

/-- At its start nothing stands between a number and the input. -/
theorem InUnit.start (rest : List Char) : InUnit ts [] [.expectUnit] rest where
  part := .nil
  unit := .inr (.inl (.inl rfl))
  power := by simp [currentMode]

/-- Every step keeps it so. -/
theorem InUnit.step (h : InUnit ts between frames cs) (hstep : UnitStep ts cs frames l mid)
    (htext : cs = l.text ++ tail) : InUnit ts (between ++ [l]) mid tail where
  part := h.part.concat hstep.kind_mem hstep.nest_eq hstep.isFlat
  unit := by
    rcases h.unit with ⟨x, hx, hunit⟩ | hahead
    · exact .inl ⟨x, List.mem_append_left _ hx, hunit⟩
    · rcases hstep.unitAhead hahead htext with hunit | ⟨-, hahead⟩
      · exact .inl ⟨l, by simp, hunit⟩
      · exact .inr hahead
  power := by
    intro hmid
    cases hstep with
    | power => exact ⟨between, [], rfl, .inl rfl⟩
    | exponentBlank n hne =>
      obtain ⟨earlier, gap, rfl, rfl | ⟨blanks, rfl, -, hstops⟩⟩ := h.power rfl
      · refine ⟨earlier, [⟨.space, cs.takeWhile isBlank⟩], by simp, .inr ⟨_, rfl, ?_, ?_⟩⟩
        · exact fun c hc => List.all_eq_true.mp List.all_takeWhile c hc
        · rw [eq_dropWhile_of_append htext]
          exact stops_dropWhile isBlank cs
      · exact absurd (takeWhile_eq_nil_of_stops hstops) hne
    | gap => simp [currentMode] at hmid
    | _ => exact absurd hmid (currentMode_unitFrames_ne _)

/-- Leaving an exponent that does not come keeps it so too. -/
theorem InUnit.settled (hopen : OpenFrames frames) (h : InUnit ts between frames cs)
    (hm : (currentMode (settle ts cs frames)).inQuantity = true) :
    InUnit ts between (settle ts cs frames) cs := by
  rcases settle_cases ts cs hopen with hset | hset | ⟨n, rfl, hset⟩
  · rwa [hset]
  · rw [hset] at hm
    contradiction
  · rw [hset]
    refine ⟨by simpa using h.part, ?_, fun hn => absurd hn (currentMode_unitFrames_ne n)⟩
    have hahead : ¬ UnitAhead ts (.unitExponent :: unitFrames n) cs := by
      simp [UnitAhead, currentMode, Mode.AwaitsUnit]
    exact .inl (h.unit.resolve_right hahead)

/-! ## §4 Numbers and their units along a source -/

/-- The unit that is being read is that of a number before it. -/
def InContext (ts : Tables) (ls : List Lexeme) (frames : List Mode) (rest : List Char) : Prop :=
  OpenFrames frames ∧ ((currentMode frames).inQuantity = true →
    ∃ earlier num between, ls = earlier ++ num :: between ∧ num.kind = .number ∧
      InUnit ts between frames rest)

/-- From the root only a number leads into a unit. -/
theorem number_of_step?_root {s : Step} (h : Mode.step? .root ts cs = some s)
    (hm : (currentMode (s.transition.apply [])).inQuantity = true) :
    ∃ text, s = .one .number text (.push .expectUnit) := by
  cases Mode.answers_of_step? h with
  | one hfinds =>
    cases hfinds with
    | number => exact ⟨_, rfl⟩
    | firstUnit hmode | firstGroup hmode | blank hmode | unit hmode | product hmode
    | power hmode => rcases hmode with hmode | hmode <;> contradiction
    | _ => contradiction
  | declaration | call | spacedCall | handBack => contradiction

namespace InContext

variable {ls ms : List Lexeme} {c : Char}

/-- Leaving the modes that hand the input back keeps it so. -/
theorem settled (h : InContext ts ls frames cs) : InContext ts ls (settle ts cs frames) cs := by
  obtain ⟨hopen, hnumber⟩ := h
  refine ⟨hopen.settle, fun hm => ?_⟩
  have hunit : (currentMode frames).inQuantity = true := by
    rcases settle_cases ts cs hopen with hset | hset | ⟨n, rfl, -⟩
    · rwa [hset] at hm
    · rw [hset] at hm
      contradiction
    · rfl
  obtain ⟨earlier, num, between, hls, hnum, hin⟩ := hnumber hunit
  exact ⟨earlier, num, between, hls, hnum, hin.settled hopen hm⟩

/-- So does a step outside a unit, which reads the number if it leads into one. -/
theorem of_step? {s : Step} {settled : List Mode} (hopen : OpenFrames settled)
    (hm : (currentMode settled).inQuantity = false)
    (hs : (currentMode settled).step? ts cs = some s) :
    InContext ts (ls ++ s.lexemes) (s.transition.apply settled) tail := by
  have htrans := Mode.transition_mem hs
  refine ⟨hopen.apply htrans, fun hmid => ?_⟩
  cases hopen with
  | root =>
    obtain ⟨text, rfl⟩ := number_of_step?_root hs hmid
    exact ⟨ls, _, [], rfl, rfl, .start tail⟩
  | string quote =>
    simp only [currentMode, Mode.transitions, List.mem_cons, List.not_mem_nil, or_false] at htrans
    rcases htrans with ht | ht <;> rw [ht] at hmid <;> contradiction
  | expectUnit | expectUnitAfterSpace | exponent => contradiction
  | unit n => cases n <;> contradiction

/-- Every step keeps it so. -/
theorem advance (h : InContext ts ls frames (c :: cs))
    (hadv : UnitLexer.advance ts c cs frames = (ms, mid)) (htext : c :: cs = textOf ms ++ tail) :
    InContext ts (ls ++ ms) mid tail := by
  have hsettled := h.settled
  cases hm : (currentMode (settle ts (c :: cs) frames)).inQuantity with
  | true =>
    obtain ⟨l, mid', hadv', hstep⟩ := UnitStep.of_advance h.1 hm
    obtain ⟨rfl, rfl⟩ := Prod.mk.inj (hadv.symm.trans hadv')
    obtain ⟨earlier, num, between, rfl, hnum, hin⟩ := hsettled.2 hm
    have hnext : OpenFrames (UnitLexer.advance ts c cs frames).2 := h.1.advance
    rw [hadv] at hnext
    exact ⟨hnext, fun _ => ⟨earlier, num, between ++ [l], by simp, hnum,
      hin.step hstep (by simpa using htext)⟩⟩
  | false =>
    rcases advance_cases ts c cs frames with ⟨s, hs, -, hadv'⟩ | ⟨-, hadv'⟩
    · obtain ⟨rfl, rfl⟩ := Prod.mk.inj (hadv.symm.trans hadv')
      exact of_step? hsettled.1 hm hs
    · obtain ⟨-, rfl⟩ := Prod.mk.inj (hadv.symm.trans hadv')
      exact ⟨hsettled.1, fun hmid => absurd (hm.symm.trans hmid) (by decide)⟩

end InContext

end

theorem inContext_atStep (ts : Tables) (source : String) (k : Nat) :
    InContext ts (Lexer.atStep ts source k).readSoFar (Lexer.atStep ts source k).state.frames
      (Lexer.atStep ts source k).rest :=
  Lexer.history ⟨.root, by simp [currentMode, Mode.inQuantity]⟩ InContext.advance k

section

variable {ts : Tables} {source : String} {before after : List Lexeme} {l : Lexeme}

/-- The step that reads a sign or an exponent of a unit, with what stands between
it and the number of the unit. -/
theorem exists_inUnit (h : lexemes ts source = before ++ l :: after)
    (hl : l.kind = .unitOperator ∨ l.kind = .exponent) :
    ∃ earlier num between settled tail mid, before = earlier ++ num :: between ∧
      num.kind = .number ∧ InUnit ts between settled (l.text ++ tail) ∧
      UnitStep ts (l.text ++ tail) settled l mid := by
  obtain ⟨k, hle, hlt⟩ := exists_step_of_lexemes h
  obtain ⟨c, cs, us, vs, more, hr, hread, rfl, -⟩ := lexemes_of_step h hle hlt
  have hcontext := inContext_atStep ts source k
  have hm : (currentMode (Lexer.atStep ts source k).settledFrames).inQuantity = true := by
    have hagrees := agrees_of_readIn h ⟨k, hle, hlt, rfl⟩
    rcases hl with hl | hl <;> simp only [Agrees, hl] at hagrees
    · exact hagrees.1
    · rw [hagrees.1]
      rfl
  rw [Lexer.settledFrames, Lexer.tables_atStep, hr] at hm
  rw [hr] at hcontext
  obtain ⟨l', mid, hadv, hstep⟩ := UnitStep.of_advance hcontext.1 hm
  obtain ⟨rfl, rfl⟩ : us = [] ∧ l' = l := by
    rw [hadv] at hread
    cases us with
    | nil => exact ⟨rfl, (List.cons.inj hread).1⟩
    | cons u us => simp at hread
  obtain ⟨tail, htail⟩ := (takes_advance ts c cs (Lexer.atStep ts source k).state.frames).1
  have htext : c :: cs = l'.text ++ tail := by
    rw [← htail, hadv]
    simp
  obtain ⟨earlier, num, between, hbefore, hnum, hin⟩ := hcontext.settled.2 hm
  rw [htext] at hin hstep
  exact ⟨earlier, num, between, _, tail, mid, by rw [List.append_nil, hbefore], hnum, hin, hstep⟩

/-- No sign and no exponent is read before the unit of the number is. -/
theorem InUnit.exists_unit {between : List Lexeme} {frames mid : List Mode} {tail : List Char}
    (h : InUnit ts between frames (l.text ++ tail))
    (hstep : UnitStep ts (l.text ++ tail) frames l mid)
    (hl : l.kind = .unitOperator ∨ l.kind = .exponent) : ∃ x ∈ between, x.kind = .unit := by
  refine h.unit.resolve_right fun hahead => ?_
  rcases hstep.unitAhead hahead rfl with hunit | ⟨hunit | hunit, -⟩ <;>
    simp [hunit, parenthesis] at hl

end

/-- Before a sign or an exponent of a unit stands a number, and between them only
what can be the beginning of its unit, with a unit in it. An exponent stands
behind a power sign, with nothing but blanks between them. -/
theorem unit_sign_follows_number {ts : Tables} {source : String} {before after : List Lexeme}
    {l : Lexeme} (h : lexemes ts source = before ++ l :: after)
    (hl : l.kind = .unitOperator ∨ l.kind = .exponent) :
    (∃ earlier num between depth, before = earlier ++ num :: between ∧ num.kind = .number ∧
      UnitPart between depth ∧ ∃ x ∈ between, x.kind = .unit) ∧
    (l.kind = .exponent → ∃ earlier gap, before = earlier ++ ⟨.unitOperator, ['^']⟩ :: gap ∧
      (gap = [] ∨ ∃ blanks, gap = [⟨.space, blanks⟩] ∧ ∀ c ∈ blanks, isBlank c = true)) := by
  obtain ⟨earlier, num, between, settled, tail, mid, rfl, hnum, hin, hstep⟩ := exists_inUnit h hl
  refine ⟨⟨earlier, num, between, _, rfl, hnum, hin.part, hin.exists_unit hstep hl⟩, fun hexp => ?_⟩
  have hmode : currentMode settled = .unitExponent := by
    generalize l.text ++ tail = cs at hstep
    cases hstep <;> first | rfl | simp [parenthesis] at hexp
  obtain ⟨start, gap, rfl, hgap⟩ := hin.power hmode
  refine ⟨earlier ++ num :: start, gap, by simp, hgap.imp_right ?_⟩
  rintro ⟨blanks, rfl, hblanks, -⟩
  exact ⟨blanks, rfl, hblanks⟩

theorem exponent_follows_metre :
    lexemes .standard "1 m^ 2" =
      [⟨.number, ['1']⟩, ⟨.space, [' ']⟩, ⟨.unit, ['m']⟩, ⟨.unitOperator, ['^']⟩,
        ⟨.space, [' ']⟩] ++ [⟨.exponent, ['2']⟩] ∧
    ∃ earlier num between depth,
      [⟨.number, ['1']⟩, ⟨.space, [' ']⟩, ⟨.unit, ['m']⟩, ⟨.unitOperator, ['^']⟩, ⟨.space, [' ']⟩] =
        earlier ++ num :: between ∧ num.kind = .number ∧
      UnitPart between depth ∧ ∃ x ∈ between, x.kind = .unit := by
  have htokens : lexemes .standard "1 m^ 2" =
      [⟨.number, ['1']⟩, ⟨.space, [' ']⟩, ⟨.unit, ['m']⟩, ⟨.unitOperator, ['^']⟩,
        ⟨.space, [' ']⟩] ++ [⟨.exponent, ['2']⟩] := by decide
  exact ⟨htokens, (unit_sign_follows_number htokens (.inr rfl)).1⟩

end UnitLexer
