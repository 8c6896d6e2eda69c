/-
UnitLexer.Proofs.UnitGroups — a group of units lasts until its parenthesis.

Once a step has entered a group of units, the modes around it stay as they are
below it, whatever is read, until the parenthesis comes that closes it
(`group_closed_by_parenthesis`). What carries the proof is that the groups
opened inside it are the parentheses read since and still open (`InGroup`):
where there are none, a closing parenthesis closes the group itself, and what
has been read since is balanced.
-/
import UnitLexer.Proofs.ReachedModes
import UnitLexer.Proofs.UnitSteps

namespace UnitLexer

open Rule

/-! ## §1 Steps in groups -/

/-- Every parenthesis is closed, and none is that is not open. -/
def Balanced (ls : List Lexeme) : Prop :=
  nesting 0 ls = some 0

section

variable {ts : Tables} {c : Char} {cs : List Char} {frames mid below : List Mode} {n : Nat}

theorem OpenFrames.eq_of_unitGroup (h : OpenFrames (.unitGroup :: below)) :
    ∃ n, below = unitFrames n := by
  generalize hframes : .unitGroup :: below = frames at h
  cases h with
  | root | string | expectUnit | expectUnitAfterSpace | exponent => simp at hframes
  | unit n =>
    cases n with
    | zero => simp at hframes
    | succ n => exact ⟨n, (List.cons.inj hframes).2⟩

theorem OpenFrames.eq_of_openGroups (h : OpenFrames frames) (hn : openGroups frames = n + 1) :
    frames = unitFrames (n + 1) ∨ frames = .unitExponent :: unitFrames (n + 1) := by
  cases h with
  | root | string | expectUnit | expectUnitAfterSpace => simp [openGroups] at hn
  | unit m =>
    obtain rfl : m = n + 1 := by simpa using hn
    exact .inl rfl
  | exponent m =>
    obtain rfl : m = n + 1 := by simpa using hn
    exact .inr rfl

/-- Where a group is open, no more than an exponent in it is left without reading. -/
theorem settle_of_openGroups (ts : Tables) (cs : List Char) (h : OpenFrames frames)
    (hn : openGroups frames = n + 1) :
    (currentMode (settle ts cs frames)).inQuantity = true ∧
      openGroups (settle ts cs frames) = n + 1 := by
  rcases h.eq_of_openGroups hn with rfl | rfl
  · rw [settle_unitFrames_succ]
    exact ⟨rfl, hn⟩
  · rcases settle_cons ts cs .unitExponent (unitFrames (n + 1)) with hset | hset
    · rw [hset]
      exact ⟨rfl, hn⟩
    · rw [hset, settle_unitFrames_succ]
      exact ⟨rfl, openGroups_unitFrames (n + 1)⟩

/-- A step where groups are open reads one lexeme, and counts it if it is a
parenthesis. Only a closing parenthesis closes a group. -/
theorem advance_of_openGroups (h : OpenFrames frames) (hn : openGroups frames = n + 1) :
    ∃ l mid, advance ts c cs frames = ([l], mid) ∧ OpenFrames mid ∧
      l.nest (n + 1) = some (openGroups mid) ∧
      (l = ⟨parenthesis, [')']⟩ → c = ')' ∧ mid = unitFrames n) := by
  obtain ⟨hm, hgroups⟩ := settle_of_openGroups ts (c :: cs) h hn
  obtain ⟨l, mid, hadv, hstep⟩ := UnitStep.of_advance h hm
  have hnest := hstep.nest_eq
  have hmid : OpenFrames (advance ts c cs frames).2 := h.advance
  rw [hgroups] at hnest
  rw [hadv] at hmid
  refine ⟨l, mid, hadv, hmid, hnest, fun hl => ?_⟩
  generalize settle ts (c :: cs) frames = settled at hstep hgroups
  cases hstep with
  | closing m hcs =>
    obtain rfl : m = n := by simpa using hgroups
    exact ⟨(List.cons.inj hcs).1, rfl⟩
  | _ => simp [parenthesis] at hl

/-! ## §2 Inside a group -/

/-- The group that stands in `n` others is open, and the groups opened in it are
the parentheses that are open in what has been read since. -/
structure InGroup (n : Nat) (since : List Lexeme) (frames : List Mode) : Prop where
  openFrames : OpenFrames frames
  nested : ∃ inner, nesting 0 since = some inner ∧ openGroups frames = n + inner + 1

namespace InGroup

variable {since : List Lexeme}

/-- A group that has just been opened. -/
theorem start (n : Nat) : InGroup n [] (unitFrames (n + 1)) :=
  ⟨.unit (n + 1), 0, rfl, openGroups_unitFrames (n + 1)⟩

/-- The group, and what it stands in, is below all that has been opened since. -/
theorem isSuffix (h : InGroup n since frames) : unitFrames (n + 1) <:+ frames := by
  obtain ⟨hopen, inner, -, hgroups⟩ := h
  have hunit : unitFrames (n + 1) <:+ unitFrames (n + inner + 1) := by
    refine ⟨List.replicate inner .unitGroup, ?_⟩
    rw [unitFrames, unitFrames, ← List.append_assoc, List.replicate_append_replicate]
    congr 2
    omega
  rcases hopen.eq_of_openGroups hgroups with rfl | rfl
  · exact hunit
  · exact hunit.trans (List.suffix_cons _ _)

/-- A step reads one lexeme and stays in the group, or it reads the parenthesis
that closes it. -/
theorem step (ts : Tables) (c : Char) (cs : List Char) (h : InGroup n since frames) :
    ∃ l mid, advance ts c cs frames = ([l], mid) ∧ (InGroup n (since ++ [l]) mid ∨
      c = ')' ∧ l = ⟨parenthesis, [')']⟩ ∧ mid = unitFrames n ∧ Balanced since) := by
  obtain ⟨hopen, inner, hnest, hgroups⟩ := h
  obtain ⟨l, mid, hadv, hmid, hl, hclosing⟩ := advance_of_openGroups hopen hgroups
  refine ⟨l, mid, hadv, ?_⟩
  have hcount : l.nest (n + 1 + inner) = some (openGroups mid) := by rwa [Nat.add_right_comm]
  rcases nest_add hcount with ⟨inner', hinner', hnest'⟩ | ⟨rfl, hparen⟩
  · refine .inl ⟨hmid, inner', ?_, by omega⟩
    rw [nesting_concat, hnest, Option.bind_some, hnest']
  · obtain ⟨hc, hframes⟩ := hclosing hparen
    exact .inr ⟨hc, hparen, hframes, hnest⟩

end InGroup

end

/-! ## §3 Groups in a source -/

namespace Lexer

/-- The modes around the one that the step has entered. -/
def outerModes (ts : Tables) (source : String) (i : Nat) : List Mode :=
  (atStep ts source (i + 1)).state.modes.dropLast

/-- After all steps from the one on that follows `i`, and before `j`, more modes
are open than a number of them. -/
def StaysAbove (ts : Tables) (source : String) (depth i j : Nat) : Prop :=
  ∀ k, i < k → k ≤ j → depth < (atStep ts source k).state.depth

section

variable {ts : Tables} {source : String} {i j n : Nat}

/-- A step that enters a group leaves it open in the modes of a unit, and enters
one mode on top of those it has settled in. -/
theorem frames_of_enters_unitGroup (h : (atStep ts source i).Enters .unitGroup) :
    ∃ n, (atStep ts source (i + 1)).state.frames = unitFrames (n + 1) ∧
      (atStep ts source i).settledFrames.length = n + 1 := by
  have hsettled : OpenFrames (atStep ts source i).settledFrames := (openFrames_atStep i).settle
  obtain ⟨c, cs, s, hr, hs, hne, htrans⟩ := exists_step?_of_enters h
  rw [tables_atStep] at hs
  have hmem := Mode.transition_mem hs
  obtain ⟨tail, htext⟩ := (Mode.takes_of_step? hs).text_isPrefix
  obtain ⟨-, hframes, -⟩ := atStep_succ_of_step? hr hs htext.symm hne
  have hopen := hsettled.apply hmem
  rw [hframes]
  rcases htrans with ht | ⟨outer, ht⟩
  · rw [ht, Transition.apply] at hopen ⊢
    obtain ⟨n, hn⟩ := hopen.eq_of_unitGroup
    exact ⟨n, by rw [hn, unitFrames_succ], by simp [hn, unitFrames]⟩
  · rw [ht, Transition.apply] at hopen ⊢
    obtain ⟨n, hn⟩ := hopen.eq_of_unitGroup
    refine ⟨n, by rw [hn, unitFrames_succ], ?_⟩
    -- The root exchanges itself for nothing, so there is a mode to exchange.
    have hlen := congrArg List.length hn
    cases hset : (atStep ts source i).settledFrames with
    | nil => simp [hset, currentMode, Mode.transitions, ht] at hmem
    | cons m below => simpa [hset, unitFrames] using hlen

/-- What a step does in a group. -/
theorem inGroup_step {since : List Lexeme}
    (h : InGroup n since (atStep ts source j).state.frames) :
    (∃ ls, (atStep ts source (j + 1)).readSoFar = (atStep ts source j).readSoFar ++ ls ∧
      InGroup n (since ++ ls) (atStep ts source (j + 1)).state.frames) ∨
    (∃ tail, (atStep ts source j).rest = ')' :: tail) ∧
      (atStep ts source (j + 1)).state.frames = unitFrames n ∧
      (atStep ts source (j + 1)).pending = (atStep ts source j).pending ++
        [⟨parenthesis, ")", (atStep ts source j).state.pos⟩] ∧ Balanced since := by
  cases hr : (atStep ts source j).rest with
  | nil =>
    rw [atStep_succ_of_rest_eq_nil hr]
    exact .inl ⟨[], by simp, by simpa using h⟩
  | cons c cs =>
    obtain ⟨ls, mid, tail, hadv, -, -, hframes, hpend⟩ := exists_advance hr
    obtain ⟨l, mid', hadv', hnext⟩ := h.step ts c cs
    obtain ⟨rfl, rfl⟩ := Prod.mk.inj (hadv.symm.trans hadv')
    rcases hnext with hin | ⟨rfl, rfl, hmid, hbalanced⟩
    · exact .inl ⟨[l], readSoFar_eq_append hpend, by rwa [hframes]⟩
    · exact .inr ⟨⟨cs, rfl⟩, hframes.trans hmid, hpend, hbalanced⟩

/-- As long as the modes are deeper than those around a group, it is open. -/
theorem inGroup_of_staysAbove (h : (atStep ts source (i + 1)).state.frames = unitFrames (n + 1))
    (hij : i < j) (habove : StaysAbove ts source (n + 2) i j) :
    ∃ since, (atStep ts source j).readSoFar = (atStep ts source (i + 1)).readSoFar ++ since ∧
      InGroup n since (atStep ts source j).state.frames := by
  induction hij with
  | refl => exact ⟨[], by simp, by rw [h]; exact .start n⟩
  | @step j hij ih =>
    obtain ⟨since, hread, hin⟩ := ih fun k hik hkj => habove k hik (Nat.le_succ_of_le hkj)
    rcases inGroup_step hin with ⟨ls, hread', hin'⟩ | ⟨-, hframes, -, -⟩
    · exact ⟨since ++ ls, by rw [hread', hread, List.append_assoc], hin'⟩
    · have hdepth := habove (j + 1) (Nat.lt_succ_of_lt hij) (Nat.le_refl _)
      simp [State.depth, hframes, unitFrames] at hdepth

end

end Lexer

/-- The modes of a group that is open stand below all others. -/
theorem InGroup.modes_isPrefix {n : Nat} {since : List Lexeme} {s : State}
    (h : InGroup n since s.frames) : .root :: (unitFrames (n + 1)).reverse <+: s.modes :=
  (List.prefix_cons_inj _).mpr (List.reverse_prefix.mpr h.isSuffix)

/-- A step that enters a group of units puts it on top of the modes it has
settled in, with the mode of the unit in place of one that waits for it. These
modes and the group then stand below all others until a step leaves no more open
than those around the group. That step reads one closing parenthesis and leaves
exactly the modes around the group, and the parentheses read in between are
balanced. Nothing but a closing parenthesis does so: a group that none closes is
open at the end of the source. -/
theorem group_closed_by_parenthesis {ts : Tables} {source : String} {i : Nat}
    (h : (Lexer.atStep ts source i).Enters .unitGroup) :
    (Lexer.atStep ts source (i + 1)).state.modes =
      Lexer.outerModes ts source i ++ [.unitGroup] ∧
    (Lexer.outerModes ts source i).length =
      (Lexer.atStep ts source i).settledFrames.length + 1 ∧
    (∀ j, i < j → Lexer.StaysAbove ts source (Lexer.outerModes ts source i).length i j →
      Lexer.outerModes ts source i ++ [.unitGroup] <+: (Lexer.atStep ts source j).state.modes ∧
      ((∀ tail, (Lexer.atStep ts source j).rest ≠ ')' :: tail) →
        Lexer.outerModes ts source i ++ [.unitGroup] <+:
          (Lexer.atStep ts source (j + 1)).state.modes) ∧
      ((Lexer.atStep ts source (j + 1)).state.depth ≤ (Lexer.outerModes ts source i).length →
        (Lexer.atStep ts source (j + 1)).state.modes = Lexer.outerModes ts source i ∧
        (Lexer.atStep ts source (j + 1)).pending = (Lexer.atStep ts source j).pending ++
          [⟨parenthesis, ")", (Lexer.atStep ts source j).state.pos⟩] ∧
        ∃ since, (Lexer.atStep ts source j).readSoFar =
          (Lexer.atStep ts source (i + 1)).readSoFar ++ since ∧ Balanced since)) ∧
    ((∀ j, Lexer.StaysAbove ts source (Lexer.outerModes ts source i).length i j) →
      Lexer.outerModes ts source i ++ [.unitGroup] <+: finalModes ts source) := by
  obtain ⟨n, hframes, hsettled⟩ := Lexer.frames_of_enters_unitGroup h
  have hmodes : (Lexer.atStep ts source (i + 1)).state.modes =
      .root :: (unitFrames (n + 1)).reverse := by rw [State.modes, hframes]
  have houter : Lexer.outerModes ts source i = .root :: (unitFrames n).reverse := by
    rw [Lexer.outerModes, hmodes, unitFrames_succ, List.reverse_cons, ← List.cons_append,
      List.dropLast_concat]
  have hgroup : Lexer.outerModes ts source i ++ [.unitGroup] =
      .root :: (unitFrames (n + 1)).reverse := by
    rw [houter, unitFrames_succ, List.reverse_cons, List.cons_append]
  have hlength : (Lexer.outerModes ts source i).length = n + 2 := by
    simp [houter, unitFrames]
  rw [hgroup, hlength]
  refine ⟨hmodes, by rw [hsettled], fun j hij habove => ?_, fun habove => ?_⟩
  · obtain ⟨since, hread, hin⟩ := Lexer.inGroup_of_staysAbove hframes hij habove
    refine ⟨hin.modes_isPrefix, fun hrest => ?_, fun hdepth => ?_⟩
    · rcases Lexer.inGroup_step hin with ⟨ls, -, hin'⟩ | ⟨⟨tail, htail⟩, -⟩
      · exact hin'.modes_isPrefix
      · exact absurd htail (hrest tail)
    · rcases Lexer.inGroup_step hin with ⟨ls, -, hin'⟩ | ⟨-, hleft, hpend, hbalanced⟩
      · have hlen := hin'.modes_isPrefix.length_le
        simp only [State.length_modes, List.length_cons, List.length_reverse, unitFrames,
          List.length_append, List.length_replicate, List.length_nil] at hlen
        omega
      · exact ⟨by rw [State.modes, hleft, houter], hpend, since, hread, hbalanced⟩
  · obtain ⟨k, hk, -, -⟩ := Lexer.exists_rest_atStep_eq_nil ts source
    have hend := Lexer.atStep_eq_of_rest_eq_nil hk (Nat.le_max_left k (i + 1))
    obtain ⟨since, -, hin⟩ :=
      Lexer.inGroup_of_staysAbove hframes (Nat.le_max_right k (i + 1)) (habove _)
    rw [← Lexer.modes_eq_finalModes (hend ▸ hk)]
    exact hin.modes_isPrefix

theorem group_of_metre_closed :
    (Lexer.atStep .standard "1 (m)" 2).Enters .unitGroup ∧
    (Lexer.atStep .standard "1 (m)" 5).state.modes = [.root, .unitExpression] ∧
    ∃ since, (Lexer.atStep .standard "1 (m)" 4).readSoFar =
      (Lexer.atStep .standard "1 (m)" 3).readSoFar ++ since ∧ Balanced since := by
  have henters : (Lexer.atStep .standard "1 (m)" 2).Enters .unitGroup :=
    .inr ⟨.unitExpression, by decide⟩
  have houter : Lexer.outerModes .standard "1 (m)" 2 = [.root, .unitExpression] := by decide
  have habove : Lexer.StaysAbove .standard "1 (m)" 2 2 4 := by
    intro k hik hkj
    obtain rfl | rfl : k = 3 ∨ k = 4 := by omega
    · decide
    · decide
  have hclosed := ((group_closed_by_parenthesis henters).2.2.1 4 (by decide)
    (by rwa [houter])).2.2 (by rw [houter]; decide)
  exact ⟨henters, hclosed.1.trans houter, hclosed.2.2⟩

end UnitLexer
