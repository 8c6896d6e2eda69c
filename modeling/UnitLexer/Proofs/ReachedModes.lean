/-
UnitLexer.Proofs.ReachedModes — exactly which stacks of modes occur.

`OpenFrames` bounds the modes a run can open; here every one of its shapes is
reached, so the bound is the answer. A stack is reached by a source that ends
where the stack is open: a number waits for its unit, `1 ((m` has two groups
open, and `1 ((m^` an exponent in them. Only a string is never left open by a
source: a quote opens one where the line closes it, so that stack is met on
the way.
-/
import UnitLexer.Proofs.OpenModes
import UnitLexer.Proofs.UnitExpressions

namespace UnitLexer

open Rule

/-! ## §1 The stacks -/

/-- The stacks that occur, the root first. -/
inductive StackShape : List Mode → Prop where
  | root : StackShape [.root]
  | string (quote : Quote) : StackShape [.root, .string quote]
  | expectUnit : StackShape [.root, .expectUnit]
  | expectUnitAfterSpace : StackShape [.root, .expectUnitAfterSpace]
  | unit (groups : Nat) :
      StackShape ([.root, .unitExpression] ++ List.replicate groups .unitGroup)
  | exponent (groups : Nat) :
      StackShape ([.root, .unitExpression] ++ List.replicate groups .unitGroup ++ [.unitExponent])

theorem reverse_unitFrames (groups : Nat) :
    (unitFrames groups).reverse = .unitExpression :: List.replicate groups .unitGroup := by
  simp [unitFrames]

/-- The frames of a run, seen as a stack. -/
theorem OpenFrames.stackShape {frames : List Mode} (h : OpenFrames frames) :
    StackShape (.root :: frames.reverse) := by
  cases h with
  | root => exact .root
  | string quote => exact .string quote
  | expectUnit => exact .expectUnit
  | expectUnitAfterSpace => exact .expectUnitAfterSpace
  | unit n =>
    rw [reverse_unitFrames]
    exact .unit n
  | exponent n =>
    rw [List.reverse_cons, reverse_unitFrames]
    exact .exponent n

theorem StackShape.whitespace_notMem {stack : List Mode} (h : StackShape stack) :
    .whitespace ∉ stack := by
  cases h <;> simp

/-! ## §2 How each stack is reached -/

section

variable {ts : Tables} {m : Mode} {below : List Mode} {w rest : List Char}

/-- A quote opens a string that the same quote closes. -/
theorem reads_stringOpening (quote : Quote) :
    Reads ts [] [quote.char, quote.char] [⟨.quote, [quote.char]⟩] [.string quote] [quote.char] := by
  refine Reads.of_step? (s := .one .quote [quote.char] (.push (.string quote))) ?_ rfl (by simp)
  cases quote <;> rfl

/-- Past opening parentheses the look-ahead for a group finds a unit. -/
theorem leadingUnit_nested_ne_nil (hw : IsUnit ts w) (hrest : Stops isUnitChar rest) (n : Nat) :
    leadingUnit ts ((List.replicate n '(' ++ (w ++ rest)).dropWhile opensOrBlank) ≠ [] := by
  rw [List.dropWhile_append_of_pos (by simp [opensOrBlank])]
  exact leadingUnit_text_ne_nil (.word ⟨w, hw⟩) hrest

/-- Every opening parenthesis before a unit opens a group. -/
theorem exists_reads_nested (hm : ReadsUnits m) (hw : IsUnit ts w) (hrest : Stops isUnitChar rest)
    (n : Nat) : ∃ ls, Reads ts (m :: below) (List.replicate n '(' ++ (w ++ rest)) ls
      (List.replicate n .unitGroup ++ m :: below) rest := by
  induction n generalizing m below with
  | zero => exact ⟨_, reads_unit hm hw hrest⟩
  | succ n ih =>
    have hlook := leadingUnit_nested_ne_nil hw hrest (n + 1)
    rw [List.replicate_succ, List.cons_append] at hlook ⊢
    have hopening : Reads ts (m :: below) ('(' :: (List.replicate n '(' ++ (w ++ rest))) _
        (.unitGroup :: m :: below) (List.replicate n '(' ++ (w ++ rest)) :=
      reads_opening hm fun _ => opensUnitGroup_cons hlook
    obtain ⟨ls, hinner⟩ := ih (.inr rfl)
    rw [List.replicate_succ', List.append_assoc]
    exact ⟨_, hopening.append hinner⟩

end

/-! ## §3 The stacks that occur -/

section

variable {rest : List Char}

theorem isUnit_metre : IsUnit .standard ['m'] :=
  ⟨by decide, by decide, by decide⟩

theorem isNumber_one : IsNumber ['1'] :=
  .plain (.whole (isDigits_singleton rfl))

/-- A number before blanks or the end of the source waits for its unit. -/
theorem reads_one (hrest : Stops isNumberChar rest) :
    Reads .standard [] ('1' :: rest) [⟨.number, ['1']⟩] [.expectUnit] rest :=
  reads_number isNumber_one hrest

/-- After a blank it still does. -/
theorem reads_one_blank (hrest : Stops isBlank rest) :
    Reads .standard [] ('1' :: ' ' :: rest) [⟨.number, ['1']⟩, ⟨.space, [' ']⟩]
      [.expectUnitAfterSpace] rest := by
  have hgap : Reads .standard [.expectUnit] ([' '] ++ rest) [⟨.space, [' ']⟩]
      [.expectUnitAfterSpace] rest := reads_gap (by simp [isBlank]) (by simp) hrest
  exact (reads_one (stops_cons.mpr (by decide))).append hgap

/-- The unit of the number may stand in any number of groups. -/
theorem exists_reads_groups (hrest : Stops isUnitChar rest) (n : Nat) {frames : List Mode}
    {ms : List Lexeme} (h : Reads .standard (unitFrames n) rest ms frames []) :
    ∃ ls, Reads .standard [] ('1' :: ' ' :: (List.replicate n '(' ++ ('m' :: rest))) ls
      frames [] := by
  obtain ⟨ls, hgroups⟩ : ∃ ls, Reads .standard [.unitExpression]
      (List.replicate n '(' ++ (['m'] ++ rest)) ls (unitFrames n) rest :=
    exists_reads_nested (.inl rfl) isUnit_metre hrest n
  have hlook := leadingUnit_nested_ne_nil isUnit_metre hrest n
  have hblank : Stops isBlank (List.replicate n '(' ++ (['m'] ++ rest)) := by
    cases n <;> exact stops_cons.mpr (by decide)
  have hunits := (hgroups.append h).after_gap hlook hblank
  exact ⟨_, (reads_one_blank hblank).append hunits⟩

end

/-- Modes that a run opens are met when a source that starts like its input is
read. -/
theorem exists_source_of_reads {ts : Tables} {cs rest : List Char} {ls : List Lexeme}
    {frames : List Mode} (h : Reads ts [] cs ls frames rest) :
    ∃ source k, (Lexer.step^[k] (Lexer.ofSource ts source)).state.modes =
      .root :: frames.reverse := by
  let l := Lexer.ofSource ts (String.ofList cs)
  have hsource : Reads l.tables l.state.frames l.rest ls frames rest := by
    simpa [l, Lexer.ofSource] using h
  obtain ⟨k, hk, -⟩ := Lexer.exists_iterate_step hsource
  exact ⟨String.ofList cs, k, by rw [State.modes, hk]⟩

/-- Every stack of the six shapes is met while some source is read. -/
theorem StackShape.exists_source {stack : List Mode} (h : StackShape stack) :
    ∃ source k, (Lexer.step^[k] (Lexer.ofSource .standard source)).state.modes = stack := by
  cases h with
  | root => exact exists_source_of_reads (.done : Reads .standard [] [] [] [] [])
  | string quote => exact exists_source_of_reads (reads_stringOpening quote)
  | expectUnit => exact exists_source_of_reads (reads_one (stops_nil _))
  | expectUnitAfterSpace => exact exists_source_of_reads (reads_one_blank (stops_nil _))
  | unit n =>
    obtain ⟨ls, hrun⟩ := exists_reads_groups (stops_nil _) n .done
    obtain ⟨source, k, hk⟩ := exists_source_of_reads hrun
    exact ⟨source, k, by rw [hk, reverse_unitFrames]; rfl⟩
  | exponent n =>
    have hpower : Reads .standard (unitFrames n) ['^'] [⟨.unitOperator, ['^']⟩]
        (.unitExponent :: unitFrames n) [] := by
      cases n with
      | zero => exact reads_power (.inl rfl)
      | succ n => exact reads_power (.inr rfl)
    obtain ⟨ls, hrun⟩ := exists_reads_groups (stops_cons.mpr (by decide)) n hpower
    obtain ⟨source, k, hk⟩ := exists_source_of_reads hrun
    exact ⟨source, k, by rw [hk, List.reverse_cons, reverse_unitFrames]; rfl⟩

/-- The modes open after any number of steps form one of the six stacks, and the
next step gets from there to its own by transitions none of which ends the
root. With the standard tables each of the six is reached, however deep. -/
theorem stackShape_iterate_step :
    (∀ (ts : Tables) (source : String) (k : Nat),
      let l := Lexer.step^[k] (Lexer.ofSource ts source)
      StackShape l.state.modes ∧ .whitespace ∉ l.state.modes ∧
        l.step.state.frames = Transition.applyAll l.moves l.state.frames ∧
        Guarded l.moves l.state.frames) ∧
    ∀ stack, StackShape stack →
      ∃ source k, (Lexer.step^[k] (Lexer.ofSource .standard source)).state.modes = stack := by
  refine ⟨fun ts source k => ?_, fun stack h => h.exists_source⟩
  intro l
  obtain ⟨ls, hls⟩ := (Lexer.ofSource ts source).readsTo_iterate_step k
  have hframes : OpenFrames l.state.frames := hls.reads.openFrames .root
  have hstack : StackShape l.state.modes := hframes.stackShape
  exact ⟨hstack, hstack.whitespace_notMem, l.frames_step, hframes.guarded⟩

end UnitLexer
