/-
UnitLexer.Proofs.OpenModes — which modes can be open.

The open modes form one of six shapes (`OpenFrames`): nothing above the root,
a string, one of the two modes that wait for a unit, or a unit expression with
any number of groups in it and perhaps an exponent. `Mode.transitions` lists
what the steps of a mode do to the open modes, and that is all the invariant
needs to know about them: `OpenFrames.apply` is a case analysis over shapes
and transitions. No step of the root makes a transition that ends a mode, so
the root is never left (`OpenFrames.guarded`).
-/
import UnitLexer.Proofs.Answers
import UnitLexer.Proofs.Run

namespace UnitLexer

/-! ## §1 What modes do to the open modes -/

namespace Mode

open Rule

/-- The transitions that steps of the mode can make. -/
def transitions : Mode → List Transition
  | .root => [.stay, .push .expectUnit, .push (.string .double), .push (.string .single)]
  | .whitespace => [.stay]
  | .string _ => [.stay, .pop]
  | .expectUnit =>
    [.replace .expectUnitAfterSpace, .replace .unitExpression,
      .replaceThenPush .unitExpression .unitGroup, .pop]
  | .expectUnitAfterSpace =>
    [.replace .unitExpression, .replaceThenPush .unitExpression .unitGroup, .pop]
  | .unitExpression => [.stay, .push .unitExponent, .push .unitGroup, .pop]
  | .unitExponent => [.stay, .pop]
  | .unitGroup => [.stay, .push .unitExponent, .push .unitGroup, .pop]

theorem Finds.transition_mem {ts : Tables} {cs text : List Char} {m : Mode} {k : Kind}
    {t : Transition} (h : m.Finds ts cs k text t) : t ∈ m.transitions := by
  cases h with
  | @stringOpening quote => cases quote <;> simp [transitions]
  | space hm => cases m <;> simp [transitions, spansLines] at hm ⊢
  | firstUnit hm | firstGroup hm | blank hm | unit hm | product hm | power hm =>
    rcases hm with rfl | rfl <;> simp [transitions]
  | _ => simp [transitions]

/-- A step makes one of the transitions of its mode. -/
theorem transition_mem {m : Mode} {ts : Tables} {cs : List Char} {s : Step}
    (h : m.step? ts cs = some s) : s.transition ∈ m.transitions := by
  cases answers_of_step? h with
  | one hfinds => exact hfinds.transition_mem
  | declaration | call | spacedCall => simp [transitions]
  | handBack hm => cases m <;> simp [transitions, Step.handBack, spansLines] at hm ⊢

end Mode

/-! ## §2 Shapes of the open modes -/

/-- The frames of a unit expression with groups inside one another. -/
def unitFrames (groups : Nat) : List Mode :=
  List.replicate groups .unitGroup ++ [.unitExpression]

@[simp] theorem unitFrames_zero : unitFrames 0 = [.unitExpression] := rfl

theorem unitFrames_succ (n : Nat) : unitFrames (n + 1) = .unitGroup :: unitFrames n := rfl

/-- The frames that can stand above the root. -/
inductive OpenFrames : List Mode → Prop where
  | root : OpenFrames []
  | string (quote : Quote) : OpenFrames [.string quote]
  | expectUnit : OpenFrames [.expectUnit]
  | expectUnitAfterSpace : OpenFrames [.expectUnitAfterSpace]
  | unit (groups : Nat) : OpenFrames (unitFrames groups)
  | exponent (groups : Nat) : OpenFrames (.unitExponent :: unitFrames groups)

namespace OpenFrames

/-- Leaving the innermost mode keeps the shape. -/
theorem tail {frames : List Mode} (h : OpenFrames frames) : OpenFrames frames.tail := by
  cases h with
  | root | string | expectUnit | expectUnitAfterSpace => exact .root
  | exponent n => exact .unit n
  | unit n =>
    cases n with
    | zero => exact .root
    | succ n => exact .unit n

/-- The transitions of the innermost mode keep the shape. -/
theorem apply {frames : List Mode} {t : Transition} (h : OpenFrames frames)
    (ht : t ∈ (currentMode frames).transitions) : OpenFrames (t.apply frames) := by
  cases h with
  | root =>
    simp only [currentMode, Mode.transitions, List.mem_cons, List.not_mem_nil, or_false] at ht
    rcases ht with rfl | rfl | rfl | rfl
    · exact .root
    · exact .expectUnit
    · exact .string .double
    · exact .string .single
  | string quote =>
    simp only [currentMode, Mode.transitions, List.mem_cons, List.not_mem_nil, or_false] at ht
    rcases ht with rfl | rfl
    · exact .string quote
    · exact .root
  | expectUnit =>
    simp only [currentMode, Mode.transitions, List.mem_cons, List.not_mem_nil, or_false] at ht
    rcases ht with rfl | rfl | rfl | rfl
    · exact .expectUnitAfterSpace
    · exact .unit 0
    · exact .unit 1
    · exact .root
  | expectUnitAfterSpace =>
    simp only [currentMode, Mode.transitions, List.mem_cons, List.not_mem_nil, or_false] at ht
    rcases ht with rfl | rfl | rfl
    · exact .unit 0
    · exact .unit 1
    · exact .root
  | exponent n =>
    simp only [currentMode, Mode.transitions, List.mem_cons, List.not_mem_nil, or_false] at ht
    rcases ht with rfl | rfl
    · exact .exponent n
    · exact .unit n
  | unit n =>
    -- The expression and the groups in it have the same transitions.
    have hsame : (currentMode (unitFrames n)).transitions = Mode.transitions .unitGroup := by
      cases n <;> rfl
    rw [hsame] at ht
    simp only [Mode.transitions, List.mem_cons, List.not_mem_nil, or_false] at ht
    rcases ht with rfl | rfl | rfl | rfl
    · exact .unit n
    · exact .exponent n
    · exact .unit (n + 1)
    · exact (OpenFrames.unit n).tail

theorem settle {ts : Tables} {cs : List Char} {frames : List Mode} (h : OpenFrames frames) :
    OpenFrames (settle ts cs frames) :=
  settle_induction (fun _ _ hm => hm.tail) h

/-- A step keeps the shape. -/
theorem advance {ts : Tables} {c : Char} {cs : List Char} {frames : List Mode}
    (h : OpenFrames frames) : OpenFrames (advance ts c cs frames).2 := by
  rcases advance_cases ts c cs frames with ⟨s, hs, -, hadv⟩ | ⟨-, hadv⟩
  · rw [hadv]
    exact h.settle.apply (Mode.transition_mem hs)
  · rw [hadv]
    exact h.settle

end OpenFrames

/-- A run keeps the shape of the open modes. -/
theorem Reads.openFrames {ts : Tables} {frames frames' : List Mode} {cs rest : List Char}
    {ls : List Lexeme} (h : Reads ts frames cs ls frames' rest) (hf : OpenFrames frames) :
    OpenFrames frames' :=
  h.invariant OpenFrames.advance hf

/-! ## §3 The transitions of a step

A step makes several transitions: one for each mode that hands the input back,
and that of the rule that takes something. Here they are one by one, so that
the frames between them can be spoken about. -/

namespace Transition

/-- The frames after transitions made one after the other. -/
def applyAll (moves : List Transition) (frames : List Mode) : List Mode :=
  moves.foldl (fun frames t => t.apply frames) frames

@[simp] theorem applyAll_nil (frames : List Mode) : applyAll [] frames = frames := rfl

@[simp] theorem applyAll_cons (t : Transition) (moves : List Transition) (frames : List Mode) :
    applyAll (t :: moves) frames = applyAll moves (t.apply frames) := rfl

theorem applyAll_append (moves moves' : List Transition) (frames : List Mode) :
    applyAll (moves ++ moves') frames = applyAll moves' (applyAll moves frames) :=
  List.foldl_append

/-- The transition leaves the current mode or exchanges it for another. -/
def endsMode : Transition → Bool
  | .stay | .push _ => false
  | .pop | .replace _ | .replaceThenPush _ _ => true

end Transition

/-- The returns from the modes that hand the input back. -/
def settleMoves (ts : Tables) (cs : List Char) : List Mode → List Transition
  | [] => []
  | m :: below =>
    match m.step? ts cs with
    | some s => if s.text = [] then .pop :: settleMoves ts cs below else []
    | none => []

/-- The transition of the rule that takes something, if one does. -/
def takingMoves (ts : Tables) (cs : List Char) (settled : List Mode) : List Transition :=
  match (currentMode settled).step? ts cs with
  | some s => if s.text = [] then [] else [s.transition]
  | none => []

/-- All the transitions that the next step of a lexer makes, in order. -/
def Lexer.moves (l : Lexer) : List Transition :=
  if l.rest = [] then []
  else
    settleMoves l.tables l.rest l.state.frames ++
      takingMoves l.tables l.rest (settle l.tables l.rest l.state.frames)

theorem applyAll_settleMoves (ts : Tables) (cs : List Char) (frames : List Mode) :
    Transition.applyAll (settleMoves ts cs frames) frames = settle ts cs frames := by
  induction frames with
  | nil => rfl
  | cons m below ih =>
    cases hs : m.step? ts cs with
    | none => simp [settleMoves, settle, hs]
    | some s =>
      by_cases he : s.text = [] <;> simp [settleMoves, settle, hs, he, Transition.apply, ih]

/-- A step leaves the frames that its transitions make. -/
theorem Lexer.frames_step (l : Lexer) :
    l.step.state.frames = Transition.applyAll l.moves l.state.frames := by
  cases hr : l.rest with
  | nil => simp [moves, hr]
  | cons c cs =>
    have hstep : l.step.state.frames = (advance l.tables c cs l.state.frames).2 := by
      simp only [step, hr]
    rw [hstep, moves, hr, if_neg (List.cons_ne_nil c cs), Transition.applyAll_append,
      applyAll_settleMoves]
    rcases advance_cases l.tables c cs l.state.frames with ⟨s, hs, hne, hadv⟩ | ⟨hnone, hadv⟩
    · rw [hadv]
      simp [takingMoves, hs, hne]
    · rw [hadv]
      cases hs : (currentMode (settle l.tables (c :: cs) l.state.frames)).step? l.tables
          (c :: cs) with
      | none => simp [takingMoves, hs]
      | some s => simp [takingMoves, hs, hnone s hs]

/-! ## §4 The root is never left -/

/-- The transitions are made in frames of a run only, and none that ends a mode
is made where only the root is open. -/
def Guarded : List Transition → List Mode → Prop
  | [], frames => OpenFrames frames
  | t :: moves, frames =>
    OpenFrames frames ∧ (t.endsMode = true → frames ≠ []) ∧ Guarded moves (t.apply frames)

theorem Guarded.append {moves moves' : List Transition} {frames : List Mode}
    (h : Guarded moves frames) (h' : Guarded moves' (Transition.applyAll moves frames)) :
    Guarded (moves ++ moves') frames := by
  induction moves generalizing frames with
  | nil => exact h'
  | cons t moves ih => exact ⟨h.1, h.2.1, ih h.2.2 h'⟩

namespace OpenFrames

variable {frames : List Mode}

theorem guarded_settleMoves (h : OpenFrames frames) (ts : Tables) (cs : List Char) :
    Guarded (settleMoves ts cs frames) frames := by
  induction frames with
  | nil => exact .root
  | cons m below ih =>
    unfold settleMoves
    split
    · split
      · exact ⟨h, by simp, ih h.tail⟩
      · exact h
    · exact h

/-- No rule of the root ends a mode. -/
theorem guarded_takingMoves (h : OpenFrames frames) (ts : Tables) (cs : List Char) :
    Guarded (takingMoves ts cs frames) frames := by
  unfold takingMoves
  split
  · next s hs =>
    split
    · exact h
    · have ht := Mode.transition_mem hs
      refine ⟨h, fun hends => ?_, h.apply ht⟩
      rintro rfl
      simp only [currentMode, Mode.transitions, List.mem_cons, List.not_mem_nil, or_false] at ht
      rcases ht with ht | ht | ht | ht <;> simp [ht, Transition.endsMode] at hends
  · exact h

theorem guarded {l : Lexer} (h : OpenFrames l.state.frames) : Guarded l.moves l.state.frames := by
  unfold Lexer.moves
  split
  · exact h
  · refine (h.guarded_settleMoves _ _).append ?_
    rw [applyAll_settleMoves]
    exact h.settle.guarded_takingMoves _ _

end OpenFrames

end UnitLexer
