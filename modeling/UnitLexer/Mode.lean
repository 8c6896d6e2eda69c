/-
UnitLexer.Mode — lexing contexts and the stack of those that are open.

Lexing starts in the root mode, which is never left: only what has been
entered above it is stored, innermost first. So "the bottom frame is the
root" is no invariant to keep, leaving a mode at the root does nothing, and
exchanging the root for a mode enters that mode.
-/

namespace UnitLexer

/-! ## §1 Modes -/

/-- The two quotes a string can be written in. -/
inductive Quote where
  | double
  | single
  deriving DecidableEq, Repr

/-- The quote character. -/
def Quote.char : Quote → Char
  | .double => '"'
  | .single => '\''

/-- A lexing context with rules of its own. -/
inductive Mode where
  /-- Outside every other context. -/
  | root
  /-- White space; the root mode takes its rules over. -/
  | whitespace
  /-- Between the quotes of a string. -/
  | string (quote : Quote)
  /-- Straight after a number: a unit may follow. -/
  | expectUnit
  /-- After a number and blanks: a unit may still follow. -/
  | expectUnitAfterSpace
  /-- After a unit: the unit expression may go on. -/
  | unitExpression
  /-- After the power sign in a unit expression. -/
  | unitExponent
  /-- Inside a parenthesised group of units. -/
  | unitGroup
  deriving DecidableEq, Repr

namespace Mode

/-- Every mode. -/
def all : List Mode :=
  [.root, .whitespace, .string .double, .string .single, .expectUnit, .expectUnitAfterSpace,
    .unitExpression, .unitExponent, .unitGroup]

/-- The name of the mode. -/
def name : Mode → String
  | .root => "root"
  | .whitespace => "whitespace"
  | .string .double => "string_double"
  | .string .single => "string_single"
  | .expectUnit => "expect_unit"
  | .expectUnitAfterSpace => "expect_unit_after_space"
  | .unitExpression => "unit_expression"
  | .unitExponent => "unit_exponent"
  | .unitGroup => "unit_parenthesis"

end Mode

/-! ## §2 Transitions -/

/-- What a matched rule does to the modes that are open. -/
inductive Transition where
  /-- Nothing. -/
  | stay
  /-- Enter a mode inside the current one. -/
  | push (mode : Mode)
  /-- Return to the enclosing mode. -/
  | pop
  /-- Exchange the current mode for another. -/
  | replace (mode : Mode)
  /-- Exchange the current mode for the first, and enter the second inside it. -/
  | replaceThenPush (mode inner : Mode)
  deriving DecidableEq, Repr

/-- The frames above the root after a transition. -/
def Transition.apply : Transition → List Mode → List Mode
  | .stay, frames => frames
  | .push m, frames => m :: frames
  | .pop, frames => frames.tail
  | .replace m, frames => m :: frames.tail
  | .replaceThenPush m inner, frames => inner :: m :: frames.tail

/-! ## §3 States -/

/-- The current mode: the last one entered, or else the root. -/
def currentMode : List Mode → Mode
  | [] => .root
  | m :: _ => m

/-- All that is carried from one token to the next: the offset of the next
unread byte, and the modes open above the root, innermost first. -/
structure State where
  pos : Nat := 0
  frames : List Mode := []
  deriving DecidableEq, Repr, Inhabited

namespace State

/-- The current mode. -/
def mode (s : State) : Mode :=
  currentMode s.frames

/-- How many modes are open, the root among them. -/
def depth (s : State) : Nat :=
  s.frames.length + 1

/-- The open modes, the root first. -/
def modes (s : State) : List Mode :=
  .root :: s.frames.reverse

@[simp] theorem length_modes (s : State) : s.modes.length = s.depth := by
  simp [modes, depth]

end State

end UnitLexer
