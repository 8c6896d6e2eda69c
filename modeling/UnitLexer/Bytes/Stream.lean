/-
UnitLexer.Bytes.Stream — the stream of tokens of a source read byte by byte.

The stream keeps the source and an offset in it. A step stands a cursor there,
asks the rules of the current mode and leaves the mode if they hand the input
back; then it cuts the tokens out of the source, one behind the other, by the
lengths of the answer. What is refused on the way ends the stream.
-/
import UnitLexer.Bytes.Scan
import UnitLexer.Token

namespace UnitLexer.Bytes

/-- The tokens of pieces that lie one behind the other from an offset on. -/
def cutTokens (source : String) (start : Nat) : List Piece → Except Refusal (List Token)
  | [] => return []
  | p :: ps => do
    let text ← cut source start (start + p.length)
    return ⟨p.kind, text, start⟩ :: (← cutTokens source (start + p.length) ps)

/-- The tokens of an answer, and the state after it. -/
def takeStep (source : String) (pos : Nat) (frames : List Mode) (s : Scanned) :
    Except Refusal (List Token × State) := do
  return (← cutTokens source pos s.pieces, ⟨pos + s.length, s.transition.apply frames⟩)

/-- The character at the cursor as an invalid token, and the state after it. -/
def takeInvalid (c : Cursor) (frames : List Mode) : Except Refusal (List Token × State) :=
  takeStep c.source c.pos frames (.one .invalid (c.advanceChar.pos - c.pos) .stay)

/-- The tokens of one step from an offset on, and the state after it. Only modes
above the root are left by an answer that takes nothing; in the root it makes
the character invalid, as no answer does. -/
def readStep (ts : Tables) (source : String) (pos : Nat) :
    List Mode → Except Refusal (List Token × State)
  | [] => do
    let c ← Cursor.standAt source pos
    match ← firstAnswer ts c (rules .root) with
    | some s => if s.length = 0 then takeInvalid c [] else takeStep source pos [] s
    | none => takeInvalid c []
  | m :: below => do
    let c ← Cursor.standAt source pos
    match ← firstAnswer ts c (rules m) with
    | some s =>
      if s.length = 0 then readStep ts source pos below else takeStep source pos (m :: below) s
    | none => takeInvalid c (m :: below)

/-- A stream of tokens over one source. -/
structure Stream where
  tables : Tables
  source : String
  /-- Where reading stands; tokens not asked for yet are behind it already. -/
  state : State := {}
  /-- Tokens of the last step that have not been asked for. -/
  pending : List Token := []

namespace Stream

/-- The stream of a whole source. -/
def ofSource (ts : Tables) (source : String) : Stream :=
  { tables := ts, source := source }

/-- Reads one step and keeps its tokens. -/
def step (l : Stream) : Except Refusal Stream := do
  let (tokens, state) ← readStep l.tables l.source l.state.pos l.state.frames
  return { l with state := state, pending := l.pending ++ tokens }

/-- The first of the tokens that are kept, and the stream without it. -/
def pop (l : Stream) : Option Token × Stream :=
  (l.pending.head?, { l with pending := l.pending.tail })

/-- The next token, and the stream after it. A step is read only when no token
of an earlier one is left and the source is not at its end. -/
def next (l : Stream) : Except Refusal (Option Token × Stream) :=
  if l.pending = [] ∧ l.state.pos < l.source.utf8ByteSize then return (← l.step).pop
  else return l.pop

/-- The answers to a number of calls, in order, and the stream after them. -/
def calls : Nat → Stream → Except Refusal (List (Option Token) × Stream)
  | 0, l => return ([], l)
  | k + 1, l => do
    let answer ← l.next
    let answers ← calls k answer.2
    return (answer.1 :: answers.1, answers.2)

end Stream

end UnitLexer.Bytes
