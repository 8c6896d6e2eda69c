/-
UnitLexer.Token — classified pieces of a source and where they lie.

Offsets count UTF-8 bytes from the start of the source. A token stores only
where it starts: where it stops follows from its text.
-/
import UnitLexer.Kind

namespace UnitLexer

/-! ## §1 Spans -/

/-- A half-open range of byte offsets. -/
structure Span where
  start : Nat
  stop : Nat
  deriving DecidableEq, Repr, Inhabited

namespace Span

/-- How many bytes the span covers. -/
def length (s : Span) : Nat :=
  s.stop - s.start

/-- The span covers nothing. -/
def isEmpty (s : Span) : Bool :=
  s.start == s.stop

/-- Both offsets, with two points between them. -/
def text (s : Span) : String :=
  toString s.start ++ ".." ++ toString s.stop

end Span

/-! ## §2 Tokens -/

/-- A classified piece of the source that starts at a byte offset. -/
structure Token where
  kind : Kind
  text : String
  start : Nat
  deriving DecidableEq, Repr

namespace Token

/-- The offset just past the token. -/
def stop (t : Token) : Nat :=
  t.start + t.text.utf8ByteSize

/-- The bytes the token covers. -/
def span (t : Token) : Span :=
  ⟨t.start, t.stop⟩

@[simp] theorem length_span (t : Token) : t.span.length = t.text.utf8ByteSize := by
  simp [span, stop, Span.length]

end Token

end UnitLexer
