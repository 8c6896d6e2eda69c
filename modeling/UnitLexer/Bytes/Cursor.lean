/-
UnitLexer.Bytes.Cursor — a source read byte by byte.

A cursor stands at an offset of the source, counted in bytes. It looks at
single bytes, and past the end it reads zeroes. It can be moved by any number
of bytes, into the middle of a character too; but a piece of the source can be
cut out between characters only. Elsewhere the cut is refused, and with it
everything that has asked for it.
-/
import Mathlib.Tactic.SplitIfs
import UnitLexer.Text.CharClass

namespace UnitLexer.Bytes

/-! ## §1 Cuts -/

/-- What is refused: to read on from inside a character, or to cut there. -/
inductive Refusal where
  | stand (pos : Nat)
  | cut (start stop : Nat)
  deriving DecidableEq, Repr

@[simp] theorem pure_eq_ok {α : Type} (a : α) : (pure a : Except Refusal α) = .ok a := rfl

@[simp] theorem ok_bind {α β : Type} (a : α) (f : α → Except Refusal β) :
    (Except.ok a >>= f) = f a := rfl

/-- The piece of a text between two offsets, if the text can be cut at both. -/
def cut (text : String) (start stop : Nat) : Except Refusal String :=
  if h : (String.Pos.Raw.IsValid text ⟨start⟩ ∧ String.Pos.Raw.IsValid text ⟨stop⟩) ∧
      start ≤ stop then
    .ok (text.extract ⟨⟨start⟩, h.1.1⟩ ⟨⟨stop⟩, h.1.2⟩)
  else .error (.cut start stop)

/-- A cut is made just where it can be, and gives the bytes that lie there. -/
theorem cut_eq_ok_iff {text piece : String} {start stop : Nat} :
    cut text start stop = .ok piece ↔
      (String.Pos.Raw.IsValid text ⟨start⟩ ∧ String.Pos.Raw.IsValid text ⟨stop⟩) ∧
        start ≤ stop ∧ piece.toByteArray = text.toByteArray.extract start stop := by
  unfold cut
  split
  · next h =>
    rw [Except.ok.injEq, ← String.toByteArray_inj, String.toByteArray_extract]
    exact ⟨fun hpiece => ⟨h.1, h.2, hpiece.symm⟩, fun hpiece => hpiece.2.2.symm⟩
  · next h => exact iff_of_false nofun fun hpiece => h ⟨hpiece.1, hpiece.2.1⟩

example : cut "é" 0 1 = .error (.cut 0 1) := rfl

/-- The bytes of a text. -/
def bytesOf (text : String) : List UInt8 :=
  text.toUTF8.data.toList

@[simp] theorem length_bytesOf (text : String) : (bytesOf text).length = text.utf8ByteSize := by
  rw [bytesOf, Array.length_toList, ← ByteArray.size, String.toUTF8_eq_toByteArray,
    String.size_toByteArray]

/-! ## §2 Classes of bytes -/

/-- A byte of a class of characters: the code of one of them. -/
def codeIn (p : Char → Bool) (b : UInt8) : Bool :=
  p (Char.ofUInt8 b)

/-- How many bytes a character has, by the first of them. -/
def charWidth (b : UInt8) : Nat :=
  if 0xC0 ≤ b ∧ b ≤ 0xDF then 2
  else if 0xE0 ≤ b ∧ b ≤ 0xEF then 3
  else if 0xF0 ≤ b ∧ b ≤ 0xF7 then 4
  else 1

/-! ## §3 Cursors -/

/-- A source and an offset in it. -/
structure Cursor where
  source : String
  pos : Nat := 0
  deriving DecidableEq, Repr

namespace Cursor

/-- A cursor for reading on from an offset, which must be between characters. -/
def standAt (source : String) (pos : Nat) : Except Refusal Cursor :=
  if String.Pos.Raw.IsValid source ⟨pos⟩ then .ok ⟨source, pos⟩ else .error (.stand pos)

/-- The byte at an offset, zero past the end. -/
def byteAt (c : Cursor) (i : Nat) : UInt8 :=
  (bytesOf c.source)[i]?.getD 0

/-- The byte the cursor stands before. -/
def current (c : Cursor) : UInt8 :=
  c.byteAt c.pos

/-- No byte is left. -/
def atEnd (c : Cursor) : Bool :=
  c.source.utf8ByteSize ≤ c.pos

/-- No byte is left on the line. -/
def atLineEnd (c : Cursor) : Bool :=
  c.atEnd || c.current == '\n'.toUInt8

/-- What is left of the source. -/
def unread (c : Cursor) : Except Refusal String :=
  cut c.source (min c.pos c.source.utf8ByteSize) c.source.utf8ByteSize

/-- What has been read since an offset. -/
def textSince (c : Cursor) (start : Nat) : Except Refusal String :=
  cut c.source start c.pos

/-- The next bytes, as many as are asked for. -/
def lookahead (c : Cursor) (n : Nat) : Except Refusal String := do
  cut (← c.unread) 0 n

/-- The character the cursor stands before. -/
def char? (c : Cursor) : Except Refusal (Option Char) := do
  return (← c.unread).toList.head?

/-- The cursor some bytes further on. -/
def advance (c : Cursor) (n : Nat) : Cursor :=
  { c with pos := c.pos + n }

/-- The cursor behind the character it stands before. -/
def advanceChar (c : Cursor) : Cursor :=
  if c.atEnd then c else c.advance (charWidth c.current)

@[simp] theorem source_advance (c : Cursor) (n : Nat) : (c.advance n).source = c.source := rfl

@[simp] theorem pos_advance (c : Cursor) (n : Nat) : (c.advance n).pos = c.pos + n := rfl

@[simp] theorem advance_zero (c : Cursor) : c.advance 0 = c := rfl

@[simp] theorem advance_advance (c : Cursor) (m n : Nat) :
    (c.advance m).advance n = c.advance (m + n) := by
  simp [advance, Nat.add_assoc]

@[simp] theorem atEnd_eq_false {c : Cursor} :
    c.atEnd = false ↔ c.pos < c.source.utf8ByteSize := by
  simp [atEnd]

/-- A byte that is not zero stands before the end. -/
theorem lt_of_current_ne_zero {c : Cursor} (h : c.current ≠ 0) :
    c.pos < c.source.utf8ByteSize := by
  refine Nat.lt_of_not_le fun hend => h ?_
  rw [current, byteAt, List.getElem?_eq_none (by simpa using hend), Option.getD_none]

@[simp] theorem source_advanceChar (c : Cursor) : c.advanceChar.source = c.source := by
  unfold advanceChar
  split <;> rfl

theorem charWidth_pos (b : UInt8) : 0 < charWidth b := by
  unfold charWidth
  split_ifs <;> decide

theorem le_pos_advanceChar (c : Cursor) : c.pos ≤ c.advanceChar.pos := by
  unfold advanceChar
  split <;> simp

/-- Before the end there is a character to move over. -/
theorem lt_pos_advanceChar {c : Cursor} (h : c.atEnd = false) : c.pos < c.advanceChar.pos := by
  have hwidth := charWidth_pos c.current
  simpa [advanceChar, h] using hwidth

/-! ## §4 Loops

A loop over the source ends because every round of it moves the cursor on
before the end. -/

/-- The cursor behind the bytes of a class. -/
def eatWhile (p : UInt8 → Bool) (c : Cursor) : Cursor :=
  if h : c.atEnd = false ∧ p c.current = true then
    have : c.pos < c.source.utf8ByteSize := atEnd_eq_false.mp h.1
    eatWhile p (c.advance 1)
  else c
termination_by c.source.utf8ByteSize - c.pos
decreasing_by simp only [source_advance, pos_advance]; omega

@[simp] theorem source_eatWhile (p : UInt8 → Bool) (c : Cursor) :
    (c.eatWhile p).source = c.source := by
  fun_induction eatWhile p c with
  | case1 c h _ ih => rw [ih, source_advance]
  | case2 => rfl

theorem le_pos_eatWhile (p : UInt8 → Bool) (c : Cursor) : c.pos ≤ (c.eatWhile p).pos := by
  fun_induction eatWhile p c with
  | case1 c h _ ih => exact Nat.le_trans (Nat.le_add_right c.pos 1) ih
  | case2 => exact Nat.le_refl _

/-- The cursor behind spaces and tabs. -/
def eatBlanks (c : Cursor) : Cursor :=
  c.eatWhile (codeIn isBlank)

@[simp] theorem source_eatBlanks (c : Cursor) : c.eatBlanks.source = c.source :=
  source_eatWhile ..

/-- The cursor at the end of its line, the line break not read. -/
def eatLine (c : Cursor) : Except Refusal Cursor := do
  match (bytesOf (← c.unread)).findIdx? (· == '\n'.toUInt8) with
  | some n => return c.advance n
  | none => return { c with pos := c.source.utf8ByteSize }

/-- There is no character at the end. -/
theorem lt_of_char? {c : Cursor} {d : Char} (h : c.char? = .ok (some d)) :
    c.pos < c.source.utf8ByteSize := by
  simp only [char?, unread, bind, Except.bind, pure, Except.pure] at h
  split at h
  · contradiction
  · next text hcut =>
    refine Nat.lt_of_not_le fun hend => ?_
    have hbytes := (cut_eq_ok_iff.mp hcut).2.2
    rw [Nat.min_eq_right hend] at hbytes
    have hempty : text = "" := by
      rw [← String.utf8ByteSize_eq_zero_iff, ← String.size_toByteArray, hbytes]
      simp
    simp [hempty] at h

/-- The cursor behind the characters of a class. -/
def eatCharWhile (p : Char → Bool) (c : Cursor) : Except Refusal Cursor :=
  match h : c.char? with
  | .error refusal => .error refusal
  | .ok none => .ok c
  | .ok (some d) =>
    have : c.pos < c.source.utf8ByteSize := lt_of_char? h
    have : 0 < d.utf8Size := d.utf8Size_pos
    if p d then eatCharWhile p (c.advance d.utf8Size) else .ok c
termination_by c.source.utf8ByteSize - c.pos
decreasing_by simp only [source_advance, pos_advance]; omega

end Cursor

end UnitLexer.Bytes
