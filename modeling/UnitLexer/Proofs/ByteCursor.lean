/-
UnitLexer.Proofs.ByteCursor — a cursor between the characters of its source.

`At` says where a cursor stands: which characters of the source lie before it
and which behind it. From there every operation of the cursor is one on the
characters behind it. What is read of them is read by moving the cursor over
their bytes (`At.advance`), so the cursor stands between characters again, and
no cut at such a place is refused.

Classes of bytes are classes of ASCII characters. A scan by such a class ends
between characters because the bytes of all the others are beyond ASCII: it
stops at the first of them or goes over all of them (`takeWhile_utf8`).
-/
import UnitLexer.Bytes.Cursor
import UnitLexer.Proofs.Coverage
import UnitLexer.Proofs.NumberExpression

namespace UnitLexer.Bytes

/-! ## §1 The bytes of characters -/

/-- The bytes of the characters, one after the other. -/
def utf8 (cs : List Char) : List UInt8 :=
  cs.flatMap String.utf8EncodeChar

@[simp] theorem utf8_nil : utf8 [] = [] := rfl

@[simp] theorem utf8_cons (d : Char) (cs : List Char) :
    utf8 (d :: cs) = String.utf8EncodeChar d ++ utf8 cs := rfl

@[simp] theorem utf8_append (cs ds : List Char) : utf8 (cs ++ ds) = utf8 cs ++ utf8 ds :=
  List.flatMap_append

theorem bytesOf_eq_utf8 (text : String) : bytesOf text = utf8 text.toList :=
  toList_toUTF8 text

@[simp] theorem length_utf8 (cs : List Char) : (utf8 cs).length = byteLength cs := by
  rw [byteLength, ← length_bytesOf, bytesOf_eq_utf8, String.toList_ofList]

theorem byteLength_singleton (d : Char) : byteLength [d] = d.utf8Size := by
  rw [← length_utf8, utf8_cons, utf8_nil, List.append_nil, String.length_utf8EncodeChar]

theorem byteLength_eq_zero {cs : List Char} : byteLength cs = 0 ↔ cs = [] := by
  rw [byteLength, String.utf8ByteSize_eq_zero_iff, String.ofList_eq_empty_iff]

/-- All bytes of a character beyond ASCII are beyond it. -/
theorem le_of_mem_utf8EncodeChar {d : Char} (h : 0x80 ≤ d.toNat) {b : UInt8}
    (hb : b ∈ String.utf8EncodeChar d) : 0x80 ≤ b.toNat := by
  have hascii : ¬ d.val.toNat ≤ 127 := Nat.not_le.mpr h
  simp only [String.utf8EncodeChar, hascii, if_false] at hb
  split_ifs at hb
  all_goals
    simp only [List.mem_cons, List.not_mem_nil, or_false] at hb
    rcases hb with rfl | rfl | rfl | rfl <;> rw [UInt8.toNat_ofNat'] <;> omega

/-- The first byte of a character tells how many there are. -/
theorem charWidth_of_utf8EncodeChar {d : Char} {b : UInt8} {bs : List UInt8}
    (h : String.utf8EncodeChar d = b :: bs) : charWidth b = d.utf8Size := by
  rw [← String.length_utf8EncodeChar, h]
  simp only [String.utf8EncodeChar] at h
  split_ifs at h
  all_goals
    obtain ⟨rfl, rfl⟩ := List.cons.inj h
    simp only [charWidth, UInt8.le_iff_toNat_le, UInt8.toNat_ofNat']
    simp only [UInt8.toNat_ofNat, List.length_cons, List.length_nil]
    split_ifs <;> omega

/-- The function tells no character beyond ASCII from another. -/
def SameBeyondAscii {α : Type} (f : Char → α) : Prop :=
  ∃ v, ∀ d : Char, 0x80 ≤ d.toNat → f d = v

/-- The code of a character is the code of no other. -/
theorem beq_toUInt8 {d : Char} (h : d.toNat < 0x80) (b : UInt8) :
    (b == d.toUInt8) = codeIn (· == d) b := by
  rw [codeIn, Bool.eq_iff_iff, beq_iff_eq, beq_iff_eq]
  constructor
  · rintro rfl
    exact ofUInt8_toUInt8 h
  · rintro rfl
    exact (toUInt8_ofUInt8 b).symm

theorem sameBeyondAscii_beq {d : Char} (h : d.toNat < 0x80) : SameBeyondAscii (· == d) :=
  ⟨false, fun _ he => beq_false_of_ne fun heq => absurd (heq ▸ he) (Nat.not_le.mpr h)⟩

/-- Such a function takes the bytes of a character for the character. -/
theorem ofUInt8_of_mem_utf8EncodeChar {α : Type} {f : Char → α} (hf : SameBeyondAscii f)
    {d : Char} {b : UInt8} (hb : b ∈ String.utf8EncodeChar d) : f (Char.ofUInt8 b) = f d := by
  rcases Nat.lt_or_ge d.toNat 0x80 with hlt | hle
  · rw [utf8EncodeChar_of_lt hlt, List.mem_singleton] at hb
    rw [hb, ofUInt8_toUInt8 hlt]
  · obtain ⟨v, hv⟩ := hf
    have hbyte : 0x80 ≤ (Char.ofUInt8 b).toNat := by
      rw [toNat_ofUInt8]
      exact le_of_mem_utf8EncodeChar hle hb
    rw [hv d hle, hv _ hbyte]

/-- A run of bytes of a class is a run of characters of the class. -/
theorem takeWhile_utf8 {p : Char → Bool} (hp : SameBeyondAscii p) (cs : List Char) :
    (utf8 cs).takeWhile (codeIn p) = utf8 (cs.takeWhile p) := by
  induction cs with
  | nil => rfl
  | cons d cs ih =>
    have hbytes : ∀ b ∈ String.utf8EncodeChar d, codeIn p b = p d :=
      fun b => ofUInt8_of_mem_utf8EncodeChar hp
    cases hd : p d with
    | true =>
      rw [utf8_cons, List.takeWhile_append_of_pos fun b hb => (hbytes b hb).trans hd, ih]
      simp [hd]
    | false =>
      obtain ⟨b, bs, hb⟩ := List.exists_cons_of_ne_nil (String.utf8EncodeChar_ne_nil (c := d))
      rw [hd] at hbytes
      simp [hd, hb, hbytes b (by simp [hb])]

/-! ## §2 Cuts -/

/-- Between characters the cut is made. -/
theorem cut_between {source : String} {before text rest : List Char}
    (h : source.toList = before ++ text ++ rest) :
    cut source (byteLength before) (byteLength before + byteLength text) =
      .ok (String.ofList text) := by
  have hstart : IsBoundary source (byteLength before) :=
    isBoundary_byteLength (h.trans (List.append_assoc ..))
  have hstop : IsBoundary source (byteLength before + byteLength text) := by
    rw [← byteLength_append]
    exact isBoundary_byteLength h
  exact cut_eq_ok_iff.mpr ⟨⟨hstart, hstop⟩, Nat.le_add_right .., toByteArray_ofList h⟩

/-! ## §3 Where a cursor stands -/

/-- Moves over texts one behind the other are one move. -/
theorem Cursor.advance_append (c : Cursor) (text text' : List Char) :
    (c.advance (byteLength text)).advance (byteLength text') =
      c.advance (byteLength (text ++ text')) := by
  rw [advance_advance, byteLength_append]

/-- The cursor stands between these characters of its source. -/
structure Cursor.At (c : Cursor) (before rest : List Char) : Prop where
  source_eq : c.source.toList = before ++ rest
  pos_eq : c.pos = byteLength before

namespace Cursor.At

variable {c : Cursor} {before text rest : List Char} {d : Char} {p : Char → Bool}

theorem of_source {source : String} (h : source.toList = before ++ rest) :
    At ⟨source, byteLength before⟩ before rest :=
  ⟨h, rfl⟩

/-- A cursor may read on between characters. -/
theorem standAt_eq {source : String} (h : source.toList = before ++ rest) :
    standAt source (byteLength before) = .ok ⟨source, byteLength before⟩ :=
  if_pos (isBoundary_byteLength h)

theorem size_eq (h : c.At before rest) :
    c.source.utf8ByteSize = byteLength before + byteLength rest := by
  rw [← byteLength_toList, h.source_eq, byteLength_append]

/-- Moved over the bytes of characters, the cursor stands behind them. -/
theorem advance (h : c.At before (text ++ rest)) :
    (c.advance (byteLength text)).At (before ++ text) rest :=
  ⟨by rw [source_advance, h.source_eq, List.append_assoc],
    by rw [pos_advance, h.pos_eq, byteLength_append]⟩

theorem advance_takeWhile (h : c.At before rest) (p : Char → Bool) :
    (c.advance (byteLength (rest.takeWhile p))).At (before ++ rest.takeWhile p)
      (rest.dropWhile p) :=
  advance (by rwa [List.takeWhile_append_dropWhile])

theorem advance_one (h : c.At before (d :: rest)) (hd : d.toNat < 0x80) :
    (c.advance 1).At (before ++ [d]) rest := by
  have hone : byteLength [d] = 1 := by
    rw [← length_utf8, utf8_cons, utf8EncodeChar_of_lt hd]
    rfl
  rw [← hone]
  exact h.advance

theorem atEnd_eq_true (h : c.At before rest) : c.atEnd = true ↔ rest = [] := by
  rw [← byteLength_eq_zero, atEnd, decide_eq_true_eq, h.size_eq, h.pos_eq]
  omega

/-! ## §4 Looking at bytes -/

/-- The bytes behind the cursor are those of the characters behind it. -/
theorem drop_bytesOf (h : c.At before rest) : (bytesOf c.source).drop c.pos = utf8 rest := by
  rw [bytesOf_eq_utf8, h.source_eq, utf8_append, h.pos_eq, ← length_utf8, List.drop_left]

theorem current_eq (h : c.At before rest) : c.current = (utf8 rest).head?.getD 0 := by
  rw [current, byteAt, ← h.drop_bytesOf, List.head?_drop]

theorem current_nil (h : c.At before []) : c.current = 0 :=
  h.current_eq

theorem current_mem (h : c.At before (d :: rest)) : c.current ∈ String.utf8EncodeChar d := by
  obtain ⟨b, bs, hb⟩ := List.exists_cons_of_ne_nil (String.utf8EncodeChar_ne_nil (c := d))
  rw [h.current_eq, utf8_cons, hb]
  exact List.mem_cons_self

theorem ofUInt8_current (h : c.At before (d :: rest)) {α : Type} {f : Char → α}
    (hf : SameBeyondAscii f) : f (Char.ofUInt8 c.current) = f d :=
  ofUInt8_of_mem_utf8EncodeChar hf h.current_mem

/-- A byte is told apart as the character it is the code of. -/
theorem current_eq_toUInt8 (h : c.At before rest) (hd : d.toNat < 0x80) (hzero : d ≠ '\x00') :
    c.current = d.toUInt8 ↔ rest.head? = some d := by
  cases rest with
  | nil =>
    rw [h.current_nil]
    refine iff_of_false (fun hcode => hzero ?_) (by simp)
    rw [← ofUInt8_toUInt8 hd, ← hcode]
    rfl
  | cons e rest =>
    rw [← beq_iff_eq, beq_toUInt8 hd, codeIn, h.ofUInt8_current (sameBeyondAscii_beq hd)]
    simp

theorem atLineEnd_eq_true (h : c.At before rest) :
    c.atLineEnd = true ↔ ∀ d, rest.head? = some d → d = '\n' := by
  rw [atLineEnd, Bool.or_eq_true, beq_iff_eq, h.atEnd_eq_true,
    h.current_eq_toUInt8 (by decide) (by decide)]
  cases rest <;> simp

/-! ## §5 Moving on -/

theorem advanceChar_eq (h : c.At before (d :: rest)) :
    c.advanceChar = c.advance (byteLength [d]) := by
  obtain ⟨b, bs, hb⟩ := List.exists_cons_of_ne_nil (String.utf8EncodeChar_ne_nil (c := d))
  have hcurrent : c.current = b := by
    rw [h.current_eq, utf8_cons, hb]
    rfl
  have hend : c.atEnd = false := by
    rw [Bool.eq_false_iff]
    simp [h.atEnd_eq_true]
  rw [advanceChar, hend, hcurrent, charWidth_of_utf8EncodeChar hb, byteLength_singleton]
  rfl

end Cursor.At

/-- Before the end there is a first byte. -/
theorem Cursor.drop_bytesOf_eq_cons {c : Cursor} (h : c.atEnd = false) :
    (bytesOf c.source).drop c.pos = c.current :: (bytesOf c.source).drop (c.pos + 1) := by
  have hlt : c.pos < (bytesOf c.source).length := by
    rw [length_bytesOf]
    exact atEnd_eq_false.mp h
  rw [List.drop_eq_getElem_cons hlt, current, byteAt, List.getElem?_eq_getElem hlt,
    Option.getD_some]

/-- The loop stops before the first byte that is not in the class. -/
theorem Cursor.eatWhile_eq_advance (p : UInt8 → Bool) (c : Cursor) :
    c.eatWhile p = c.advance (((bytesOf c.source).drop c.pos).takeWhile p).length := by
  fun_induction eatWhile p c with
  | case1 c h hlt ih =>
    rw [ih, drop_bytesOf_eq_cons h.1, List.takeWhile_cons_of_pos h.2, advance_advance]
    simp [Nat.add_comm]
  | case2 c h =>
    cases hend : c.atEnd with
    | true =>
      have hle : (bytesOf c.source).length ≤ c.pos := by simpa [atEnd] using hend
      rw [List.drop_eq_nil_of_le hle]
      rfl
    | false =>
      have hcurrent : ¬ p c.current = true := fun hp => h ⟨hend, hp⟩
      rw [drop_bytesOf_eq_cons hend, List.takeWhile_cons_of_neg hcurrent]
      rfl

section

variable {c : Cursor} {p : Char → Bool} {d : Char}

theorem Cursor.eatCharWhile_of_none (h : c.char? = .ok none) : c.eatCharWhile p = .ok c := by
  rw [eatCharWhile]
  split <;> simp_all

/-- The loop goes on behind a character of the class. -/
theorem Cursor.eatCharWhile_of_some (h : c.char? = .ok (some d)) :
    c.eatCharWhile p = if p d then (c.advance (byteLength [d])).eatCharWhile p else .ok c := by
  rw [eatCharWhile, byteLength_singleton]
  split <;> simp_all

end

namespace Cursor.At

variable {c : Cursor} {before text rest : List Char} {d : Char} {p : Char → Bool}

/-- Of a class the cursor eats the characters. -/
theorem eatWhile_eq (h : c.At before rest) (hp : SameBeyondAscii p) :
    c.eatWhile (codeIn p) = c.advance (byteLength (rest.takeWhile p)) := by
  rw [eatWhile_eq_advance, h.drop_bytesOf, takeWhile_utf8 hp, length_utf8]

/-! ## §6 Cutting -/

theorem unread_eq (h : c.At before rest) : c.unread = .ok (String.ofList rest) := by
  have hcut := cut_between (h.source_eq.trans (List.append_nil _).symm)
  rw [unread, h.size_eq, h.pos_eq, Nat.min_eq_left (Nat.le_add_right ..), hcut]

theorem textSince_eq (h : c.At (before ++ text) rest) :
    c.textSince (byteLength before) = .ok (String.ofList text) := by
  rw [textSince, h.pos_eq, byteLength_append]
  exact cut_between h.source_eq

theorem lookahead_eq (h : c.At before (text ++ rest)) :
    c.lookahead (byteLength text) = .ok (String.ofList text) := by
  have htext : (String.ofList (text ++ rest)).toList = [] ++ text ++ rest := String.toList_ofList
  have hcut := cut_between htext
  rw [byteLength_nil, Nat.zero_add] at hcut
  rw [lookahead, h.unread_eq]
  exact hcut

theorem char?_eq (h : c.At before rest) : c.char? = .ok rest.head? := by
  rw [char?, h.unread_eq]
  simp [bind, Except.bind, pure, Except.pure]

theorem eatCharWhile_eq (h : c.At before rest) :
    c.eatCharWhile p = .ok (c.advance (byteLength (rest.takeWhile p))) := by
  induction rest generalizing c before with
  | nil =>
    rw [eatCharWhile_of_none h.char?_eq]
    rfl
  | cons d rest ih =>
    have hmoved : (c.advance (byteLength [d])).At (before ++ [d]) rest := h.advance
    rw [eatCharWhile_of_some h.char?_eq]
    cases hd : p d with
    | true =>
      rw [if_pos rfl, ih hmoved, advance_append, List.singleton_append,
        List.takeWhile_cons_of_pos hd]
    | false =>
      rw [if_neg (by simp), List.takeWhile_cons_of_neg (by simp [hd])]
      rfl

/-- The search for the line break ends before it. -/
theorem eatLine_eq (h : c.At before rest) :
    c.eatLine = .ok (c.advance (byteLength (rest.takeWhile (· != '\n')))) := by
  have hclass : SameBeyondAscii (· != '\n') :=
    ⟨true, fun _ hd => bne_iff_ne.mpr fun heq => absurd (heq ▸ hd) (by decide)⟩
  have hbreak : (· == '\n'.toUInt8) = fun b => !codeIn (· != '\n') b := by
    funext b
    rw [beq_toUInt8 (by decide), codeIn, codeIn, bne, Bool.not_not]
  have hrun : byteLength (rest.takeWhile (· != '\n')) =
      (utf8 rest).findIdx (· == '\n'.toUInt8) := by
    rw [← length_utf8, ← takeWhile_utf8 hclass, List.takeWhile_eq_take_findIdx_not,
      List.length_take, Nat.min_eq_left List.findIdx_le_length, hbreak]
  rw [hrun, eatLine, h.unread_eq]
  simp only [bind, Except.bind, pure, Except.pure, bytesOf_eq_utf8, String.toList_ofList]
  cases hfound : (utf8 rest).findIdx? (· == '\n'.toUInt8) with
  | some n => rw [(List.findIdx?_eq_some_iff_findIdx_eq.mp hfound).2]
  | none =>
    rw [List.findIdx?_eq_none_iff_findIdx_eq.mp hfound, length_utf8, h.size_eq, ← h.pos_eq]
    rfl

end Cursor.At

end UnitLexer.Bytes
