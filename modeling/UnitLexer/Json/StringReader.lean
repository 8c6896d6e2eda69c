/-
UnitLexer.Json.StringReader — reading strings.

Reading starts behind the opening quote and answers with the characters up to
the closing one and with what follows it. Characters beyond U+FFFF may be
escaped as a surrogate pair; half a pair is an error, since a string holds
characters only.
-/
import UnitLexer.Json.ReadError
import UnitLexer.Text.ByteLength

namespace UnitLexer.Json

/-! ## §1 Escapes -/

/-- The value of a hexadecimal digit, in upper or lower case. -/
def hexValue? (c : Char) : Option Nat :=
  if c.isDigit then some (c.toNat - '0'.toNat)
  else if 'a' ≤ c ∧ c ≤ 'f' then some (c.toNat - 'a'.toNat + 10)
  else if 'A' ≤ c ∧ c ≤ 'F' then some (c.toNat - 'A'.toNat + 10)
  else none

/-- The value of four hexadecimal digits. -/
def hexQuad? (a b c d : Char) : Option Nat := do
  let a ← hexValue? a
  let b ← hexValue? b
  let c ← hexValue? c
  let d ← hexValue? d
  some (4096 * a + 256 * b + 16 * c + d)

/-- Reads the four digits of a code unit. The text is too short for them only
if fewer than four bytes are left. -/
def readQuad : List Char → Except ReadError (Nat × List Char)
  | a :: b :: c :: d :: cs =>
    match hexQuad? a b c d with
    | some n => .ok (n, cs)
    | none => .error .escapeInvalid
  | cs => .error (if byteLength cs < 4 then .stringUnended else .escapeInvalid)

/-- Reads the second half of a surrogate pair, its backslash included. -/
def readTrail (lead : Nat) : List Char → Except ReadError (Char × List Char)
  | [] => .error .stringUnended
  | ['\\'] => .error .stringUnended
  | '\\' :: 'u' :: cs => do
    let (trail, cs) ← readQuad cs
    if 0xDC00 ≤ trail ∧ trail ≤ 0xDFFF then
      .ok (Char.ofNat (0x10000 + (lead - 0xD800) * 0x400 + (trail - 0xDC00)), cs)
    else .error .surrogateLone
  | _ => .error .surrogateUnended

/-- Reads a code point, as one code unit or as a surrogate pair. -/
def readCodePoint (cs : List Char) : Except ReadError (Char × List Char) := do
  let (unit, cs) ← readQuad cs
  if 0xDC00 ≤ unit ∧ unit ≤ 0xDFFF then .error .surrogateLone
  else if 0xD800 ≤ unit ∧ unit ≤ 0xDBFF then readTrail unit cs
  else .ok (Char.ofNat unit, cs)

/-- Reads what follows a backslash. -/
def readEscape : List Char → Except ReadError (Char × List Char)
  | [] => .error .stringUnended
  | '"' :: cs => .ok ('"', cs)
  | '\\' :: cs => .ok ('\\', cs)
  | '/' :: cs => .ok ('/', cs)
  | 'b' :: cs => .ok ('\x08', cs)
  | 'f' :: cs => .ok ('\x0c', cs)
  | 'n' :: cs => .ok ('\n', cs)
  | 'r' :: cs => .ok ('\r', cs)
  | 't' :: cs => .ok ('\t', cs)
  | 'u' :: cs => readCodePoint cs
  | _ => .error .escapeInvalid

theorem length_readQuad {cs rest : List Char} {n : Nat} (h : readQuad cs = .ok (n, rest)) :
    rest.length < cs.length := by
  unfold readQuad at h
  split at h
  · split at h
    · obtain ⟨-, rfl⟩ := Prod.mk.inj (Except.ok.inj h)
      simp only [List.length_cons]
      omega
    · contradiction
  · contradiction

theorem length_readTrail {lead : Nat} {cs rest : List Char} {c : Char}
    (h : readTrail lead cs = .ok (c, rest)) : rest.length < cs.length := by
  unfold readTrail at h
  split at h
  · contradiction
  · contradiction
  · next tail =>
    cases hq : readQuad tail with
    | error e => simp [hq, bind, Except.bind] at h
    | ok r =>
      have hlt : r.2.length < tail.length := length_readQuad hq
      simp only [hq, bind, Except.bind] at h
      split at h
      · obtain ⟨-, rfl⟩ := Prod.mk.inj (Except.ok.inj h)
        simp only [List.length_cons]
        omega
      · contradiction
  · contradiction

theorem length_readCodePoint {cs rest : List Char} {c : Char}
    (h : readCodePoint cs = .ok (c, rest)) : rest.length < cs.length := by
  unfold readCodePoint at h
  cases hq : readQuad cs with
  | error e => simp [hq, bind, Except.bind] at h
  | ok r =>
    have hlt : r.2.length < cs.length := length_readQuad hq
    simp only [hq, bind, Except.bind] at h
    split at h
    · contradiction
    · split at h
      · have := length_readTrail h
        omega
      · obtain ⟨-, rfl⟩ := Prod.mk.inj (Except.ok.inj h)
        exact hlt

theorem length_readEscape {cs rest : List Char} {c : Char} (h : readEscape cs = .ok (c, rest)) :
    rest.length < cs.length := by
  unfold readEscape at h
  split at h
  case h_10 tail =>
    have := length_readCodePoint h
    simp only [List.length_cons]
    omega
  all_goals first
    | contradiction
    | (obtain ⟨-, rfl⟩ := Prod.mk.inj (Except.ok.inj h)
       simp)

/-! ## §2 Strings -/

/-- Reads a string from behind its opening quote. -/
def readString (cs : List Char) : Except ReadError (List Char × List Char) :=
  match cs with
  | [] => .error .stringUnended
  | '"' :: cs => .ok ([], cs)
  | '\\' :: cs =>
    match _h : readEscape cs with
    | .error e => .error e
    | .ok (c, rest) =>
      match readString rest with
      | .error e => .error e
      | .ok (s, rest) => .ok (c :: s, rest)
  | c :: cs =>
    if c.toNat < 0x20 then .error .controlCharacter
    else
      match readString cs with
      | .error e => .error e
      | .ok (s, rest) => .ok (c :: s, rest)
termination_by cs.length
decreasing_by
  · have := length_readEscape _h
    simp only [List.length_cons]
    omega
  · simp

theorem length_readString {cs rest s : List Char} (h : readString cs = .ok (s, rest)) :
    rest.length < cs.length := by
  fun_induction readString cs generalizing s rest with
  | case1 => contradiction
  | case2 cs =>
    obtain ⟨-, rfl⟩ := Prod.mk.inj (Except.ok.inj h)
    simp
  | case3 => contradiction
  | case4 => contradiction
  | case5 cs c mid he s' rest' hs ih =>
    obtain ⟨-, rfl⟩ := Prod.mk.inj (Except.ok.inj h)
    have h₁ := length_readEscape he
    have h₂ := ih hs
    simp only [List.length_cons]
    omega
  | case6 => contradiction
  | case7 => contradiction
  | case8 c cs _ _ _ s' rest' hs ih =>
    obtain ⟨-, rfl⟩ := Prod.mk.inj (Except.ok.inj h)
    have := ih hs
    simp only [List.length_cons]
    omega

end UnitLexer.Json
