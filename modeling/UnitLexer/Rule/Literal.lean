/-
UnitLexer.Rule.Literal — comments, numbers and strings.

A string stays on its line. A quote opens one only if the line closes it, or
ends in a backslash; any other quote takes the rest of its line with it as a
broken string. In a string the rules take plain text, escapes and the closing
quote; a backslash at the end of the line breaks the string off there.
-/
import UnitLexer.Rule.Basic
import UnitLexer.Number

namespace UnitLexer

/-- The quote a character is. -/
def Quote.ofChar? : Char → Option Quote
  | '"' => some .double
  | '\'' => some .single
  | _ => none

/-- What is left of a line inside a string, if nothing there closes it: no
quote outside an escape, and no backslash at the end of the line. -/
def unclosedTail? (quote : Char) : List Char → Option (List Char)
  | [] => some []
  | '\n' :: _ => some []
  | '\\' :: [] => none
  | '\\' :: c :: cs => if c = '\n' then none else (unclosedTail? quote cs).map ('\\' :: c :: ·)
  | c :: cs => if c = quote then none else (unclosedTail? quote cs).map (c :: ·)

namespace Rule

/-- A hash and the rest of its line; the line break is white space. -/
def comment : Rule
  | _, '#' :: cs => some (.one .comment ('#' :: cs.takeWhile (· != '\n')) .stay)
  | _, _ => none

/-- A numeric literal; a unit may follow. -/
def number : Rule :=
  fun _ cs => Step.one? .number (leadingNumber cs) (.push .expectUnit)

/-- A quote whose string its line does not close. -/
def unclosedString : Rule
  | _, c :: cs => do
    let quote ← Quote.ofChar? c
    let tail ← unclosedTail? quote.char cs
    some (.one .brokenString (c :: tail) .stay)
  | _, [] => none

/-- A quote that opens a string. -/
def stringOpening : Rule
  | _, c :: _ => (Quote.ofChar? c).map fun quote => .one .quote [c] (.push (.string quote))
  | _, [] => none

/-- The plain text of a string. -/
def stringText (quote : Quote) : Rule :=
  .run (fun c => c != '\\' && c != quote.char && c != '\n') .string .stay

/-- A backslash and a character on the same line. -/
def stringEscape : Rule
  | _, '\\' :: c :: _ => if c = '\n' then none else some (.one .escape ['\\', c] .stay)
  | _, _ => none

/-- The quote that closes the string. -/
def stringClosing (quote : Quote) : Rule :=
  .oneOf [quote.char] .quote .pop

/-- A backslash with nothing after it on its line: the string cannot go on. -/
def danglingBackslash : Rule :=
  .oneOf ['\\'] .brokenString .pop

end Rule

/-! ## What the rules take is there -/

theorem unclosedTail?_isPrefix {quote : Char} {cs tail : List Char}
    (h : unclosedTail? quote cs = some tail) : tail <+: cs := by
  fun_induction unclosedTail? quote cs generalizing tail with
  | case1 | case2 =>
    obtain rfl := Option.some.inj h
    exact List.nil_prefix
  | case3 | case4 | case6 => contradiction
  | case5 c cs _ ih =>
    obtain ⟨ds, hd, rfl⟩ := Option.map_eq_some_iff.mp h
    simpa using ih hd
  | case7 c cs _ _ _ _ ih =>
    obtain ⟨ds, hd, rfl⟩ := Option.map_eq_some_iff.mp h
    simpa using ih hd

namespace Rule

theorem faithful_comment : Faithful comment := by
  intro ts cs s h
  unfold comment at h
  split at h
  · obtain rfl := Option.some.inj h
    exact Step.takes_one (by simpa using List.takeWhile_prefix _) (by simp)
  · contradiction

theorem faithful_number : Faithful number :=
  fun h => Step.takes_of_one? (leadingNumber_isPrefix _) h

theorem faithful_unclosedString : Faithful unclosedString := by
  intro ts cs s h
  unfold unclosedString at h
  split at h
  · obtain ⟨quote, -, h⟩ := Option.bind_eq_some_iff.mp h
    obtain ⟨tail, ht, h⟩ := Option.bind_eq_some_iff.mp h
    obtain rfl := Option.some.inj h
    exact Step.takes_one (by simpa using unclosedTail?_isPrefix ht) (by simp)
  · contradiction

theorem faithful_stringOpening : Faithful stringOpening := by
  intro ts cs s h
  unfold stringOpening at h
  split at h
  · obtain ⟨quote, -, rfl⟩ := Option.map_eq_some_iff.mp h
    exact Step.takes_one ⟨_, rfl⟩ (by simp)
  · contradiction

theorem faithful_stringEscape : Faithful stringEscape := by
  intro ts cs s h
  unfold stringEscape at h
  split at h
  · split at h
    · contradiction
    · obtain rfl := Option.some.inj h
      exact Step.takes_one ⟨_, rfl⟩ (by simp)
  · contradiction

end Rule

end UnitLexer
