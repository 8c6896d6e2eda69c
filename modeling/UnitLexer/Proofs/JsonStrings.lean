/-
UnitLexer.Proofs.JsonStrings — a string is read as the characters it spells.

The reader of strings goes over characters, escapes and surrogate pairs, and
stops at the closing quote. What it answers is what the pieces of the string
stand for (`toOption_readString`), in whichever way they are spelled, and it
stops with a problem where half a pair stands for nothing.
-/
import UnitLexer.Proofs.JsonGrammar

namespace UnitLexer.Json

/-! ## §1 Escapes -/

theorem toOption_bind {α β : Type} (x : Except ReadError α) (f : α → Except ReadError β) :
    (x >>= f).toOption = x.toOption.bind fun a => (f a).toOption := by
  cases x <;> rfl

theorem readQuad_of_hexQuad? {a b c d : Char} {n : Nat} (h : hexQuad? a b c d = some n)
    (cs : List Char) : readQuad (a :: b :: c :: d :: cs) = .ok (n, cs) := by
  simp [readQuad, h]

/-- A short escape is read as what it stands for. -/
theorem readEscape_short {letter c : Char} (h : (letter, c) ∈ shortEscapes) (cs : List Char) :
    readEscape (letter :: cs) = .ok (c, cs) := by
  simp only [shortEscapes, List.mem_cons, Prod.mk.injEq, List.not_mem_nil, or_false] at h
  rcases h with ⟨rfl, rfl⟩ | ⟨rfl, rfl⟩ | ⟨rfl, rfl⟩ | ⟨rfl, rfl⟩ | ⟨rfl, rfl⟩ | ⟨rfl, rfl⟩ |
    ⟨rfl, rfl⟩ | ⟨rfl, rfl⟩ <;> rfl

/-- A code unit is read as a code point, or with the next one as a pair. -/
theorem toOption_readEscape_unit {a b c d : Char} {n : Nat} (h : hexQuad? a b c d = some n)
    (cs : List Char) :
    (readEscape ('u' :: a :: b :: c :: d :: cs)).toOption =
      if isTrail n then none
      else if isLead n then (readTrail n cs).toOption
      else some (Char.ofNat n, cs) := by
  change (readCodePoint (a :: b :: c :: d :: cs)).toOption = _
  rw [readCodePoint, toOption_bind, readQuad_of_hexQuad? h]
  simp only [isTrail, isLead, Bool.and_eq_true, decide_eq_true_eq]
  change (ite _ _ _ : Except ReadError (Char × List Char)).toOption = _
  split_ifs <;> rfl

theorem toOption_readTrail_unit {n : Nat} {text : List Char} (h : (Piece.unit n).Spelled text)
    (lead : Nat) (cs : List Char) :
    (readTrail lead (text ++ cs)).toOption =
      if isTrail n then some (pairChar lead n, cs) else none := by
  cases h with
  | unit h =>
    change (readTrail lead ('\\' :: 'u' :: _ :: _ :: _ :: _ :: cs)).toOption = _
    rw [readTrail, toOption_bind, readQuad_of_hexQuad? h]
    simp only [isTrail, Bool.and_eq_true, decide_eq_true_eq]
    change (ite _ _ _ : Except ReadError (Char × List Char)).toOption = _
    split_ifs <;> rfl

theorem readTrail_of_ne {c : Char} (h : c ≠ '\\') (lead : Nat) (cs : List Char) :
    readTrail lead (c :: cs) = .error .surrogateUnended := by
  unfold readTrail
  split <;> simp_all

theorem readTrail_escape_of_ne {letter : Char} (h : letter ≠ 'u') (lead : Nat) (cs : List Char) :
    readTrail lead ('\\' :: letter :: cs) = .error .surrogateUnended := by
  unfold readTrail
  split <;> simp_all

/-- What follows the first half of a pair and is no code unit is no second half. -/
theorem toOption_readTrail_of_ne_unit {ps : List Piece} {text : List Char}
    (h : SpelledPieces ps text) (hne : ∀ m ps', ps = .unit m :: ps' → False) (lead : Nat)
    (rest : List Char) : (readTrail lead (text ++ '"' :: rest)).toOption = none := by
  cases h with
  | nil => rfl
  | cons hp hmore =>
    cases hp with
    | plain _ _ hback => exact congrArg Except.toOption (readTrail_of_ne hback lead _)
    | short h =>
      exact congrArg Except.toOption (readTrail_escape_of_ne (ne_u_of_mem_shortEscapes _ h) lead _)
    | unit h => exact absurd rfl (hne _ _)

/-! ## §2 Whole strings -/

theorem readString_quote (cs : List Char) : readString ('"' :: cs) = .ok ([], cs) := by
  rw [readString]

theorem toOption_readString_escape (cs : List Char) :
    (readString ('\\' :: cs)).toOption = (readEscape cs).toOption.bind fun p =>
      (readString p.2).toOption.map fun q => (p.1 :: q.1, q.2) := by
  rw [readString]
  split
  · next h => rw [h]; rfl
  · next c rest h =>
    rw [h]
    change _ = (readString rest).toOption.map _
    cases readString rest <;> rfl

theorem toOption_readString_plain {c : Char} (hprint : 0x20 ≤ c.toNat) (hquote : c ≠ '"')
    (hback : c ≠ '\\') (cs : List Char) :
    (readString (c :: cs)).toOption =
      (readString cs).toOption.map fun q => (c :: q.1, q.2) := by
  rw [readString, if_neg (Nat.not_lt.mpr hprint)]
  · cases readString cs <;> rfl
  · exact hquote
  · exact hback

/-- A character is read as itself, whichever way it is spelled. -/
theorem toOption_readString_char {c : Char} {text : List Char} (h : (Piece.char c).Spelled text)
    (cs : List Char) :
    (readString (text ++ cs)).toOption = (readString cs).toOption.map fun q => (c :: q.1, q.2) := by
  cases h with
  | plain hprint hquote hback => exact toOption_readString_plain hprint hquote hback cs
  | short h =>
    rw [List.cons_append, toOption_readString_escape, List.cons_append, readEscape_short h]
    rfl

theorem toOption_readString_unit {n : Nat} {text : List Char} (h : (Piece.unit n).Spelled text)
    (cs : List Char) :
    (readString (text ++ cs)).toOption =
      (if isTrail n then none
        else if isLead n then (readTrail n cs).toOption
        else some (Char.ofNat n, cs)).bind fun p =>
          (readString p.2).toOption.map fun q => (p.1 :: q.1, q.2) := by
  cases h with
  | unit h =>
    rw [List.cons_append, toOption_readString_escape]
    exact congrArg (Option.bind · _) (toOption_readEscape_unit h cs)

/-- A string is read as what its pieces stand for. -/
theorem toOption_readString {ps : List Piece} {text : List Char} (h : SpelledPieces ps text)
    (rest : List Char) :
    (readString (text ++ '"' :: rest)).toOption = (decode ps).map (·, rest) := by
  fun_induction decode ps generalizing text with
  | case1 =>
    cases h
    rw [List.nil_append, readString_quote]
    rfl
  | case2 c ps ih =>
    obtain _ | ⟨hp, hmore⟩ := h
    rw [List.append_assoc, toOption_readString_char hp, ih hmore]
    simp only [Option.map_map, Function.comp_def]
  | case3 n ps htrail =>
    -- a second half without a first one
    obtain _ | ⟨hp, hmore⟩ := h
    rw [List.append_assoc, toOption_readString_unit hp, if_pos htrail]
    rfl
  | case4 n htrail hlead m ps hpair ih =>
    obtain _ | ⟨hp, _ | ⟨hq, hmore⟩⟩ := h
    rw [List.append_assoc, toOption_readString_unit hp, if_neg htrail, if_pos hlead,
      List.append_assoc, toOption_readTrail_unit hq, if_pos hpair, Option.bind_some, ih hmore]
    simp only [Option.map_map, Function.comp_def]
  | case5 n htrail hlead m ps hpair =>
    -- a first half before a code unit that is no second one
    obtain _ | ⟨hp, _ | ⟨hq, hmore⟩⟩ := h
    rw [List.append_assoc, toOption_readString_unit hp, if_neg htrail, if_pos hlead,
      List.append_assoc, toOption_readTrail_unit hq, if_neg hpair]
    rfl
  | case6 n ps htrail hlead hne =>
    -- a first half before a character or the closing quote
    obtain _ | ⟨hp, hmore⟩ := h
    rw [List.append_assoc, toOption_readString_unit hp, if_neg htrail, if_pos hlead,
      toOption_readTrail_of_ne_unit hmore hne]
    rfl
  | case7 n ps htrail hlead ih =>
    obtain _ | ⟨hp, hmore⟩ := h
    rw [List.append_assoc, toOption_readString_unit hp, if_neg htrail, if_neg hlead,
      Option.bind_some, ih hmore]
    simp only [Option.map_map, Function.comp_def]

/-- A literal is read as its string. -/
theorem toOption_readString_literal {s : Option String} {cs : List Char}
    (h : Literal s ('"' :: cs)) (rest : List Char) :
    ((readString (cs ++ rest)).toOption.map fun p => (String.ofList p.1, p.2)) =
      s.map (·, rest) := by
  generalize ht : '"' :: cs = text at h
  obtain ⟨h⟩ := h
  obtain ⟨-, rfl⟩ := List.cons.inj ht
  rw [List.append_assoc, List.singleton_append, toOption_readString h]
  simp only [Option.map_map, Function.comp_def]

end UnitLexer.Json
