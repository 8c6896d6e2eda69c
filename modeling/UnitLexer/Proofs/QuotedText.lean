/-
UnitLexer.Proofs.QuotedText — quoted texts are told apart and stay on their line.

What stands for a character between quotes has one of three forms (`Shown`): the
character itself, a letter behind a backslash, or its code point in braces. No
two characters are shown alike even where text follows, so the start of a text
is one quoted text (`quoted_append_inj`), and no form has a line break in it
(`newline_notMem_quoted`).
-/
import UnitLexer.Proofs.NumberGrammar
import UnitLexer.Text.Quoted

namespace UnitLexer

/-- A text is cut at its first separator in one way. -/
theorem append_separator_inj {separator : Char} {u u' rest rest' : List Char}
    (h : separator ∉ u) (h' : separator ∉ u')
    (heq : u ++ separator :: rest = u' ++ separator :: rest') : u = u' ∧ rest = rest' := by
  have hcut (v tail : List Char) (hv : separator ∉ v) :
      (v ++ separator :: tail).takeWhile (· != separator) = v := by
    refine takeWhile_append_of_all (fun c hc => ?_) (by simp)
    rw [bne_iff_ne]
    rintro rfl
    exact hv hc
  have hu := hcut u rest h
  rw [heq, hcut u' rest' h'] at hu
  subst hu
  exact ⟨rfl, (List.cons.inj (List.append_cancel_left heq)).2⟩

namespace Text

/-! ## §1 Characters -/

/-- The escapes of a single letter, with what they stand for. -/
def letterEscapes : List (Char × Char) :=
  [('0', '\x00'), ('t', '\t'), ('r', '\r'), ('n', '\n'), ('"', '"'), ('\\', '\\')]

/-- What can stand for a character between quotes. -/
inductive Shown : Char → List Char → Prop where
  | plain {c : Char} (hquote : c ≠ '"') (hback : c ≠ '\\') (hbreak : c ≠ '\n') : Shown c [c]
  | letter {l c : Char} (h : (l, c) ∈ letterEscapes) : Shown c ['\\', l]
  | code (c : Char) : Shown c ('\\' :: 'u' :: '{' :: (hexDigits c ++ ['}']))

theorem shown_quotedChar (c : Char) : Shown c (quotedChar c) := by
  unfold quotedChar
  split_ifs with hnul htab hreturn hbreak hquote hback hhidden
  case pos | pos | pos | pos | pos | pos =>
    subst_vars
    exact .letter (by decide)
  case pos => exact .code c
  case neg => exact .plain hquote hback hbreak

theorem letterEscapes_unique : ∀ e ∈ letterEscapes, ∀ e' ∈ letterEscapes,
    e.1 = e'.1 → e.2 = e'.2 := by
  decide

theorem ne_of_mem_letterEscapes : ∀ e ∈ letterEscapes, e.1 ≠ 'u' ∧ e.1 ≠ '\n' := by
  decide

theorem notMem_hexDigits {c d : Char} (h : ∀ n, Nat.digitChar n ≠ d) : d ∉ hexDigits c := by
  intro hd
  obtain ⟨n, rfl⟩ := exists_digitChar_of_mem_toDigits (by decide) hd
  exact h n rfl

theorem hexDigits_inj {c c' : Char} (h : hexDigits c = hexDigits c') : c = c' :=
  Char.toNat_inj.mp (toDigits_inj (by decide) (by decide) h)

/-- The start of a text shows one character. -/
theorem Shown.unique {c c' : Char} {text text' rest rest' : List Char} (h : Shown c text)
    (h' : Shown c' text') (heq : text ++ rest = text' ++ rest') : c = c' ∧ rest = rest' := by
  cases h with
  | plain _ hback =>
    cases h' with
    | plain => simpa using heq
    | letter | code => exact absurd (List.cons.inj heq).1 hback
  | letter h =>
    cases h' with
    | plain _ hback' => exact absurd (List.cons.inj heq).1.symm hback'
    | letter h' =>
      obtain ⟨hletter, hrest⟩ := List.cons.inj (List.cons.inj heq).2
      exact ⟨letterEscapes_unique _ h _ h' hletter, hrest⟩
    | code => exact absurd (List.cons.inj (List.cons.inj heq).2).1 (ne_of_mem_letterEscapes _ h).1
  | code =>
    cases h' with
    | plain _ hback' => exact absurd (List.cons.inj heq).1.symm hback'
    | letter h' =>
      exact absurd (List.cons.inj (List.cons.inj heq).2).1.symm (ne_of_mem_letterEscapes _ h').1
    | code =>
      have hbrace (c : Char) : '}' ∉ hexDigits c := notMem_hexDigits fun n => Nat.digitChar_ne _ rfl
      simp only [List.cons_append, List.append_assoc, List.nil_append, List.cons.injEq,
        true_and] at heq
      obtain ⟨hdigits, hrest⟩ := append_separator_inj (hbrace _) (hbrace _) heq
      exact ⟨hexDigits_inj hdigits, hrest⟩

/-- No character is shown by the closing quote. -/
theorem Shown.ne_quote {c : Char} {text rest rest' : List Char} (h : Shown c text) :
    text ++ rest ≠ '"' :: rest' := by
  cases h with
  | plain hquote => simp [hquote]
  | letter | code => simp

theorem Shown.newline_notMem {c : Char} {text : List Char} (h : Shown c text) : '\n' ∉ text := by
  cases h with
  | plain _ _ hbreak => simpa using hbreak.symm
  | letter h => simpa using (ne_of_mem_letterEscapes _ h).2.symm
  | code =>
    have hdigits : '\n' ∉ hexDigits c := notMem_hexDigits fun n => Nat.digitChar_ne _ rfl
    simpa using hdigits

/-! ## §2 Texts -/

theorem toList_quoted (s : String) :
    (quoted s).toList = '"' :: (s.toList.flatMap quotedChar ++ ['"']) := by
  simp [quoted]

theorem flatMap_quotedChar_append_inj {cs cs' rest rest' : List Char}
    (h : cs.flatMap quotedChar ++ '"' :: rest = cs'.flatMap quotedChar ++ '"' :: rest') :
    cs = cs' ∧ rest = rest' := by
  induction cs generalizing cs' with
  | nil =>
    cases cs' with
    | nil => simpa using h
    | cons c' cs' =>
      rw [List.flatMap_cons, List.append_assoc] at h
      exact absurd h.symm (shown_quotedChar c').ne_quote
  | cons c cs ih =>
    cases cs' with
    | nil =>
      rw [List.flatMap_cons, List.append_assoc] at h
      exact absurd h (shown_quotedChar c).ne_quote
    | cons c' cs' =>
      rw [List.flatMap_cons, List.flatMap_cons, List.append_assoc, List.append_assoc] at h
      obtain ⟨rfl, hmore⟩ := (shown_quotedChar c).unique (shown_quotedChar c') h
      obtain ⟨rfl, hrest⟩ := ih hmore
      exact ⟨rfl, hrest⟩

/-- The start of a text is one quoted text. -/
theorem quoted_append_inj {s s' : String} {rest rest' : List Char}
    (h : (quoted s).toList ++ rest = (quoted s').toList ++ rest') : s = s' ∧ rest = rest' := by
  simp only [toList_quoted, List.cons_append, List.append_assoc, List.nil_append, List.cons.injEq,
    true_and] at h
  obtain ⟨hchars, hrest⟩ := flatMap_quotedChar_append_inj h
  exact ⟨String.toList_inj.mp hchars, hrest⟩

/-- A quoted text stays on its line, whatever is quoted. -/
theorem newline_notMem_quoted (s : String) : '\n' ∉ (quoted s).toList := by
  simp only [toList_quoted, List.mem_cons, List.mem_append, List.mem_flatMap, not_or]
  refine ⟨by decide, ?_, by decide, by simp⟩
  rintro ⟨c, -, hc⟩
  exact (shown_quotedChar c).newline_notMem hc

end Text

end UnitLexer
