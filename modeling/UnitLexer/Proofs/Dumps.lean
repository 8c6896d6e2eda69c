/-
UnitLexer.Proofs.Dumps — a dump loses nothing.

Both forms of a dump tell all tokens: no two token streams are dumped alike
(`dumpTokens_inj`), and since the texts of the tokens are the source, no two
sources are (`dumpSource_lossless`). On lines this rests on the separators: what
stands before each of them cannot contain it, and the quoted text at the end of
an entry ends with its quote. In JSON it is the grammar that says one thing of a
text only.

An entry stays on its line whatever its token contains, so a dump has as many
lines as there are tokens.
-/
import UnitLexer.Dump
import UnitLexer.Proofs.Highlighting
import UnitLexer.Proofs.JsonUnambiguous
import UnitLexer.Proofs.QuotedText

namespace UnitLexer

/-! ## §1 Entries -/

/-- A token on its line, without the line break. -/
def Token.entry (t : Token) : String :=
  t.kind.scope ++ " " ++ t.span.text ++ " " ++ Text.quoted t.text

theorem Token.line_eq (t : Token) : t.line = t.entry ++ "\n" :=
  rfl

theorem Kind.scope_chars (k : Kind) : ' ' ∉ k.scope.toList ∧ '\n' ∉ k.scope.toList := by
  have hall : ∀ k ∈ Kind.all, ' ' ∉ k.scope.toList ∧ '\n' ∉ k.scope.toList := by decide
  exact hall k k.mem_all

theorem notMem_toDigits {c : Char} (h : c.isDigit = false) (n : Nat) : c ∉ Nat.toDigits 10 n := by
  intro hc
  rw [Nat.isDigit_of_mem_toDigits (by decide) (by decide) hc] at h
  contradiction

/-- The parts of an entry and their separators. -/
theorem Token.toList_entry (t : Token) :
    t.entry.toList = t.kind.scope.toList ++ ' ' :: (Nat.toDigits 10 t.start ++ '.' :: '.' ::
      (Nat.toDigits 10 t.stop ++ ' ' :: (Text.quoted t.text).toList)) := by
  simp [entry, Span.text, span, Nat.toString_eq_repr, Nat.toList_repr]

/-- An entry stays on its line. -/
theorem Token.newline_notMem_entry (t : Token) : '\n' ∉ t.entry.toList := by
  have hscope := t.kind.scope_chars.2
  have hstart := notMem_toDigits (c := '\n') rfl t.start
  have hstop := notMem_toDigits (c := '\n') rfl t.stop
  have hquoted := Text.newline_notMem_quoted t.text
  simp [toList_entry, hscope, hstart, hstop, hquoted]

/-- The start of a text is the line of one token. -/
theorem Token.line_append_inj {t t' : Token} {rest rest' : List Char}
    (h : t.line.toList ++ rest = t'.line.toList ++ rest') : t = t' ∧ rest = rest' := by
  simp only [line_eq, String.toList_append, toList_entry, List.append_assoc, List.cons_append] at h
  obtain ⟨hscope, hstart⟩ := append_separator_inj t.kind.scope_chars.1 t'.kind.scope_chars.1 h
  obtain ⟨hstart, hpoint⟩ :=
    append_separator_inj (notMem_toDigits rfl _) (notMem_toDigits rfl _) hstart
  obtain ⟨-, hquoted⟩ := append_separator_inj (notMem_toDigits rfl _) (notMem_toDigits rfl _)
    (List.cons.inj hpoint).2
  obtain ⟨htext, hrest⟩ := Text.quoted_append_inj hquoted
  obtain ⟨kind, text, start⟩ := t
  obtain ⟨kind', text', start'⟩ := t'
  obtain rfl : kind = kind' := Kind.scope_inj (String.toList_inj.mp hscope)
  obtain rfl : start = start' := toDigits_inj (by decide) (by decide) hstart
  obtain rfl : text = text' := htext
  exact ⟨rfl, List.append_cancel_left hrest⟩

/-! ## §2 Dumps -/

/-- There are as many lines as tokens. -/
theorem count_newline_lines (tokens : List Token) :
    (String.join (tokens.map Token.line)).toList.count '\n' = tokens.length := by
  induction tokens with
  | nil => rfl
  | cons t tokens ih =>
    have hentry : t.entry.toList.count '\n' = 0 := List.count_eq_zero.mpr t.newline_notMem_entry
    rw [List.map_cons, String.join_cons, String.toList_append, List.count_append, ih, Token.line_eq,
      String.toList_append, List.count_append, hentry, List.length_cons, Nat.add_comm]
    rfl

/-- No two token streams make the same lines. -/
theorem lines_inj {tokens tokens' : List Token}
    (h : String.join (tokens.map Token.line) = String.join (tokens'.map Token.line)) :
    tokens = tokens' := by
  have hlength : tokens.length = tokens'.length := by
    rw [← count_newline_lines, h, count_newline_lines]
  induction tokens generalizing tokens' with
  | nil => exact (List.eq_nil_of_length_eq_zero hlength.symm).symm
  | cons t tokens ih =>
    cases tokens' with
    | nil => contradiction
    | cons t' tokens' =>
      rw [List.map_cons, List.map_cons, String.join_cons, String.join_cons, ← String.toList_inj,
        String.toList_append, String.toList_append] at h
      obtain ⟨rfl, hmore⟩ := Token.line_append_inj h
      rw [ih (String.toList_inj.mp hmore) (Nat.succ.inj hlength)]

theorem Token.toJson_inj {t t' : Token} (h : t.toJson = t'.toJson) : t = t' := by
  obtain ⟨kind, text, start⟩ := t
  obtain ⟨kind', text', start'⟩ := t'
  simp only [toJson, Json.object.injEq, List.cons.injEq, Prod.mk.injEq, Json.string.injEq,
    Json.number.injEq, true_and, and_true] at h
  obtain ⟨hscope, rfl, rfl, -⟩ := h
  rw [Kind.scope_inj hscope]

/-- No two token streams are dumped alike. -/
theorem dumpTokens_inj {format : DumpFormat} {tokens tokens' : List Token}
    (h : dumpTokens format tokens = dumpTokens format tokens') : tokens = tokens' := by
  cases format with
  | lines => exact lines_inj h
  | json =>
    have hpretty : (Json.array (tokens.map Token.toJson)).pretty =
        (Json.array (tokens'.map Token.toJson)).pretty := by
      simpa [dumpTokens] using h
    exact List.map_injective_iff.mpr (fun _ _ => Token.toJson_inj)
      (Json.array.inj (Json.pretty_inj hpretty))

/-- No two sources are dumped alike, whatever the tables, and no two token streams:
neither form of a dump loses anything. On lines there is an entry for each token,
in order, and no line break but the one behind each entry, whatever the source
contains. -/
theorem dumpSource_lossless (ts ts' : Tables) (source source' : String) :
    (∀ format, dumpSource ts format source = dumpSource ts' format source' →
      tokenize ts source = tokenize ts' source' ∧ source = source') ∧
    dumpSource ts .lines source =
      String.join ((tokenize ts source).map fun t => t.entry ++ "\n") ∧
    (∀ t ∈ tokenize ts source, '\n' ∉ t.entry.toList) ∧
    (dumpSource ts .lines source).toList.count '\n' = (tokenize ts source).length := by
  refine ⟨fun format h => ?_, rfl, fun t _ => t.newline_notMem_entry, count_newline_lines _⟩
  have htokens : tokenize ts source = tokenize ts' source' := dumpTokens_inj h
  refine ⟨htokens, ?_⟩
  rw [← join_text_tokenize ts source, htokens, join_text_tokenize]

/-- A name and a line break, with keywords and without. -/
theorem line_break_dumped :
    dumpSource .standard .lines "x\n" =
      dumpSource { Tables.standard with keywords := [] } .lines "x\n" ∧
    tokenize .standard "x\n" = tokenize { Tables.standard with keywords := [] } "x\n" := by
  have hdump : dumpSource .standard .lines "x\n" =
      dumpSource { Tables.standard with keywords := [] } .lines "x\n" := by
    rfl
  exact ⟨hdump, ((dumpSource_lossless _ _ _ _).1 .lines hdump).1⟩

end UnitLexer
