/-
UnitLexer.Proofs.Highlighting — colours leave the text alone.

What a terminal makes of a coloured source has two sides. Its text is what is
left without the escape sequences, which run from an escape character to the
next `m`. Its colours are what the parameters of those sequences select. Both
sides are defined here apart from the code that writes the sequences, and a
coloured source is then a segment for each token: its text in a sequence that
selects the style of its kind, and one that resets it (`highlightSource_segments`).

The letters and digits of a source cannot be mistaken for those of a sequence:
a sequence has ended before the text of its token starts, and as long as the
source has no escape character of its own, no token starts another.
-/
import Mathlib.Data.List.Forall2
import UnitLexer.Highlight
import UnitLexer.Proofs.Coverage

namespace UnitLexer

/-! ## §1 Text without escape sequences -/

/-- The text without its escape sequences, from inside of one or not. A sequence
that no `m` ends goes on to the end of the text. -/
def dropSequences : Bool → List Char → List Char
  | _, [] => []
  | true, c :: cs => dropSequences (c != 'm') cs
  | false, c :: cs => if c = '\x1b' then dropSequences true cs else c :: dropSequences false cs

/-- What is to be read of a text with escape sequences. -/
def withoutSequences (text : String) : String :=
  String.ofList (dropSequences false text.toList)

section

variable {text rest : List Char}

theorem dropSequences_append (h : '\x1b' ∉ text) :
    dropSequences false (text ++ rest) = text ++ dropSequences false rest := by
  induction text with
  | nil => rfl
  | cons c text ih =>
    simp only [List.mem_cons, not_or] at h
    simp [dropSequences, Ne.symm h.1, ih h.2]

/-- A sequence is dropped up to its first `m`. -/
theorem dropSequences_inside (h : 'm' ∉ text) :
    dropSequences true (text ++ 'm' :: rest) = dropSequences false rest := by
  induction text with
  | nil => rfl
  | cons c text ih =>
    simp only [List.mem_cons, not_or] at h
    have hc : (c != 'm') = true := by simpa using Ne.symm h.1
    rw [List.cons_append, dropSequences, hc, ih h.2]

end

theorem withoutSequences_eq_self {text : String} (h : '\x1b' ∉ text.toList) :
    withoutSequences text = text := by
  have hdrop : dropSequences false (text.toList ++ []) = text.toList ++ dropSequences false [] :=
    dropSequences_append h
  rw [List.append_nil, dropSequences, List.append_nil] at hdrop
  rw [withoutSequences, hdrop, String.ofList_toList]

/-! ## §2 What sequences select -/

/-- The sequence with these parameters. -/
def selecting (parameters : List Nat) : String :=
  "\x1b[" ++ ";".intercalate (parameters.map toString) ++ "m"

/-- The style that parameters select where another one has been selected: `0` is
the plain style, and what is not known here changes nothing. -/
def Style.select : Style → List Nat → Style
  | s, [] => s
  | _, 0 :: ps => select {} ps
  | s, 1 :: ps => select s.inBold ps
  | s, 3 :: ps => select s.inItalic ps
  | s, 38 :: 2 :: red :: green :: blue :: ps =>
    select { s with foreground := some ⟨.ofNat red, .ofNat green, .ofNat blue⟩ } ps
  | s, _ :: ps => select s ps

theorem notMem_intercalate {c : Char} {sep : List Char} {texts : List (List Char)}
    (hsep : c ∉ sep) (htexts : ∀ text ∈ texts, c ∉ text) : c ∉ sep.intercalate texts := by
  induction texts with
  | nil => simp [List.intercalate]
  | cons text texts ih =>
    have htext := htexts text List.mem_cons_self
    have hmore := ih fun text' h => htexts text' (List.mem_cons_of_mem text h)
    cases texts with
    | nil => simpa [List.intercalate] using htext
    | cons text' texts =>
      simp only [List.intercalate_cons_cons, List.mem_append, not_or]
      exact ⟨⟨htext, hsep⟩, hmore⟩

/-- A sequence ends with its first `m`, whatever its parameters are. -/
theorem dropSequences_selecting (parameters : List Nat) (rest : List Char) :
    dropSequences false ((selecting parameters).toList ++ rest) = dropSequences false rest := by
  have hdigits : ∀ text ∈ (parameters.map toString).map String.toList, 'm' ∉ text := by
    simp only [List.map_map, List.mem_map, Function.comp_apply, forall_exists_index, and_imp,
      forall_apply_eq_imp_iff₂]
    intro n _ hm
    rw [Nat.toString_eq_repr, Nat.toList_repr] at hm
    exact absurd (Nat.isDigit_of_mem_toDigits (by decide) (by decide) hm) (by decide)
  have hbody : 'm' ∉ '[' :: (";".intercalate (parameters.map toString)).toList := by
    rw [String.toList_intercalate, List.mem_cons, not_or]
    exact ⟨by decide, notMem_intercalate (by decide) hdigits⟩
  have htext : (selecting parameters).toList ++ rest =
      '\x1b' :: (('[' :: (";".intercalate (parameters.map toString)).toList) ++ 'm' :: rest) := by
    simp [selecting]
  rw [htext, dropSequences, if_pos rfl, dropSequences_inside hbody]

/-! ## §3 Segments -/

namespace Style

/-- The parameters of a style as numbers. -/
def codes (s : Style) : List Nat :=
  (if s.bold then [1] else []) ++ (if s.italic then [3] else []) ++
    match s.foreground with
    | some c => [38, 2, c.red.toNat, c.green.toNat, c.blue.toNat]
    | none => []

theorem select_codes (s : Style) : select {} s.codes = s := by
  obtain ⟨foreground, bold, italic⟩ := s
  cases foreground <;> cases bold <;> cases italic <;> simp [codes, select, inBold, inItalic]

theorem intercalate_parameters (s : Style) :
    ";".intercalate s.parameters = ";".intercalate (s.codes.map toString) := by
  have hnumerals : Nat.repr 1 = "1" ∧ Nat.repr 2 = "2" ∧ Nat.repr 3 = "3" ∧
      Nat.repr 38 = "38" := by decide
  obtain ⟨foreground, bold, italic⟩ := s
  rw [← String.toList_inj]
  cases foreground <;> cases bold <;> cases italic <;> simp [codes, parameters, hnumerals]

theorem sequence?_eq_some (s : Style) (h : s.isPlain = false) :
    s.sequence? = some (selecting s.codes) := by
  rw [sequence?, if_neg (by simp [h]), intercalate_parameters, selecting]

end Style

/-- The text in a style: as it is in the plain style, and else between a sequence
that selects the style and one that resets it. -/
inductive Segment (s : Style) (text : String) : String → Prop where
  | plain (h : s.isPlain = true) : Segment s text text
  | styled (h : s.isPlain = false) (parameters : List Nat)
      (hselect : Style.select {} parameters = s) :
      Segment s text (selecting parameters ++ text ++ selecting [0])

theorem segment_paint (s : Style) (text : String) : Segment s text (s.paint text) := by
  cases h : s.isPlain with
  | true =>
    have hpaint : s.paint text = text := by simp [Style.paint, Style.sequence?, h]
    rw [hpaint]
    exact .plain h
  | false =>
    have hreset : resetSequence = selecting [0] := by decide
    simp only [Style.paint, s.sequence?_eq_some h, hreset]
    exact .styled h s.codes s.select_codes

/-- A segment shows its text and nothing else. -/
theorem Segment.dropSequences {s : Style} {text segment : String} (h : Segment s text segment)
    (hfree : '\x1b' ∉ text.toList) (rest : List Char) :
    dropSequences false (segment.toList ++ rest) = text.toList ++ dropSequences false rest := by
  cases h with
  | plain => exact dropSequences_append hfree
  | styled _ parameters =>
    rw [String.toList_append, String.toList_append, List.append_assoc, List.append_assoc,
      dropSequences_selecting, dropSequences_append hfree, dropSequences_selecting]

theorem dropSequences_join {tokens : List Token} {segments : List String} {style : Kind → Style}
    (h : List.Forall₂ (fun t segment => Segment (style t.kind) t.text segment) tokens segments)
    (hfree : ∀ t ∈ tokens, '\x1b' ∉ t.text.toList) :
    dropSequences false (String.join segments).toList =
      (String.join (tokens.map Token.text)).toList := by
  induction h with
  | nil => rfl
  | @cons t segment tokens segments hsegment _ ih =>
    have hmore := ih fun t' ht' => hfree t' (List.mem_cons_of_mem t ht')
    rw [String.join_cons, String.toList_append,
      hsegment.dropSequences (hfree t List.mem_cons_self), hmore, List.map_cons, String.join_cons,
      String.toList_append]

/-! ## §4 Coloured sources -/

/-- The texts of the tokens are the source. -/
theorem join_text_tokenize (ts : Tables) (source : String) :
    String.join ((tokenize ts source).map Token.text) = source := by
  obtain ⟨ls, frames, hrun, htok, -⟩ := exists_reads_source ts source
  rw [htok, join_place, ← List.append_nil (textOf ls), ← hrun.text_eq, String.ofList_toList]

/-- A text holds what a text put together from it holds. -/
theorem notMem_of_notMem_join {c : Char} {texts : List String}
    (h : c ∉ (String.join texts).toList) : ∀ text ∈ texts, c ∉ text.toList := by
  rw [String.toList_join, List.mem_flatMap] at h
  exact fun text htext hc => h ⟨text, htext, hc⟩

/-- A coloured source is a segment for each token, in order, and a source without
an escape character of its own is all that is to be read of it, with colours or
without. -/
theorem highlightSource_segments (ts : Tables) (theme : Theme) (source : String) :
    (∃ segments, highlightSource ts theme true source = String.join segments ∧
      List.Forall₂ (fun t segment => Segment (theme.style t.kind) t.text segment)
        (tokenize ts source) segments) ∧
    ('\x1b' ∉ source.toList → ∀ colours,
      withoutSequences (highlightSource ts theme colours source) = source) := by
  have hsegments : List.Forall₂ (fun t segment => Segment (theme.style t.kind) t.text segment)
      (tokenize ts source)
      ((tokenize ts source).map fun t => (theme.style t.kind).paint t.text) := by
    rw [List.forall₂_map_right_iff, List.forall₂_same]
    exact fun t _ => segment_paint _ t.text
  refine ⟨⟨_, rfl, hsegments⟩, fun hfree colours => ?_⟩
  cases colours with
  | false => exact withoutSequences_eq_self hfree
  | true =>
    have htexts : ∀ t ∈ tokenize ts source, '\x1b' ∉ t.text.toList := by
      intro t ht
      rw [← join_text_tokenize ts source] at hfree
      exact notMem_of_notMem_join hfree t.text (List.mem_map_of_mem ht)
    have hdrop := dropSequences_join hsegments htexts
    rw [join_text_tokenize] at hdrop
    rw [highlightSource, if_pos rfl, Theme.render, withoutSequences, hdrop, String.ofList_toList]

/-- Five metres in the dark theme. -/
theorem metres_highlighted :
    '\x1b' ∉ "5 m".toList ∧
    withoutSequences (highlightSource .standard .dark true "5 m") = "5 m" := by
  have hfree : '\x1b' ∉ "5 m".toList := by decide
  exact ⟨hfree, (highlightSource_segments .standard .dark "5 m").2 hfree true⟩

end UnitLexer
