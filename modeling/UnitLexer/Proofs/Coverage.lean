/-
UnitLexer.Proofs.Coverage — the tokens cover the source.

Offsets count bytes while rules look at characters. `IsBoundary` is where the
two meet: an offset with whole characters on both sides, where a source can be
cut. A tiling (`Tiles`) is then stated in bytes alone, and `tiles_place` gives
it for any lexemes that make up the start of the source. It holds at every
point of a lazy run, between the tokens of a step that reads several of them
too: what such a step has read but not yielded is kept.
-/
import UnitLexer.Proofs.Run

namespace UnitLexer

/-! ## §1 Cutting a source -/

/-- The source can be cut at the offset: no character lies across it. -/
def IsBoundary (source : String) (offset : Nat) : Prop :=
  String.Pos.Raw.IsValid source ⟨offset⟩

/-- A source can be cut behind any of its characters. -/
theorem isBoundary_byteLength {source : String} {before rest : List Char}
    (h : source.toList = before ++ rest) : IsBoundary source (byteLength before) := by
  refine String.Pos.Raw.isValid_iff_exists_append.mpr
    ⟨String.ofList before, String.ofList rest, ?_, rfl⟩
  rw [← String.ofList_append, ← h, String.ofList_toList]

/-- The bytes of a run of characters stand where the characters do. -/
theorem toByteArray_ofList {source : String} {before text rest : List Char}
    (h : source.toList = before ++ text ++ rest) :
    (String.ofList text).toByteArray =
      source.toByteArray.extract (byteLength before) (byteLength before + byteLength text) := by
  have hs : source = String.ofList before ++ String.ofList text ++ String.ofList rest := by
    rw [← String.ofList_append, ← String.ofList_append, ← h, String.ofList_toList]
  have bytes : source.toByteArray = (String.ofList before).toByteArray ++
      ((String.ofList text).toByteArray ++ (String.ofList rest).toByteArray) := by
    rw [hs, String.toByteArray_append, String.toByteArray_append, ByteArray.append_assoc]
  rw [bytes, ← Nat.add_zero (byteLength before), Nat.add_assoc, Nat.zero_add]
  exact ((ByteArray.extract_append_size_add' rfl).trans (ByteArray.extract_append_eq_left rfl)).symm

/-! ## §2 Tilings -/

/-- The tokens stand one behind the other, from one offset to another. -/
def Contiguous : Nat → List Token → Nat → Prop
  | start, [], stop => start = stop
  | start, t :: ts, stop => t.start = start ∧ Contiguous t.stop ts stop

/-- The tokens cover the source from its start to an offset, without gaps and
without overlaps: each is a piece of it that holds something, and all cuts
fall between characters. -/
structure Tiles (source : String) (tokens : List Token) (stop : Nat) : Prop where
  ne_empty : ∀ t ∈ tokens, t.text ≠ ""
  contiguous : Contiguous 0 tokens stop
  bytes_eq : ∀ t ∈ tokens,
    t.text.toByteArray = source.toByteArray.extract t.span.start t.span.stop
  boundary : ∀ t ∈ tokens, IsBoundary source t.span.start ∧ IsBoundary source t.span.stop
  boundary_stop : IsBoundary source stop

theorem stop_eq (k : Kind) (cs : List Char) (start : Nat) :
    Token.stop ⟨k, String.ofList cs, start⟩ = start + byteLength cs := rfl

theorem contiguous_place (start : Nat) (ls : List Lexeme) :
    Contiguous start (place start ls) (start + byteLength (textOf ls)) := by
  induction ls generalizing start with
  | nil => simp [Contiguous]
  | cons l ls ih =>
    refine ⟨rfl, ?_⟩
    rw [stop_eq, textOf_cons, byteLength_append, ← Nat.add_assoc]
    exact ih _

/-- Every placed lexeme has a place of its own: what lies before it and what lies
behind it make up the source with it. -/
theorem mem_place {start : Nat} {ls : List Lexeme} {t : Token} (h : t ∈ place start ls) :
    ∃ before l behind, ls = before ++ l :: behind ∧
      t = ⟨l.kind, String.ofList l.text, start + byteLength (textOf before)⟩ := by
  induction ls generalizing start with
  | nil => simp at h
  | cons l ls ih =>
    rcases List.mem_cons.mp h with rfl | h
    · exact ⟨[], l, ls, rfl, by simp⟩
    · obtain ⟨before, l', behind, rfl, rfl⟩ := ih h
      exact ⟨l :: before, l', behind, rfl, by simp [Nat.add_assoc]⟩

/-- Lexemes that make up the start of a source cover it. -/
theorem tiles_place {source : String} {ls : List Lexeme} {rest : List Char}
    (h : source.toList = textOf ls ++ rest) (hne : ∀ l ∈ ls, l.text ≠ []) :
    Tiles source (place 0 ls) (byteLength (textOf ls)) := by
  refine ⟨fun t ht => ?_, ?_, fun t ht => ?_, fun t ht => ?_, isBoundary_byteLength h⟩
  · obtain ⟨before, l, behind, rfl, rfl⟩ := mem_place ht
    have hl := hne l (by simp)
    simpa using hl
  · simpa using contiguous_place 0 ls
  · obtain ⟨before, l, behind, rfl, rfl⟩ := mem_place ht
    rw [textOf_append, textOf_cons, ← List.append_assoc, List.append_assoc] at h
    simpa only [Token.span, stop_eq, Nat.zero_add] using toByteArray_ofList h
  · obtain ⟨before, l, behind, rfl, rfl⟩ := mem_place ht
    rw [textOf_append, textOf_cons, ← List.append_assoc, List.append_assoc] at h
    simp only [Token.span, stop_eq, Nat.zero_add]
    refine ⟨isBoundary_byteLength (by rw [h, List.append_assoc]), ?_⟩
    rw [← byteLength_append]
    exact isBoundary_byteLength h

/-- The texts of placed lexemes, put together. -/
theorem join_place (start : Nat) (ls : List Lexeme) :
    String.join ((place start ls).map Token.text) = String.ofList (textOf ls) := by
  induction ls generalizing start with
  | nil => simp
  | cons l ls ih => simp [place, ih, String.ofList_append]

/-! ## §3 Coverage -/

/-- The pieces of a rule's answer end between characters, wherever in the source
the rule is tried. -/
theorem isBoundary_of_mem_rules {source : String} {before rest : List Char} {ts : Tables}
    {m : Mode} {r : Rule} {s : Step} {ls : List Lexeme} (h : source.toList = before ++ rest)
    (hr : r ∈ m.rules) (hs : r ts rest = some s) (hls : ls <+: s.lexemes) :
    IsBoundary source (byteLength before + byteLength (textOf ls)) := by
  obtain ⟨others, hothers⟩ := hls
  obtain ⟨behind, hbehind⟩ := (m.faithful_of_mem_rules r hr hs).text_isPrefix
  rw [Step.text, ← hothers, textOf_append, List.append_assoc] at hbehind
  rw [← hbehind, ← List.append_assoc] at h
  rw [← byteLength_append]
  exact isBoundary_byteLength h

/-- After any number of calls the tokens yielded and the tokens kept cover the
source up to where reading stands, and no rule of any mode, whether it is the
one that applies or not, answers there with a piece that ends inside a
character. A call without an answer comes, and from it on no call has one: the
whole source has been yielded. -/
theorem tiles_calls (ts : Tables) (source : String) (k : Nat) :
    let answers := ((Lexer.ofSource ts source).calls k).1
    let l := ((Lexer.ofSource ts source).calls k).2
    Tiles source (answers.filterMap id ++ l.pending) l.state.pos ∧
      (∀ (m : Mode), ∀ r ∈ m.rules, ∀ s, r ts l.rest = some s → ∀ ls, ls <+: s.lexemes →
        IsBoundary source (l.state.pos + byteLength (textOf ls))) ∧
      (none ∈ answers → l.state.pos = source.utf8ByteSize ∧
        String.join ((answers.filterMap id).map Token.text) = source ∧
        ∀ j, l.calls j = (List.replicate j none, l)) ∧
      (source.length < k → none ∈ answers) := by
  obtain ⟨ls, hls, htok⟩ := (Lexer.ofSource ts source).readsTo_calls k
  intro answers l
  have htext : source.toList = textOf ls ++ l.rest := hls.reads.text_eq
  have hpos : l.state.pos = byteLength (textOf ls) := hls.pos_eq.trans (Nat.zero_add _)
  have hplace : answers.filterMap id ++ l.pending = place 0 ls := htok
  refine ⟨?_, ?_, fun hnone => ?_, fun hk => ?_⟩
  · rw [hplace, hpos]
    exact tiles_place htext hls.reads.ne_nil
  · intro m r hr s hs ms hms
    rw [hpos]
    exact isBoundary_of_mem_rules htext hr hs hms
  · obtain ⟨hr, hp⟩ := Lexer.end_of_none_mem_calls hnone
    rw [show l.rest = [] from hr, List.append_nil] at htext
    rw [show l.pending = [] from hp, List.append_nil] at hplace
    refine ⟨?_, ?_, Lexer.calls_of_end hr hp⟩
    · rw [hpos, ← htext, byteLength_toList]
    · rw [hplace, join_place, ← htext, String.ofList_toList]
  · by_contra hnone
    have hle := Lexer.le_remaining_of_none_notMem_calls hnone
    simp only [Lexer.remaining, Lexer.ofSource, List.length_nil, Nat.add_zero,
      String.length_toList] at hle
    omega

end UnitLexer
