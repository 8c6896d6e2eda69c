/-
UnitLexer.Proofs.Lines — sources read line by line.

After a line break either nothing is open or a group of units is: every other
mode hands a line break back (`Reads.closed_of_endsLine`). If nothing is open,
what follows is read as a source of its own, and the line is read as if nothing
followed (`Reads.append_line`). Only two rules see past the break, and each has
a side condition: white space at the start of what follows would belong to the
run before it, and a name there to a `def` that ends the line.
-/
import UnitLexer.Proofs.LineEnds
import UnitLexer.Proofs.OpenModes

namespace UnitLexer

open Rule

/-! ## §1 What is open after a line -/

/-- The root is not among the modes opened above it. -/
theorem OpenFrames.root_notMem {frames : List Mode} (h : OpenFrames frames) : .root ∉ frames := by
  cases h <;> simp [unitFrames]

theorem OpenFrames.eq_nil_of_currentMode {frames : List Mode} (h : OpenFrames frames)
    (hm : currentMode frames = .root) : frames = [] := by
  cases frames with
  | nil => rfl
  | cons m below =>
    obtain rfl : m = .root := hm
    exact absurd List.mem_cons_self h.root_notMem

/-- The modes that span lines are the root and the groups. -/
theorem OpenFrames.of_spansLines {frames : List Mode} (h : OpenFrames frames)
    (hm : (currentMode frames).spansLines = true) :
    frames = [] ∨ ∃ below, frames = .unitGroup :: below := by
  cases h with
  | root => exact .inl rfl
  | string | expectUnit | expectUnitAfterSpace | exponent =>
    simp [currentMode, Mode.spansLines] at hm
  | unit n =>
    cases n with
    | zero => simp [currentMode, Mode.spansLines] at hm
    | succ n => exact .inr ⟨_, unitFrames_succ n⟩

/-- A mode that does not span lines always answers. -/
theorem Mode.step?_isSome {m : Mode} (h : m.spansLines = false) (ts : Tables) (cs : List Char) :
    (m.step? ts cs).isSome = true :=
  List.findSome?_isSome_iff.mpr ⟨handBack, handBack_mem_rules h, rfl⟩

/-- After a step that takes a line break last, nothing or a group is open. -/
theorem OpenFrames.advance_endsLine {ts : Tables} {c : Char} {cs : List Char}
    {frames : List Mode} (h : OpenFrames frames)
    (hends : EndsLine (textOf (UnitLexer.advance ts c cs frames).1)) :
    (UnitLexer.advance ts c cs frames).2 = [] ∨
      ∃ below, (UnitLexer.advance ts c cs frames).2 = .unitGroup :: below := by
  have hsettled : OpenFrames (UnitLexer.settle ts (c :: cs) frames) := h.settle
  rcases advance_cases ts c cs frames with ⟨s, hs, hne, hadv⟩ | ⟨hnone, hadv⟩
  · rw [hadv] at hends ⊢
    obtain ⟨hstay, hspans⟩ := Mode.stay_of_text_endsLine hs hends
    rw [hstay]
    exact hsettled.of_spansLines hspans
  · rw [hadv]
    cases hspans : (currentMode (UnitLexer.settle ts (c :: cs) frames)).spansLines with
    | true => exact hsettled.of_spansLines hspans
    | false =>
      obtain ⟨s, hs⟩ := Option.isSome_iff_exists.mp (Mode.step?_isSome hspans ts (c :: cs))
      have hnil := hnone s hs
      cases hset : UnitLexer.settle ts (c :: cs) frames with
      | nil => exact .inl rfl
      | cons m below =>
        rw [hset] at hs
        exact absurd hnil (text_ne_nil_of_settle hset hs)

/-- After a text that ends in a line break nothing is open, or else a group is. -/
theorem Reads.closed_of_endsLine {ts : Tables} {frames frames' : List Mode} {cs : List Char}
    {ls : List Lexeme} (h : Reads ts frames cs ls frames' []) (hf : OpenFrames frames)
    (hcs : EndsLine cs) : frames' = [] ∨ ∃ below, frames' = .unitGroup :: below := by
  generalize hend : ([] : List Char) = rest at h
  induction h with
  | done =>
    subst hend
    obtain ⟨line, hline⟩ := hcs
    simp at hline
  | @step frames mid _ c cs tail _ ls _ adv text later ih =>
    have hmid : OpenFrames (advance ts c cs frames).2 := hf.advance
    rw [adv] at hmid
    rw [text] at hcs
    cases tail with
    | cons d ds => exact ih hmid (hcs.of_append (List.cons_ne_nil d ds)) hend
    | nil =>
      rw [List.append_nil] at hcs
      have hclosed := hf.advance_endsLine (by rwa [adv])
      rw [adv] at hclosed
      cases later
      exact hclosed

/-! ## §2 The word `def` at the end of a line -/

/-- The last lexeme that is no white space. -/
def lastWord? (ls : List Lexeme) : Option (List Char) :=
  ((ls.filter fun l => l.kind ≠ .space).getLast?).map Lexeme.text

/-- The text of the last token that is no white space. -/
def lastText? (tokens : List Token) : Option String :=
  ((tokens.filter fun t => t.kind ≠ .space).getLast?).map Token.text

theorem lastText?_place (start : Nat) (ls : List Lexeme) :
    lastText? (place start ls) = (lastWord? ls).map String.ofList := by
  have htexts : ((place start ls).filter fun t => t.kind ≠ .space).map Token.text =
      (ls.filter fun l => l.kind ≠ .space).map fun l => String.ofList l.text := by
    induction ls generalizing start with
    | nil => rfl
    | cons l ls ih =>
      simp only [place, List.filter_cons]
      split <;> simp only [List.map_cons, ih]
  rw [lastText?, ← List.getLast?_map, htexts, List.getLast?_map, lastWord?, Option.map_map]
  rfl

/-- Lexemes in front matter only where white space follows. -/
theorem lastWord?_append {ls ms : List Lexeme} {w : List Char} (h : lastWord? ms = some w) :
    lastWord? (ls ++ ms) = some w := by
  obtain ⟨l, hl, rfl⟩ := Option.map_eq_some_iff.mp h
  rw [lastWord?, List.filter_append, List.getLast?_append, hl]
  rfl

section

variable {ts : Tables} {gap : List Char}

theorem stops_of_spaces {p : Char → Bool} (hgap : ∀ c ∈ gap, isSpace c = true)
    (hp : p ' ' = false ∧ p '\t' = false ∧ p '\r' = false ∧ p '\n' = false) : Stops p gap := by
  intro d hd
  rcases isSpace_iff.mp (hgap d (List.mem_of_mem_head? hd)) with rfl | rfl | rfl | rfl
  · exact hp.1
  · exact hp.2.1
  · exact hp.2.2.1
  · exact hp.2.2.2

theorem takeWhile_eq_self (hgap : ∀ c ∈ gap, isSpace c = true) : gap.takeWhile isSpace = gap := by
  simpa using takeWhile_append_of_all hgap (stops_nil isSpace)

/-- White space that ends a source is one lexeme. -/
theorem reads_spaces (hgap : ∀ c ∈ gap, isSpace c = true) (hne : gap ≠ []) :
    Reads ts [] gap [⟨.space, gap⟩] [] [] := by
  refine Reads.of_step? (s := .one .space gap .stay) ?_ (by simp) (by simpa using hne)
  have hname : leadingName gap = [] := leadingName_of_stops (stops_of_spaces hgap (by decide))
  have hunit : leadingUnitWord gap = [] :=
    leadingUnitWord_of_stops (stops_of_spaces hgap (by decide))
  have hcomment : comment ts gap = none := by
    refine comment_eq_none ?_
    rintro tail rfl
    exact absurd (hgap '#' List.mem_cons_self) (by decide)
  have hnumber : number ts gap = none := by
    simp [number, leadingNumber_of_stops (stops_of_spaces hgap (by decide)), Step.one?]
  have hdeclaration : declaration ts gap = none := by
    refine declaration_eq_none ?_
    rintro tail rfl
    exact absurd (hgap 'd' List.mem_cons_self) (by decide)
  have hcall : call ts gap = none := by simp [call, hname]
  have hword : word ts gap = none := by simp [word, hname, hunit, Step.one?]
  have hspaces : spaces ts gap = some (.one .space gap .stay) := by
    simp [spaces, run, takeWhile_eq_self hgap, Step.one?, hne]
  simp [currentMode, Mode.step?, Mode.rules, hcomment, hnumber, hdeclaration, hcall, hword, hspaces]

/-- The word `def` before white space is read as a word. -/
theorem step?_def (ts : Tables) (hgap : ∀ c ∈ gap, isSpace c = true) : ∃ k, k ≠ .space ∧
    Mode.step? .root ts ('d' :: 'e' :: 'f' :: gap) = some (.one k ['d', 'e', 'f'] .stay) := by
  have hname : leadingName (['d', 'e', 'f'] ++ gap) = ['d', 'e', 'f'] :=
    leadingName_append (stops_of_spaces hgap (by decide))
  have hunit : leadingUnitWord (['d', 'e', 'f'] ++ gap) = ['d', 'e', 'f'] :=
    leadingUnitWord_append (stops_of_spaces hgap (by decide))
  rw [List.cons_append, List.cons_append, List.cons_append, List.nil_append] at hname hunit
  have hnumber : number ts ('d' :: 'e' :: 'f' :: gap) = none := by
    have hstop : Stops isNumberChar ('d' :: 'e' :: 'f' :: gap) := stops_cons.mpr (by decide)
    simp [number, leadingNumber_of_stops hstop, Step.one?]
  have hdeclaration : declaration ts ('d' :: 'e' :: 'f' :: gap) = none := by
    simp [declaration, takeWhile_eq_self hgap, leadingName, leadingRun]
  have hcall : call ts ('d' :: 'e' :: 'f' :: gap) = none := by
    -- Neither the word nor the white space holds a parenthesis.
    refine Option.eq_none_iff_forall_ne_some.mpr fun s hs => ?_
    obtain ⟨-, -, hparen, -⟩ := call_eq_some.mp hs
    have hmem := List.mem_of_mem_drop (List.mem_of_mem_head? hparen)
    simp only [List.mem_cons] at hmem
    rcases hmem with h | h | h | h
    · exact absurd h (by decide)
    · exact absurd h (by decide)
    · exact absurd h (by decide)
    · exact absurd (hgap '(' h) (by decide)
  have hne : leadingName ('d' :: 'e' :: 'f' :: gap) ≠ [] := by rw [hname]; simp
  obtain ⟨s, hs⟩ : ∃ s, word ts ('d' :: 'e' :: 'f' :: gap) = some s :=
    Option.ne_none_iff_exists'.mp (word_ne_none hne)
  obtain ⟨k, text, rfl, -, htext, hk⟩ := word_eq_some hs
  rw [hname, hunit, or_self] at htext
  subst htext
  refine ⟨k, ?_, ?_⟩
  · rcases hk with rfl | rfl | rfl | rfl <;> simp
  · have hcomment : comment ts ('d' :: 'e' :: 'f' :: gap) = none := rfl
    simp [Mode.step?, Mode.rules, hcomment, hnumber, hdeclaration, hcall, hs]

/-- Where only the root is left open, a `def` before white space is the last word
of the source. -/
theorem Reads.lastWord?_of_isOpenDeclaration {frames frames' : List Mode} {cs : List Char}
    {ls : List Lexeme} (h : Reads ts frames cs ls frames' []) (hopen : IsOpenDeclaration cs)
    (hset : settle ts cs frames = []) : lastWord? ls = some ['d', 'e', 'f'] := by
  obtain ⟨gap, rfl, hgap⟩ := hopen
  obtain ⟨k, hk, hs⟩ := step?_def ts hgap
  have hadv : advance ts 'd' ('e' :: 'f' :: gap) frames = ([⟨k, ['d', 'e', 'f']⟩], []) := by
    simp [advance, hset, currentMode, hs, Step.one, Step.text, Transition.apply]
  by_cases hne : gap = []
  · subst hne
    have hrun : Reads ts frames ['d', 'e', 'f'] ([⟨k, ['d', 'e', 'f']⟩] ++ []) [] [] :=
      .step hadv rfl .done
    rw [(h.unique hrun).1]
    simp [lastWord?, hk]
  · have hrun : Reads ts frames ('d' :: 'e' :: 'f' :: gap)
        ([⟨k, ['d', 'e', 'f']⟩] ++ [⟨.space, gap⟩]) [] [] :=
      .step hadv rfl (reads_spaces hgap hne)
    rw [(h.unique hrun).1]
    simp [lastWord?, hk]

end

/-! ## §3 A line and what follows it -/

section

variable {ts : Tables} {frames frames' : List Mode} {cs b rest : List Char}

/-- The same modes are left whatever follows a line. -/
theorem settle_append (hroot : .root ∉ frames) (hcs : EndsLine cs) (hb : Stops isSpace b) :
    settle ts (cs ++ b) frames = settle ts cs frames := by
  induction frames with
  | nil => rfl
  | cons m below ih =>
    have hm : m.step? ts (cs ++ b) = m.step? ts cs := by
      refine Mode.step?_append_of_endsLine hcs hb ?_
      rintro rfl
      exact absurd List.mem_cons_self hroot
    have hbelow := ih fun hmem => hroot (List.mem_cons_of_mem m hmem)
    simp only [settle, hm, hbelow]

/-- A step in a line is the same whatever follows the line. -/
theorem advance_append {c : Char} (hf : OpenFrames frames) (hcs : EndsLine (c :: cs))
    (hb : Stops isSpace b)
    (hopen : settle ts (c :: cs) frames = [] → ¬ IsOpenDeclaration (c :: cs)) :
    advance ts c (cs ++ b) frames = advance ts c cs frames := by
  have hset : settle ts (c :: (cs ++ b)) frames = settle ts (c :: cs) frames :=
    settle_append hf.root_notMem hcs hb
  have hstep : (currentMode (settle ts (c :: cs) frames)).step? ts (c :: (cs ++ b)) =
      (currentMode (settle ts (c :: cs) frames)).step? ts (c :: cs) :=
    Mode.step?_append_of_endsLine hcs hb fun hm => hopen (hf.settle.eq_nil_of_currentMode hm)
  simp only [advance, hset, hstep]

/-- A line is read as if nothing followed it. -/
theorem Reads.append_line {ls : List Lexeme} (h : Reads ts frames cs ls frames' [])
    (hf : OpenFrames frames) (hcs : cs = [] ∨ EndsLine cs) (hb : Stops isSpace b)
    (hlast : lastWord? ls ≠ some ['d', 'e', 'f']) : Reads ts frames (cs ++ b) ls frames' b := by
  generalize hend : ([] : List Char) = rest at h
  induction h with
  | done =>
    subst hend
    exact .done
  | @step frames mid frames' c cs tail rest ls more adv text later ih =>
    subst hend
    have hline : EndsLine (c :: cs) := hcs.resolve_left (List.cons_ne_nil c cs)
    have hopen : settle ts (c :: cs) frames = [] → ¬ IsOpenDeclaration (c :: cs) :=
      fun hset hdef => hlast ((Reads.step adv text later).lastWord?_of_isOpenDeclaration hdef hset)
    have hmid : OpenFrames (advance ts c cs frames).2 := hf.advance
    rw [adv] at hmid
    have htail : tail = [] ∨ EndsLine tail := by
      by_cases hne : tail = []
      · exact .inl hne
      · exact .inr ((text ▸ hline).of_append hne)
    have hmore := ih hmid htail (fun hlast' => hlast (lastWord?_append hlast')) rfl
    have htext : c :: (cs ++ b) = textOf ls ++ (tail ++ b) := by
      rw [← List.cons_append, text, List.append_assoc]
    exact .step ((advance_append hf hline hb hopen).trans adv) htext hmore

end

/-! ## §4 Tokens -/

/-- The token so many bytes further on. -/
def Token.shift (offset : Nat) (t : Token) : Token :=
  { t with start := offset + t.start }

theorem place_add (offset start : Nat) (ls : List Lexeme) :
    place (offset + start) ls = (place start ls).map (Token.shift offset) := by
  induction ls generalizing start with
  | nil => rfl
  | cons l ls ih =>
    rw [place, place, List.map_cons, Nat.add_assoc, ih]
    rfl

/-- After a line break only the root or a group is open. If it is the root, the
tokens of the line are followed by those of the rest of the source on its own,
unless white space stands at the start of the rest or a `def` at the end of the
line. -/
theorem tokenize_line_append (ts : Tables) (a b : String) :
    (finalModes ts (a ++ "\n") = [.root] ∨
      (finalModes ts (a ++ "\n")).getLast? = some .unitGroup) ∧
    (finalModes ts (a ++ "\n") = [.root] → Stops isSpace b.toList →
      lastText? (tokenize ts (a ++ "\n")) ≠ some "def" →
      tokenize ts (a ++ "\n" ++ b) =
        tokenize ts (a ++ "\n") ++
          (tokenize ts b).map (Token.shift (a ++ "\n").utf8ByteSize)) := by
  obtain ⟨ls, frames, hline, htokens, hmodes⟩ := exists_reads_source ts (a ++ "\n")
  have hends : EndsLine (a ++ "\n").toList := ⟨a.toList, String.toList_append⟩
  constructor
  · rcases hline.closed_of_endsLine .root hends with rfl | ⟨below, rfl⟩
    · exact .inl hmodes
    · refine .inr ?_
      rw [hmodes, List.reverse_cons, ← List.cons_append, List.getLast?_concat]
  · intro hroot hb hlast
    obtain rfl : frames = [] := by
      rw [hmodes] at hroot
      simpa using hroot
    obtain ⟨ms, frames', hrest, htokens', -⟩ := exists_reads_source ts b
    have hword : lastWord? ls ≠ some ['d', 'e', 'f'] := by
      intro hdef
      rw [htokens, lastText?_place, hdef] at hlast
      exact hlast rfl
    have hrun := (hline.append_line .root (.inr hends) hb hword).append hrest
    rw [← String.toList_append] at hrun
    have hsize : byteLength (textOf ls) = (a ++ "\n").utf8ByteSize := by
      have htext := hline.text_eq
      rw [List.append_nil] at htext
      rw [← htext, byteLength_toList]
    rw [tokenize_eq_of_reads hrun, htokens, htokens', place_append, ← place_add, Nat.add_zero,
      Nat.zero_add, hsize]

theorem tokenize_two_lines :
    finalModes .standard "x = 1 km\n" = [.root] ∧
    lastText? (tokenize .standard "x = 1 km\n") = some "km" ∧
    tokenize .standard "x = 1 km\ny = 2" =
      tokenize .standard "x = 1 km\n" ++ (tokenize .standard "y = 2").map (Token.shift 9) :=
  ⟨by decide, by decide, (tokenize_line_append .standard "x = 1 km" "y = 2").2 (by decide)
    (stops_cons.mpr (by decide : isSpace 'y' = false)) (by decide)⟩

end UnitLexer
