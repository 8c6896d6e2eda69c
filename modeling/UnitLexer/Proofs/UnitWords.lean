/-
UnitLexer.Proofs.UnitWords — where units end.

While the unit of a number is read, words are looked up whole, so what follows
a unit could not have continued its word. Outside of quantities the rule for
words tries twice: it looks the whole unit word up among the known units, and
failing that the name that the word starts with. A name ends before the first
character beyond ASCII. So a known unit can be read out of a longer word that
is none, and this is the only way in which a letter comes to stand behind a
unit (`unit_stops_iff`): the word `mètre` is read as the metre, a character that no
rule accepts and a name.
-/
import UnitLexer.Proofs.Kinds
import UnitLexer.Proofs.UnitSteps

namespace UnitLexer

open Rule

/-! ## §1 What stands behind a word -/

section

variable {cs rest : List Char}

/-- What follows a run that has been found does not continue it. -/
theorem stops_of_leadingRun {first other : Char → Bool}
    (hrest : leadingRun first other cs ++ rest = cs) (hne : leadingRun first other cs ≠ []) :
    Stops other rest := by
  cases rest with
  | nil => exact stops_nil other
  | cons c rest => exact stops_cons.mpr (other_eq_false_of_leadingRun hrest hne)

theorem stops_of_leadingRun_eq_nil {first other : Char → Bool}
    (h : leadingRun first other cs = []) : Stops first cs := by
  cases cs with
  | nil => exact stops_nil first
  | cons c cs =>
    refine stops_cons.mpr ?_
    by_contra hc
    simp [leadingRun, hc] at h

theorem stops_of_leadingName (hrest : leadingName cs ++ rest = cs) (hne : leadingName cs ≠ []) :
    Stops isWordChar rest :=
  stops_of_leadingRun hrest hne

theorem stops_of_leadingUnitWord (hrest : leadingUnitWord cs ++ rest = cs)
    (hne : leadingUnitWord cs ≠ []) : Stops isUnitChar rest :=
  stops_of_leadingRun hrest hne

theorem leadingUnitWord_ne_nil (h : leadingName cs ≠ []) : leadingUnitWord cs ≠ [] := by
  intro hnil
  have hstart : Stops isUnitStart cs := stops_of_leadingRun_eq_nil hnil
  exact h (leadingName_of_stops (hstart.mono fun _ => isUnitStart_of_isWordStart))

/-- A name that no character of a unit word follows is the whole unit word. -/
theorem leadingUnitWord_eq_leadingName (hrest : leadingName cs ++ rest = cs)
    (hne : leadingName cs ≠ []) (hstops : Stops isUnitChar rest) :
    leadingUnitWord cs = leadingName cs := by
  have hrun : leadingRun isWordStart isWordChar cs ≠ [] := hne
  obtain ⟨c, name, hname, hc, hcs⟩ := leadingRun_cases hrun
  have hword : leadingName cs = c :: name := hname
  rw [hword] at hrest ⊢
  rw [← hrest, leadingUnitWord_append hstops]
  exact leadingRun_eq_self (isUnitStart_of_isWordStart hc)
    fun d hd => isUnitChar_of_isWordChar (hcs d hd)

variable {ts : Tables}

/-- In a quantity a unit is the whole unit word. -/
theorem leadingUnit_eq_leadingUnitWord (h : leadingUnit ts cs ≠ []) :
    leadingUnit ts cs = leadingUnitWord cs := by
  unfold leadingUnit at h ⊢
  dsimp only at h ⊢
  split at h
  · next hreads => rw [if_pos hreads]
  · exact absurd rfl h

theorem stops_of_leadingUnit (hrest : leadingUnit ts cs ++ rest = cs)
    (hne : leadingUnit ts cs ≠ []) : Stops isUnitChar rest := by
  rw [leadingUnit_eq_leadingUnitWord hne] at hrest hne
  exact stops_of_leadingUnitWord hrest hne

end

/-! ## §2 Units outside of quantities -/

section

variable {ts : Tables} {cs : List Char} {l : Lexeme}

/-- A known unit at the start of the input: the unit word there or, where that is
not known, the name there. -/
def KnownUnitAt (ts : Tables) (cs text : List Char) : Prop :=
  if String.ofList (leadingUnitWord cs) ∈ ts.knownUnits then text = leadingUnitWord cs
  else text = leadingName cs ∧ String.ofList text ∈ ts.knownUnits

/-- The only units that the root mode finds are the known ones. -/
theorem Mode.Finds.knownUnitAt {text : List Char} {t : Transition}
    (h : Mode.root.Finds ts cs .unit text t) : text ≠ [] ∧ KnownUnitAt ts cs text := by
  cases h with
  | knownUnit hne hknown => exact ⟨hne, by simp [KnownUnitAt, hknown]⟩
  | knownName hne hunit hknown =>
    have hunknown : String.ofList (leadingUnitWord cs) ∉ ts.knownUnits :=
      fun h => hunit ⟨leadingUnitWord_ne_nil hne, h⟩
    exact ⟨hne, by simp [KnownUnitAt, hunknown, hknown]⟩
  | firstUnit hm => simp [Mode.AwaitsUnit] at hm
  | unit hm => simp [Mode.CombinesUnits] at hm

/-- A unit that the root mode answers with is its whole answer. -/
theorem knownUnitAt_of_step?_root {s : Step} (hs : Mode.step? .root ts cs = some s)
    (hl : l ∈ s.lexemes) (hunit : l.kind = .unit) :
    s.lexemes = [l] ∧ l.text ≠ [] ∧ KnownUnitAt ts cs l.text := by
  cases Mode.answers_of_step? hs with
  | one hfinds =>
    obtain rfl := List.mem_singleton.mp hl
    dsimp only at hunit
    subst hunit
    exact ⟨rfl, hfinds.knownUnitAt⟩
  | declaration =>
    simp only [List.mem_cons, List.not_mem_nil, or_false] at hl
    rcases hl with rfl | rfl | rfl <;> contradiction
  | handBack => contradiction
  | call hcalled =>
    simp only [List.mem_cons, List.not_mem_nil, or_false] at hl
    rcases hl with rfl | rfl
    · cases hcalled <;> contradiction
    · contradiction
  | spacedCall hcalled =>
    simp only [List.mem_cons, List.not_mem_nil, or_false] at hl
    rcases hl with rfl | rfl | rfl
    · cases hcalled <;> contradiction
    · contradiction
    · contradiction

variable {rest : List Char}

/-- Behind a known unit no name goes on, and no unit word does exactly where the
whole of it is known. -/
theorem KnownUnitAt.stops_iff {text : List Char} (h : KnownUnitAt ts cs text) (hne : text ≠ [])
    (hrest : cs = text ++ rest) :
    Stops isWordChar rest ∧
      (Stops isUnitChar rest ↔ String.ofList (leadingUnitWord cs) ∈ ts.knownUnits) := by
  unfold KnownUnitAt at h
  split at h
  · next hknown =>
    subst h
    have hstops := stops_of_leadingUnitWord hrest.symm hne
    exact ⟨hstops.mono fun _ => isUnitChar_of_isWordChar, iff_of_true hstops hknown⟩
  · next hunknown =>
    obtain ⟨rfl, hknown⟩ := h
    refine ⟨stops_of_leadingName hrest.symm hne, iff_of_false (fun hstops => ?_) hunknown⟩
    rw [leadingUnitWord_eq_leadingName hrest.symm hne hstops] at hunknown
    exact hunknown hknown

end

/-! ## §3 The units of a source -/

section

variable {ts : Tables} {cs : List Char} {l : Lexeme}

theorem UnitStep.text_eq_leadingUnitWord {frames mid : List Mode}
    (h : UnitStep ts cs frames l mid) (hunit : l.kind = .unit) : l.text = leadingUnitWord cs := by
  cases h with
  | firstUnit _ hne => exact leadingUnit_eq_leadingUnitWord hne
  | unit _ hne => exact leadingUnit_eq_leadingUnitWord hne
  | _ => contradiction

variable {source : String} {before after : List Lexeme}

/-- A step whose one lexeme is this one reads it at the start of its input. -/
theorem lexeme_of_singleton {us vs : List Lexeme} {l' : Lexeme} (h : [l'] = us ++ l :: vs) :
    us = [] ∧ l = l' := by
  cases us with
  | nil => exact ⟨rfl, (List.cons.inj h).1.symm⟩
  | cons u us => simp at h

/-- No ASCII letter, digit or underscore stands behind a unit. A letter beyond
ASCII does exactly where the unit is not read in a quantity and the unit word
that it starts is no known unit. -/
theorem unit_stops_iff (h : lexemes ts source = before ++ l :: after) (hunit : l.kind = .unit) :
    Stops isWordChar (textOf after) ∧
      ∃ m, ReadIn ts source before.length m ∧
        (Stops isUnitChar (textOf after) ↔ m.inQuantity = true ∨
          String.ofList (leadingUnitWord (l.text ++ textOf after)) ∈ ts.knownUnits) := by
  obtain ⟨k, hle, hlt⟩ := exists_step_of_lexemes h
  obtain ⟨c, cs, us, vs, more, hr, hls, hbefore, -⟩ := lexemes_of_step h hle hlt
  have hread : ReadIn ts source before.length
      (currentMode (settle ts (c :: cs) (Lexer.atStep ts source k).state.frames)) := by
    refine ⟨k, hle, hlt, ?_⟩
    rw [Lexer.settledFrames, Lexer.tables_atStep, hr]
  have hrest := rest_eq_of_lexemes h hbefore
  rw [hr] at hrest
  have hopen : OpenFrames (Lexer.atStep ts source k).state.frames := Lexer.openFrames_atStep k
  generalize (Lexer.atStep ts source k).state.frames = frames at hread hls hopen
  cases hm : (currentMode (settle ts (c :: cs) frames)).inQuantity with
  | true =>
    obtain ⟨l', mid, hadv, hstep⟩ := UnitStep.of_advance hopen hm
    rw [hadv] at hls
    obtain ⟨rfl, rfl⟩ := lexeme_of_singleton hls
    have htext := hstep.text_eq_leadingUnitWord hunit
    have hstops : Stops isUnitChar (textOf after) := by
      refine stops_of_leadingUnitWord ?_ (htext ▸ hstep.text_ne_nil)
      rw [← htext, hrest, textOf_nil, List.nil_append]
    exact ⟨hstops.mono fun _ => isUnitChar_of_isWordChar, _, hread,
      iff_of_true hstops (.inl hm)⟩
  | false =>
    have hroot : currentMode (settle ts (c :: cs) frames) = .root := by
      obtain ⟨-, ⟨hroot, -⟩ | ⟨hquantity, -⟩⟩ : _ ∧ (_ ∨ _) := by
        have hagrees := agrees_of_readIn h hread
        simpa only [Agrees, hunit] using hagrees
      · exact hroot
      · rw [hm] at hquantity
        contradiction
    rcases advance_cases ts c cs frames with ⟨s, hs, -, hadv⟩ | ⟨-, hadv⟩
    · rw [hadv] at hls
      dsimp only at hls
      rw [hroot] at hs
      obtain ⟨hsingle, hne, hknown⟩ := knownUnitAt_of_step?_root hs (by simp [hls]) hunit
      rw [hsingle] at hls
      obtain ⟨rfl, -⟩ := lexeme_of_singleton hls
      rw [textOf_nil, List.nil_append] at hrest
      obtain ⟨hword, hiff⟩ := hknown.stops_iff hne hrest
      refine ⟨hword, _, hread, ?_⟩
      rw [hiff, hm, hrest]
      simp
    · rw [hadv] at hls
      obtain ⟨-, rfl⟩ := lexeme_of_singleton hls
      contradiction

end

/-- The word `mètre` starts with the known unit `m`, which is read in no quantity,
and a letter stands behind it. -/
theorem metre_continued :
    lexemes .standard "mètre" =
      [] ++ ⟨.unit, ['m']⟩ :: [⟨.invalid, ['è']⟩, ⟨.identifier, ['t', 'r', 'e']⟩] ∧
    Stops isWordChar ['è', 't', 'r', 'e'] ∧
    ∃ m, ReadIn .standard "mètre" 0 m ∧ (Stops isUnitChar ['è', 't', 'r', 'e'] ↔
      m.inQuantity = true ∨ String.ofList (leadingUnitWord ['m', 'è', 't', 'r', 'e']) ∈
        Tables.standard.knownUnits) := by
  have htokens : lexemes .standard "mètre" =
      [] ++ ⟨.unit, ['m']⟩ :: [⟨.invalid, ['è']⟩, ⟨.identifier, ['t', 'r', 'e']⟩] := by decide
  exact ⟨htokens, unit_stops_iff htokens rfl⟩

/-- Units are not whole words everywhere. -/
theorem unit_not_whole_word :
    ¬ ∀ (ts : Tables) (source : String) (before after : List Lexeme) (l : Lexeme),
      lexemes ts source = before ++ l :: after → l.kind = .unit →
        Stops isUnitChar (textOf after) := by
  intro hwhole
  have htokens : lexemes .standard "mètre" =
      [] ++ ⟨.unit, ['m']⟩ :: [⟨.invalid, ['è']⟩, ⟨.identifier, ['t', 'r', 'e']⟩] := by decide
  have hstops := hwhole _ _ _ _ _ htokens rfl
  exact absurd (hstops 'è' rfl) (by decide)

end UnitLexer
