/-
UnitLexer.Proofs.Answers — what the rules answer, and when.

One equivalence a rule: the inputs it applies to, and the step it answers with
there. They are stated with the scanning functions of the rules, so what a
rule looks at stands in its line, and no later proof unfolds a rule.

A mode answers with the step of one of its rules. `Mode.Answers` lists all the
steps there are, mode by mode, with what is known of the input where each of
them is the answer (`Mode.answers_of_step?`). Whatever holds of all answers,
the transitions they make, how many lexemes they hold, what the kinds of these
say and where they end, is shown by one case analysis over that list.
-/
import Mathlib.Tactic.SplitIfs
import UnitLexer.Grammar

namespace UnitLexer

theorem Step.one?_eq_some {k : Kind} {text : List Char} {t : Transition} {s : Step} :
    Step.one? k text t = some s ↔ text ≠ [] ∧ Step.one k text t = s := by
  unfold Step.one?
  split <;> simp_all

theorem Quote.ofChar?_eq_some {c : Char} {quote : Quote} :
    Quote.ofChar? c = some quote ↔ c = quote.char := by
  constructor
  · intro h
    unfold Quote.ofChar? at h
    split at h
    · obtain rfl := Option.some.inj h
      rfl
    · obtain rfl := Option.some.inj h
      rfl
    · contradiction
  · rintro rfl
    cases quote <;> rfl

/-- The characters that the text of a string is made of. -/
def isPlain (quote : Quote) (c : Char) : Bool :=
  c != '\\' && c != quote.char && c != '\n'

theorem isPlain_iff {quote : Quote} {c : Char} :
    isPlain quote c = true ↔ c ≠ '\\' ∧ c ≠ quote.char ∧ c ≠ '\n' := by
  simp [isPlain, and_assoc]

namespace Rule

variable {ts : Tables} {cs : List Char} {s : Step}

/-! ## §1 Rules of one shape -/

theorem run_eq_some {p : Char → Bool} {k : Kind} {t : Transition} :
    run p k t ts cs = some s ↔ cs.takeWhile p ≠ [] ∧ Step.one k (cs.takeWhile p) t = s :=
  Step.one?_eq_some

theorem oneOf_eq_some {chars : List Char} {k : Kind} {t : Transition} :
    oneOf chars k t ts cs = some s ↔
      ∃ c tail, cs = c :: tail ∧ c ∈ chars ∧ Step.one k [c] t = s := by
  cases cs with
  | nil => simp [oneOf]
  | cons c tail => by_cases h : c ∈ chars <;> simp [oneOf, h]

theorem handBack_eq_some : handBack ts cs = some s ↔ Step.handBack = s := by
  simp [handBack]

/-! ## §2 Comments, numbers and strings -/

theorem stringText_eq (quote : Quote) : stringText quote = run (isPlain quote) .string .stay := rfl

theorem comment_eq_some : comment ts cs = some s ↔
    ∃ tail, cs = '#' :: tail ∧ Step.one .comment ('#' :: tail.takeWhile (· != '\n')) .stay = s := by
  unfold comment
  split
  · simp
  · next h =>
    constructor
    · intro hs
      contradiction
    · rintro ⟨tail, rfl, -⟩
      exact absurd rfl (h tail)

theorem number_eq_some : number ts cs = some s ↔
    leadingNumber cs ≠ [] ∧ Step.one .number (leadingNumber cs) (.push .expectUnit) = s :=
  Step.one?_eq_some

theorem unclosedString_eq_some : unclosedString ts cs = some s ↔
    ∃ c tail quote text, cs = c :: tail ∧ Quote.ofChar? c = some quote ∧
      unclosedTail? quote.char tail = some text ∧ Step.one .brokenString (c :: text) .stay = s := by
  cases cs with
  | nil => simp [unclosedString]
  | cons c tail =>
    simp only [unclosedString, bind, Option.bind_eq_some_iff, Option.some.injEq, List.cons.injEq]
    constructor
    · rintro ⟨quote, hq, text, ht, hs⟩
      exact ⟨c, tail, quote, text, ⟨rfl, rfl⟩, hq, ht, hs⟩
    · rintro ⟨_, _, quote, text, ⟨rfl, rfl⟩, hq, ht, hs⟩
      exact ⟨quote, hq, text, ht, hs⟩

theorem stringOpening_eq_some : stringOpening ts cs = some s ↔
    ∃ c tail quote, cs = c :: tail ∧ Quote.ofChar? c = some quote ∧
      Step.one .quote [c] (.push (.string quote)) = s := by
  cases cs with
  | nil => simp [stringOpening]
  | cons c tail => simp [stringOpening, Option.map_eq_some_iff]

theorem stringEscape_eq_some : stringEscape ts cs = some s ↔
    ∃ c tail, cs = '\\' :: c :: tail ∧ c ≠ '\n' ∧ Step.one .escape ['\\', c] .stay = s := by
  unfold stringEscape
  split
  · next c tail => by_cases h : c = '\n' <;> simp [h]
  · next h =>
    constructor
    · intro hs
      contradiction
    · rintro ⟨c, tail, rfl, -⟩
      exact absurd rfl (h c tail)

/-! ## §3 Names and words -/

theorem declaration_eq_some : declaration ts cs = some s ↔
    ∃ tail, cs = 'd' :: 'e' :: 'f' :: tail ∧ tail.takeWhile isSpace ≠ [] ∧
      leadingName (tail.drop (tail.takeWhile isSpace).length) ≠ [] ∧
      ⟨[⟨.keyword, ['d', 'e', 'f']⟩, ⟨.space, tail.takeWhile isSpace⟩,
        ⟨.declaration, leadingName (tail.drop (tail.takeWhile isSpace).length)⟩], .stay⟩ = s := by
  unfold declaration
  split
  · next tail =>
    dsimp only
    split <;> grind
  · next h =>
    constructor
    · intro hs
      contradiction
    · rintro ⟨tail, rfl, -⟩
      exact absurd rfl (h tail)

theorem call_eq_some : call ts cs = some s ↔
    leadingName cs ≠ [] ∧ String.ofList (leadingName cs) ∉ ts.keywords ∧
      (cs.drop ((leadingName cs).length +
        ((cs.drop (leadingName cs).length).takeWhile isBlank).length)).head? = some '(' ∧
      Step.several
        [⟨if String.ofList (leadingName cs) ∈ ts.builtins then .builtin else .call, leadingName cs⟩,
          ⟨.space, (cs.drop (leadingName cs).length).takeWhile isBlank⟩,
          ⟨.bracket .parenthesis, ['(']⟩] .stay = s := by
  unfold call
  dsimp only
  split_ifs <;> grind

/-- A bare word is a name or a unit word, of a kind that the tables decide. -/
theorem word_eq_some (h : word ts cs = some s) :
    ∃ k text, Step.one k text .stay = s ∧ text ≠ [] ∧
      (text = leadingName cs ∨ text = leadingUnitWord cs) ∧
      (k = .keyword ∨ k = .builtin ∨ k = .unit ∨ k = .identifier) := by
  unfold word at h
  dsimp only at h
  split_ifs at h with h₁ h₂ h₃ h₄
  · exact ⟨_, _, Option.some.inj h, h₁.1, .inl rfl, .inl rfl⟩
  · exact ⟨_, _, Option.some.inj h, h₂.1, .inl rfl, .inr (.inl rfl)⟩
  · exact ⟨_, _, Option.some.inj h, h₃.1, .inr rfl, .inr (.inr (.inl rfl))⟩
  · exact ⟨_, _, Option.some.inj h, h₄.1, .inl rfl, .inr (.inr (.inl rfl))⟩
  · obtain ⟨hne, rfl⟩ := Step.one?_eq_some.mp h
    exact ⟨_, _, rfl, hne, .inl rfl, .inr (.inr (.inr rfl))⟩

/-- Every name is a word of some kind. -/
theorem word_ne_none (h : leadingName cs ≠ []) : word ts cs ≠ none := by
  unfold word
  dsimp only
  split_ifs <;> simp [Step.one?, h]

/-! ## §4 Brackets and symbols -/

theorem bracket_eq_some : bracket ts cs = some s ↔
    ∃ c tail shape, cs = c :: tail ∧ Bracket.ofChar? c = some shape ∧
      Step.one (.bracket shape) [c] .stay = s := by
  cases cs with
  | nil => simp [bracket]
  | cons c tail => simp [bracket, Option.map_eq_some_iff]

theorem symbolRun_eq_some : symbolRun ts cs = some s ↔
    cs.takeWhile isSymbol ≠ [] ∧
      Step.one
        (if String.ofList (cs.takeWhile isSymbol) ∈ ts.operators then .operator else .symbol)
        (cs.takeWhile isSymbol) .stay = s :=
  Step.one?_eq_some

/-! ## §5 Units -/

theorem firstUnit_eq_some : firstUnit ts cs = some s ↔
    leadingUnit ts cs ≠ [] ∧ Step.one .unit (leadingUnit ts cs) (.replace .unitExpression) = s :=
  Step.one?_eq_some

theorem firstGroup_eq_some : firstGroup ts cs = some s ↔
    opensUnitGroup ts cs = true ∧
      Step.one parenthesis ['('] (.replaceThenPush .unitExpression .unitGroup) = s := by
  unfold firstGroup
  split <;> simp_all

theorem furtherUnit_eq_some : furtherUnit ts cs = some s ↔
    leadingUnit ts cs ≠ [] ∧ Step.one .unit (leadingUnit ts cs) .stay = s :=
  Step.one?_eq_some

theorem furtherGroup_eq_some : furtherGroup ts cs = some s ↔
    opensUnitGroup ts cs = true ∧ Step.one parenthesis ['('] (.push .unitGroup) = s := by
  unfold furtherGroup
  split <;> simp_all

theorem exponent_eq_some : exponent ts cs = some s ↔
    leadingInteger cs ≠ [] ∧ Step.one .exponent (leadingInteger cs) .pop = s :=
  Step.one?_eq_some

theorem groupWord_eq_some : groupWord ts cs = some s ↔
    leadingUnitWord cs ≠ [] ∧
      Step.one (if ts.isUnit (String.ofList (leadingUnitWord cs)) then .unit else .identifier)
        (leadingUnitWord cs) .stay = s :=
  Step.one?_eq_some

end Rule

/-! ## §6 Modes -/

/-- Where all rules of a mode answer alike, the mode does. -/
theorem Mode.step?_eq_of_rules {m : Mode} {ts ts' : Tables} {cs cs' : List Char}
    (h : ∀ r ∈ m.rules, r ts cs = r ts' cs') : m.step? ts cs = m.step? ts' cs' := by
  unfold step?
  generalize m.rules = rules at h
  induction rules with
  | nil => rfl
  | cons r rules ih =>
    rw [List.findSome?_cons, List.findSome?_cons, h r List.mem_cons_self,
      ih fun r' hr' => h r' (List.mem_cons_of_mem r hr')]

namespace Mode

open Rule

/-- The modes in which white space is read over line breaks. Every other mode
hands the input back where it can do nothing with it. -/
def spansLines : Mode → Bool
  | .root | .whitespace | .unitGroup => true
  | .string _ | .expectUnit | .expectUnitAfterSpace | .unitExpression | .unitExponent => false

/-- The modes in which the number still waits for a unit. -/
def AwaitsUnit (m : Mode) : Prop :=
  m = .expectUnit ∨ m = .expectUnitAfterSpace

/-- The modes in which units are multiplied, divided and raised to powers. -/
def CombinesUnits (m : Mode) : Prop :=
  m = .unitExpression ∨ m = .unitGroup

/-- What a mode can find at the start of the input as a single lexeme: of which
kind, with which text, and with which transition. -/
inductive Finds (ts : Tables) (cs : List Char) : Mode → Kind → List Char → Transition → Prop where
  /-- A hash and the rest of its line. -/
  | comment {tail : List Char} (hcs : cs = '#' :: tail) :
      Finds ts cs .root .comment ('#' :: tail.takeWhile (· != '\n')) .stay
  /-- A number. -/
  | number (hne : leadingNumber cs ≠ []) :
      Finds ts cs .root .number (leadingNumber cs) (.push .expectUnit)
  /-- A name that is a keyword. -/
  | keyword (hne : leadingName cs ≠ []) (hkeyword : String.ofList (leadingName cs) ∈ ts.keywords) :
      Finds ts cs .root .keyword (leadingName cs) .stay
  /-- A name that is a builtin and no keyword. -/
  | builtin (hne : leadingName cs ≠ []) (hkeyword : String.ofList (leadingName cs) ∉ ts.keywords)
      (hbuiltin : String.ofList (leadingName cs) ∈ ts.builtins) :
      Finds ts cs .root .builtin (leadingName cs) .stay
  /-- A unit word that is a known unit. -/
  | knownUnit (hne : leadingUnitWord cs ≠ [])
      (hknown : String.ofList (leadingUnitWord cs) ∈ ts.knownUnits) :
      Finds ts cs .root .unit (leadingUnitWord cs) .stay
  /-- A name that is a known unit, where the unit word is none. -/
  | knownName (hne : leadingName cs ≠ [])
      (hunit : ¬ (leadingUnitWord cs ≠ [] ∧ String.ofList (leadingUnitWord cs) ∈ ts.knownUnits))
      (hknown : String.ofList (leadingName cs) ∈ ts.knownUnits) :
      Finds ts cs .root .unit (leadingName cs) .stay
  /-- A name that no table lists. -/
  | name (hne : leadingName cs ≠ []) (hkeyword : String.ofList (leadingName cs) ∉ ts.keywords)
      (hbuiltin : String.ofList (leadingName cs) ∉ ts.builtins)
      (hknown : String.ofList (leadingName cs) ∉ ts.knownUnits) :
      Finds ts cs .root .identifier (leadingName cs) .stay
  /-- White space, line breaks included. -/
  | space {m : Mode} (hm : m.spansLines = true) (hne : cs.takeWhile isSpace ≠ []) :
      Finds ts cs m .space (cs.takeWhile isSpace) .stay
  /-- A quote whose string its line does not close. -/
  | brokenString {quote : Quote} {tail text : List Char} (hcs : cs = quote.char :: tail)
      (htext : unclosedTail? quote.char tail = some text) :
      Finds ts cs .root .brokenString (quote.char :: text) .stay
  /-- A quote that opens a string. -/
  | stringOpening {quote : Quote} {tail : List Char} (hcs : cs = quote.char :: tail) :
      Finds ts cs .root .quote [quote.char] (.push (.string quote))
  /-- A delimiter. -/
  | delimiter {c : Char} {tail : List Char} (hcs : cs = c :: tail) (hc : c ∈ [',', '.', ':']) :
      Finds ts cs .root .delimiter [c] .stay
  /-- A bracket. -/
  | bracket {c : Char} {tail : List Char} {shape : Bracket} (hcs : cs = c :: tail)
      (hc : Bracket.ofChar? c = some shape) : Finds ts cs .root (.bracket shape) [c] .stay
  /-- A symbol run that is an operator. -/
  | operator (hne : cs.takeWhile isSymbol ≠ [])
      (hlisted : String.ofList (cs.takeWhile isSymbol) ∈ ts.operators) :
      Finds ts cs .root .operator (cs.takeWhile isSymbol) .stay
  /-- A symbol run that is none. -/
  | symbol (hne : cs.takeWhile isSymbol ≠ [])
      (hlisted : String.ofList (cs.takeWhile isSymbol) ∉ ts.operators) :
      Finds ts cs .root .symbol (cs.takeWhile isSymbol) .stay
  /-- The plain text of a string. -/
  | stringText {quote : Quote} (hne : cs.takeWhile (isPlain quote) ≠ []) :
      Finds ts cs (.string quote) .string (cs.takeWhile (isPlain quote)) .stay
  /-- A backslash and a character on the same line. -/
  | stringEscape {quote : Quote} {c : Char} {tail : List Char} (hcs : cs = '\\' :: c :: tail)
      (hc : c ≠ '\n') : Finds ts cs (.string quote) .escape ['\\', c] .stay
  /-- The quote that closes the string. -/
  | stringClosing {quote : Quote} {tail : List Char} (hcs : cs = quote.char :: tail) :
      Finds ts cs (.string quote) .quote [quote.char] .pop
  /-- A backslash that breaks the string off. -/
  | danglingBackslash {quote : Quote} {tail : List Char} (hcs : cs = '\\' :: tail) :
      Finds ts cs (.string quote) .brokenString ['\\'] .pop
  /-- Blanks between a number and its unit. -/
  | gap (hne : cs.takeWhile isBlank ≠ []) :
      Finds ts cs .expectUnit .space (cs.takeWhile isBlank) (.replace .expectUnitAfterSpace)
  /-- The unit of a number. -/
  | firstUnit {m : Mode} (hm : m.AwaitsUnit) (hne : leadingUnit ts cs ≠ []) :
      Finds ts cs m .unit (leadingUnit ts cs) (.replace .unitExpression)
  /-- A group that the unit of a number starts with. -/
  | firstGroup {m : Mode} (hm : m.AwaitsUnit) (hopens : opensUnitGroup ts cs = true) :
      Finds ts cs m parenthesis ['('] (.replaceThenPush .unitExpression .unitGroup)
  /-- Blanks in a unit expression. -/
  | blank {m : Mode} (hm : m = .unitExpression ∨ m = .unitExponent)
      (hne : cs.takeWhile isBlank ≠ []) : Finds ts cs m .space (cs.takeWhile isBlank) .stay
  /-- A further unit. -/
  | unit {m : Mode} (hm : m.CombinesUnits) (hne : leadingUnit ts cs ≠ []) :
      Finds ts cs m .unit (leadingUnit ts cs) .stay
  /-- A product or quotient sign. -/
  | product {m : Mode} {c : Char} {tail : List Char} (hm : m.CombinesUnits) (hcs : cs = c :: tail)
      (hc : c ∈ ['*', '/']) : Finds ts cs m .unitOperator [c] .stay
  /-- A power sign. -/
  | power {m : Mode} {tail : List Char} (hm : m.CombinesUnits) (hcs : cs = '^' :: tail) :
      Finds ts cs m .unitOperator ['^'] (.push .unitExponent)
  /-- A further group outside every other. -/
  | group (hopens : opensUnitGroup ts cs = true) :
      Finds ts cs .unitExpression parenthesis ['('] (.push .unitGroup)
  /-- A group inside another. -/
  | nestedGroup {tail : List Char} (hcs : cs = '(' :: tail) :
      Finds ts cs .unitGroup parenthesis ['('] (.push .unitGroup)
  /-- The end of a group. -/
  | groupClosing {tail : List Char} (hcs : cs = ')' :: tail) :
      Finds ts cs .unitGroup parenthesis [')'] .pop
  /-- A word in a group that does not read as a unit. -/
  | groupName (hne : leadingUnitWord cs ≠ [])
      (hunit : ts.isUnit (String.ofList (leadingUnitWord cs)) = false) :
      Finds ts cs .unitGroup .identifier (leadingUnitWord cs) .stay
  /-- An exponent. -/
  | exponent (hne : leadingInteger cs ≠ []) :
      Finds ts cs .unitExponent .exponent (leadingInteger cs) .pop
  /-- A product or quotient sign in place of an exponent. -/
  | noExponent {c : Char} {tail : List Char} (hcs : cs = c :: tail) (hc : c ∈ ['*', '/']) :
      Finds ts cs .unitExponent .unitOperator [c] .pop

/-- The kinds of names that are called. -/
inductive Called (ts : Tables) (name : List Char) : Kind → Prop where
  | builtin (hne : name ≠ []) (hkeyword : String.ofList name ∉ ts.keywords)
      (hbuiltin : String.ofList name ∈ ts.builtins) : Called ts name .builtin
  | plain (hne : name ≠ []) (hkeyword : String.ofList name ∉ ts.keywords)
      (hbuiltin : String.ofList name ∉ ts.builtins) : Called ts name .call

/-- What a mode can answer: a single lexeme, several in the root, or the input as
it is. -/
inductive Answers (ts : Tables) (cs : List Char) : Mode → Step → Prop where
  | one {m : Mode} {k : Kind} {text : List Char} {t : Transition} (h : Finds ts cs m k text t) :
      Answers ts cs m (.one k text t)
  /-- The word `def`, white space and a name. -/
  | declaration {tail gap name : List Char} (hcs : cs = 'd' :: 'e' :: 'f' :: tail)
      (hgap : gap = tail.takeWhile isSpace) (hname : name = leadingName (tail.drop gap.length))
      (hgap_ne : gap ≠ []) (hname_ne : name ≠ []) :
      Answers ts cs .root
        ⟨[⟨.keyword, ['d', 'e', 'f']⟩, ⟨.space, gap⟩, ⟨.declaration, name⟩], .stay⟩
  /-- A name that is called. -/
  | call {k : Kind} (hcalled : Called ts (leadingName cs) k) :
      Answers ts cs .root ⟨[⟨k, leadingName cs⟩, ⟨parenthesis, ['(']⟩], .stay⟩
  /-- A name that is called, with blanks behind it. -/
  | spacedCall {k : Kind} {gap : List Char} (hcalled : Called ts (leadingName cs) k)
      (hgap : gap = (cs.drop (leadingName cs).length).takeWhile isBlank) (hgap_ne : gap ≠ []) :
      Answers ts cs .root
        ⟨[⟨k, leadingName cs⟩, ⟨.space, gap⟩, ⟨parenthesis, ['(']⟩], .stay⟩
  | handBack {m : Mode} (hm : m.spansLines = false) : Answers ts cs m .handBack

section

variable {ts : Tables} {cs : List Char} {s : Step}

theorem answers_declaration (h : declaration ts cs = some s) : Answers ts cs .root s := by
  obtain ⟨tail, hcs, hgap, hname, rfl⟩ := declaration_eq_some.mp h
  exact .declaration hcs rfl rfl hgap hname

theorem answers_call (h : call ts cs = some s) : Answers ts cs .root s := by
  obtain ⟨hne, hkeyword, -, rfl⟩ := call_eq_some.mp h
  have hcalled : Called ts (leadingName cs)
      (if String.ofList (leadingName cs) ∈ ts.builtins then .builtin else .call) := by
    split
    · next hbuiltin => exact .builtin hne hkeyword hbuiltin
    · next hbuiltin => exact .plain hne hkeyword hbuiltin
  by_cases hgap : (cs.drop (leadingName cs).length).takeWhile isBlank = []
  · simpa [Step.several, hne, hgap, parenthesis] using Answers.call hcalled
  · simpa [Step.several, hne, hgap, parenthesis] using Answers.spacedCall hcalled rfl hgap

/-- A name is a word of exactly one kind, and a unit word can be known too. -/
theorem answers_word (h : word ts cs = some s) : Answers ts cs .root s := by
  unfold word at h
  dsimp only at h
  split_ifs at h with h₁ h₂ h₃ h₄
  · obtain rfl := Option.some.inj h
    exact .one (.keyword h₁.1 h₁.2)
  · obtain rfl := Option.some.inj h
    exact .one (.builtin h₂.1 (fun hk => h₁ ⟨h₂.1, hk⟩) h₂.2)
  · obtain rfl := Option.some.inj h
    exact .one (.knownUnit h₃.1 h₃.2)
  · obtain rfl := Option.some.inj h
    exact .one (.knownName h₄.1 h₃ h₄.2)
  · obtain ⟨hne, rfl⟩ := Step.one?_eq_some.mp h
    exact .one (.name hne (fun hk => h₁ ⟨hne, hk⟩) (fun hb => h₂ ⟨hne, hb⟩)
      fun hu => h₄ ⟨hne, hu⟩)

theorem answers_unclosedString (h : unclosedString ts cs = some s) : Answers ts cs .root s := by
  obtain ⟨c, tail, quote, text, hcs, hquote, htext, rfl⟩ := unclosedString_eq_some.mp h
  obtain rfl := Quote.ofChar?_eq_some.mp hquote
  exact .one (.brokenString hcs htext)

theorem answers_stringOpening (h : stringOpening ts cs = some s) : Answers ts cs .root s := by
  obtain ⟨c, tail, quote, hcs, hquote, rfl⟩ := stringOpening_eq_some.mp h
  obtain rfl := Quote.ofChar?_eq_some.mp hquote
  exact .one (.stringOpening hcs)

theorem answers_symbolRun (h : symbolRun ts cs = some s) : Answers ts cs .root s := by
  obtain ⟨hne, rfl⟩ := symbolRun_eq_some.mp h
  split
  · next hlisted => exact .one (.operator hne hlisted)
  · next hlisted => exact .one (.symbol hne hlisted)

theorem answers_groupWord (h : groupWord ts cs = some s) : Answers ts cs .unitGroup s := by
  obtain ⟨hne, rfl⟩ := groupWord_eq_some.mp h
  split
  · next hunit =>
    have hleading : leadingUnit ts cs = leadingUnitWord cs := by simp [leadingUnit, hne, hunit]
    have hfound : Finds ts cs .unitGroup .unit (leadingUnit ts cs) .stay :=
      .unit (.inr rfl) (by rwa [hleading])
    rw [hleading] at hfound
    exact .one hfound
  · next hunit => exact .one (.groupName hne (by simpa using hunit))

/-- A rule that takes one of the listed characters, where only one is listed. -/
theorem eq_of_oneOf_singleton {d : Char} {k : Kind} {t : Transition}
    (h : oneOf [d] k t ts cs = some s) : ∃ tail, cs = d :: tail ∧ Step.one k [d] t = s := by
  obtain ⟨c, tail, hcs, hc, hs⟩ := oneOf_eq_some.mp h
  obtain rfl := List.mem_singleton.mp hc
  exact ⟨tail, hcs, hs⟩

/-- The rules answer with nothing else. -/
theorem answers_of_step? {m : Mode} (h : m.step? ts cs = some s) : m.Answers ts cs s := by
  obtain ⟨r, hr, hs⟩ := List.exists_of_findSome?_eq_some h
  cases m with
  | root =>
    simp only [rules, List.mem_cons, List.not_mem_nil, or_false] at hr
    rcases hr with rfl | rfl | rfl | rfl | rfl | rfl | rfl | rfl | rfl | rfl | rfl
    · obtain ⟨tail, hcs, rfl⟩ := comment_eq_some.mp hs
      exact .one (.comment hcs)
    · obtain ⟨hne, rfl⟩ := number_eq_some.mp hs
      exact .one (.number hne)
    · exact answers_declaration hs
    · exact answers_call hs
    · exact answers_word hs
    · obtain ⟨hne, rfl⟩ := run_eq_some.mp hs
      exact .one (.space rfl hne)
    · exact answers_unclosedString hs
    · exact answers_stringOpening hs
    · obtain ⟨c, tail, hcs, hc, rfl⟩ := oneOf_eq_some.mp hs
      exact .one (.delimiter hcs hc)
    · obtain ⟨c, tail, shape, hcs, hc, rfl⟩ := bracket_eq_some.mp hs
      exact .one (.bracket hcs hc)
    · exact answers_symbolRun hs
  | whitespace =>
    obtain rfl := List.mem_singleton.mp hr
    obtain ⟨hne, rfl⟩ := run_eq_some.mp hs
    exact .one (.space rfl hne)
  | string quote =>
    simp only [rules, List.mem_cons, List.not_mem_nil, or_false] at hr
    rcases hr with rfl | rfl | rfl | rfl | rfl
    · rw [stringText_eq] at hs
      obtain ⟨hne, rfl⟩ := run_eq_some.mp hs
      exact .one (.stringText hne)
    · obtain ⟨c, tail, hcs, hc, rfl⟩ := stringEscape_eq_some.mp hs
      exact .one (.stringEscape hcs hc)
    · obtain ⟨tail, hcs, rfl⟩ := eq_of_oneOf_singleton hs
      exact .one (.stringClosing hcs)
    · obtain ⟨tail, hcs, rfl⟩ := eq_of_oneOf_singleton hs
      exact .one (.danglingBackslash hcs)
    · obtain rfl := handBack_eq_some.mp hs
      exact .handBack rfl
  | expectUnit =>
    simp only [rules, List.mem_cons, List.not_mem_nil, or_false] at hr
    rcases hr with rfl | rfl | rfl | rfl
    · obtain ⟨hne, rfl⟩ := run_eq_some.mp hs
      exact .one (.gap hne)
    · obtain ⟨hne, rfl⟩ := firstUnit_eq_some.mp hs
      exact .one (.firstUnit (.inl rfl) hne)
    · obtain ⟨hopens, rfl⟩ := firstGroup_eq_some.mp hs
      exact .one (.firstGroup (.inl rfl) hopens)
    · obtain rfl := handBack_eq_some.mp hs
      exact .handBack rfl
  | expectUnitAfterSpace =>
    simp only [rules, List.mem_cons, List.not_mem_nil, or_false] at hr
    rcases hr with rfl | rfl | rfl
    · obtain ⟨hne, rfl⟩ := firstUnit_eq_some.mp hs
      exact .one (.firstUnit (.inr rfl) hne)
    · obtain ⟨hopens, rfl⟩ := firstGroup_eq_some.mp hs
      exact .one (.firstGroup (.inr rfl) hopens)
    · obtain rfl := handBack_eq_some.mp hs
      exact .handBack rfl
  | unitExpression =>
    simp only [rules, List.mem_cons, List.not_mem_nil, or_false] at hr
    rcases hr with rfl | rfl | rfl | rfl | rfl | rfl
    · obtain ⟨hne, rfl⟩ := run_eq_some.mp hs
      exact .one (.blank (.inl rfl) hne)
    · obtain ⟨c, tail, hcs, hc, rfl⟩ := oneOf_eq_some.mp hs
      exact .one (.product (.inl rfl) hcs hc)
    · obtain ⟨tail, hcs, rfl⟩ := eq_of_oneOf_singleton hs
      exact .one (.power (.inl rfl) hcs)
    · obtain ⟨hne, rfl⟩ := furtherUnit_eq_some.mp hs
      exact .one (.unit (.inl rfl) hne)
    · obtain ⟨hopens, rfl⟩ := furtherGroup_eq_some.mp hs
      exact .one (.group hopens)
    · obtain rfl := handBack_eq_some.mp hs
      exact .handBack rfl
  | unitExponent =>
    simp only [rules, List.mem_cons, List.not_mem_nil, or_false] at hr
    rcases hr with rfl | rfl | rfl | rfl
    · obtain ⟨hne, rfl⟩ := exponent_eq_some.mp hs
      exact .one (.exponent hne)
    · obtain ⟨hne, rfl⟩ := run_eq_some.mp hs
      exact .one (.blank (.inr rfl) hne)
    · obtain ⟨c, tail, hcs, hc, rfl⟩ := oneOf_eq_some.mp hs
      exact .one (.noExponent hcs hc)
    · obtain rfl := handBack_eq_some.mp hs
      exact .handBack rfl
  | unitGroup =>
    simp only [rules, List.mem_cons, List.not_mem_nil, or_false] at hr
    rcases hr with rfl | rfl | rfl | rfl | rfl | rfl
    · obtain ⟨hne, rfl⟩ := run_eq_some.mp hs
      exact .one (.space rfl hne)
    · exact answers_groupWord hs
    · obtain ⟨c, tail, hcs, hc, rfl⟩ := oneOf_eq_some.mp hs
      exact .one (.product (.inr rfl) hcs hc)
    · obtain ⟨tail, hcs, rfl⟩ := eq_of_oneOf_singleton hs
      exact .one (.power (.inr rfl) hcs)
    · obtain ⟨tail, hcs, rfl⟩ := eq_of_oneOf_singleton hs
      exact .one (.nestedGroup hcs)
    · obtain ⟨tail, hcs, rfl⟩ := eq_of_oneOf_singleton hs
      exact .one (.groupClosing hcs)

end

end Mode

end UnitLexer
