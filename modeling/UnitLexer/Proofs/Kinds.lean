/-
UnitLexer.Proofs.Kinds — what the kind of a token says about it.

`Agrees` is the meaning of the kinds: for each of them, what the text of a
token is, which tables its text is or is not in, and, where the kind depends on
it, in which mode the token is read and what stands before and behind it. All a
mode can answer with agrees (`Mode.Answers.allAgree`), and the mode of a step
carries over to the tokens it reads (`kind_agrees`).

What stands behind a token can be of the same step, as for a call, or of a
later one. So agreement is stated with all that has been read before the step
and with anything behind it (`AllAgree`).
-/
import UnitLexer.Proofs.Strings

namespace UnitLexer

open Rule

/-! ## §1 The meaning of the kinds -/

/-- The modes in which the unit of a number is read. -/
def Mode.inQuantity : Mode → Bool
  | .root | .whitespace | .string _ => false
  | .expectUnit | .expectUnitAfterSpace | .unitExpression | .unitExponent | .unitGroup => true

/-- The lexeme is what its kind says, read in this mode, with these lexemes before
it and behind it. -/
def Agrees (ts : Tables) (m : Mode) (before : List Lexeme) (l : Lexeme) (after : List Lexeme) :
    Prop :=
  let word := String.ofList l.text
  match l.kind with
  | .keyword =>
    isName word = true ∧ (word ∈ ts.keywords ∨ word = "def" ∧
      ∃ gap name more, after = ⟨.space, gap⟩ :: ⟨.declaration, name⟩ :: more)
  | .identifier =>
    m = .root ∧ isName word = true ∧ word ∉ ts.keywords ∧ word ∉ ts.builtins ∧
        word ∉ ts.knownUnits ∨
      m = .unitGroup ∧ isUnitWord word = true ∧ ts.isUnit word = false
  | .builtin => isName word = true ∧ word ∈ ts.builtins ∧ word ∉ ts.keywords
  | .declaration =>
    isName word = true ∧
      ∃ earlier gap, before = earlier ++ [⟨.keyword, ['d', 'e', 'f']⟩, ⟨.space, gap⟩]
  | .call =>
    isName word = true ∧ word ∉ ts.keywords ∧ word ∉ ts.builtins ∧
      ∃ more, after = ⟨parenthesis, ['(']⟩ :: more ∨
        ∃ gap, (∀ c ∈ gap, isBlank c = true) ∧
          after = ⟨.space, gap⟩ :: ⟨parenthesis, ['(']⟩ :: more
  | .number => IsNumber l.text
  | .unit =>
    isUnitWord word = true ∧ (m = .root ∧ word ∈ ts.knownUnits ∨
      m.inQuantity = true ∧ ts.isUnit word = true)
  | .exponent => m = .unitExponent ∧ IsInteger l.text
  | .unitOperator => m.inQuantity = true ∧ l.text ∈ [['*'], ['/'], ['^']]
  | .operator => isSymbolRun word = true ∧ word ∈ ts.operators
  | .symbol => isSymbolRun word = true ∧ word ∉ ts.operators
  | .delimiter => l.text ∈ [[','], ['.'], [':']]
  | .bracket shape => l.text ∈ [[shape.opening], [shape.closing]]
  | .string =>
    ∃ quote, m = .string quote ∧ InString quote before ∧
      ∀ c ∈ l.text, c ≠ '\\' ∧ c ≠ quote.char ∧ c ≠ '\n'
  | .escape => ∃ c, c ≠ '\n' ∧ l.text = ['\\', c]
  | .quote => ∃ quote : Quote, l.text = [quote.char]
  | .brokenString =>
    l.text = ['\\'] ∨ ∃ (quote : Quote) (line : List Char), '\n' ∉ line ∧
      l.text = quote.char :: line
  | .comment => ∃ line, '\n' ∉ line ∧ l.text = '#' :: line
  | .space => l.text ≠ [] ∧ ∀ c ∈ l.text, isSpace c = true
  | .invalid => ∃ c, l.text = [c]

/-- Each of the lexemes is what its kind says. -/
def AllAgree (ts : Tables) (m : Mode) : List Lexeme → List Lexeme → List Lexeme → Prop
  | _, [], _ => True
  | before, l :: ls, after => Agrees ts m before l (ls ++ after) ∧
      AllAgree ts m (before ++ [l]) ls after

section

variable {ts : Tables} {m : Mode} {before after : List Lexeme}

theorem allAgree_singleton {l : Lexeme} (h : Agrees ts m before l after) :
    AllAgree ts m before [l] after :=
  ⟨h, trivial⟩

theorem AllAgree.of_split {us vs : List Lexeme} {l : Lexeme}
    (h : AllAgree ts m before (us ++ l :: vs) after) :
    Agrees ts m (before ++ us) l (vs ++ after) := by
  induction us generalizing before with
  | nil => simpa using h.1
  | cons u us ih => simpa using ih h.2

end

/-! ## §2 The answers of the modes -/

section

variable {ts : Tables} {m : Mode} {cs : List Char} {before after : List Lexeme}

theorem agrees_parenthesis {text : List Char} (h : text = ['('] ∨ text = [')']) :
    Agrees ts m before ⟨parenthesis, text⟩ after := by
  rcases h with rfl | rfl <;> simp [Agrees, parenthesis, Bracket.opening, Bracket.closing]

theorem agrees_takeWhile_space {p : Char → Bool} (hp : ∀ c, p c = true → isSpace c = true)
    (hne : cs.takeWhile p ≠ []) : Agrees ts m before ⟨.space, cs.takeWhile p⟩ after :=
  ⟨hne, fun c hc => hp c (List.all_eq_true.mp List.all_takeWhile c hc)⟩

/-- What is read as a unit in a quantity is a unit word that reads as one. -/
theorem agrees_leadingUnit (hm : m.inQuantity = true) (h : leadingUnit ts cs ≠ []) :
    Agrees ts m before ⟨.unit, leadingUnit ts cs⟩ after := by
  unfold leadingUnit at h ⊢
  dsimp only at h ⊢
  split at h
  · next hunit =>
    rw [if_pos hunit]
    exact ⟨isUnitWord_leadingUnitWord h, .inr ⟨hm, hunit.2⟩⟩
  · exact absurd rfl h

theorem agrees_unitSign {c : Char} (hm : m.inQuantity = true) (hc : c ∈ ['*', '/', '^']) :
    Agrees ts m before ⟨.unitOperator, [c]⟩ after :=
  ⟨hm, by simpa using hc⟩

end

namespace Mode

variable {ts : Tables} {cs text : List Char} {m : Mode} {k : Kind} {t : Transition}

/-- What a mode finds agrees with its kind, in a string behind the quote that has
opened it. -/
theorem Finds.agrees (h : m.Finds ts cs k text t) {before : List Lexeme} (after : List Lexeme)
    (hstring : ∀ quote, m = .string quote → InString quote before) :
    Agrees ts m before ⟨k, text⟩ after := by
  cases h with
  | comment hcs => exact ⟨_, notMem_takeWhile rfl, rfl⟩
  | number hne => exact isNumber_leadingNumber hne
  | keyword hne hkeyword => exact ⟨isName_leadingName hne, .inl hkeyword⟩
  | builtin hne hkeyword hbuiltin => exact ⟨isName_leadingName hne, hbuiltin, hkeyword⟩
  | knownUnit hne hknown => exact ⟨isUnitWord_leadingUnitWord hne, .inl ⟨rfl, hknown⟩⟩
  | knownName hne _ hknown => exact ⟨isUnitWord_leadingName hne, .inl ⟨rfl, hknown⟩⟩
  | name hne hkeyword hbuiltin hknown =>
    exact .inl ⟨rfl, isName_leadingName hne, hkeyword, hbuiltin, hknown⟩
  | space _ hne => exact agrees_takeWhile_space (fun _ => id) hne
  | gap hne | blank _ hne => exact agrees_takeWhile_space (fun _ => isSpace_of_isBlank) hne
  | @brokenString quote tail text _ htext =>
    refine .inr ⟨quote, text, fun hn => ?_, rfl⟩
    rw [eq_takeWhile_of_unclosedTail? htext] at hn
    exact notMem_takeWhile rfl hn
  | @stringOpening quote => exact ⟨quote, rfl⟩
  | delimiter hcs hc => simpa [Agrees] using hc
  | bracket hcs hshape =>
    have hc := List.find?_some hshape
    simp only [Bool.or_eq_true, beq_iff_eq] at hc
    rcases hc with rfl | rfl <;> simp [Agrees]
  | operator hne hlisted => exact ⟨by simp [isSymbolRun, hne], hlisted⟩
  | symbol hne hlisted => exact ⟨by simp [isSymbolRun, hne], hlisted⟩
  | @stringText quote hne =>
    exact ⟨quote, rfl, hstring quote rfl,
      fun c hc => isPlain_iff.mp (List.all_eq_true.mp List.all_takeWhile c hc)⟩
  | @stringEscape quote c tail _ hc => exact ⟨c, hc, rfl⟩
  | @stringClosing quote => exact ⟨quote, rfl⟩
  | danglingBackslash => exact .inl rfl
  | firstUnit hm hne | unit hm hne =>
    exact agrees_leadingUnit (by rcases hm with rfl | rfl <;> rfl) hne
  | firstGroup | group | nestedGroup => exact agrees_parenthesis (.inl rfl)
  | groupClosing => exact agrees_parenthesis (.inr rfl)
  | product hm _ hc =>
    exact agrees_unitSign (by rcases hm with rfl | rfl <;> rfl) (List.mem_of_mem_take (i := 2) hc)
  | power hm => exact agrees_unitSign (by rcases hm with rfl | rfl <;> rfl) (by simp)
  | noExponent _ hc => exact agrees_unitSign rfl (List.mem_of_mem_take (i := 2) hc)
  | groupName hne hunit => exact .inr ⟨rfl, isUnitWord_leadingUnitWord hne, hunit⟩
  | exponent hne => exact ⟨rfl, isInteger_leadingInteger hne⟩

/-- A name that is called agrees however its parenthesis is separated from it. -/
theorem Called.agrees (h : Called ts (leadingName cs) k) {before more after : List Lexeme}
    (hafter : after = ⟨parenthesis, ['(']⟩ :: more ∨ ∃ gap, (∀ c ∈ gap, isBlank c = true) ∧
      after = ⟨.space, gap⟩ :: ⟨parenthesis, ['(']⟩ :: more) :
    Agrees ts m before ⟨k, leadingName cs⟩ after := by
  cases h with
  | builtin hne hkeyword hbuiltin => exact ⟨isName_leadingName hne, hbuiltin, hkeyword⟩
  | plain hne hkeyword hbuiltin => exact ⟨isName_leadingName hne, hkeyword, hbuiltin, more, hafter⟩

/-- All that a mode answers with agrees with its kinds. -/
theorem Answers.allAgree {s : Step} (h : m.Answers ts cs s) {before : List Lexeme}
    (after : List Lexeme) (hstring : ∀ quote, m = .string quote → InString quote before) :
    AllAgree ts m before s.lexemes after := by
  cases h with
  | one hfinds => exact allAgree_singleton (hfinds.agrees after hstring)
  | @declaration tail gap name _ hgap hname hgap_ne hname_ne =>
    subst hname
    have hdef : Agrees ts .root before ⟨.keyword, ['d', 'e', 'f']⟩
        (⟨.space, gap⟩ :: ⟨.declaration, leadingName (tail.drop gap.length)⟩ :: after) :=
      ⟨by decide, .inr ⟨by decide, _, _, after, rfl⟩⟩
    have hspace : Agrees ts .root (before ++ [⟨.keyword, ['d', 'e', 'f']⟩]) ⟨.space, gap⟩
        (⟨.declaration, leadingName (tail.drop gap.length)⟩ :: after) := by
      rw [hgap] at hgap_ne ⊢
      exact agrees_takeWhile_space (fun _ => id) hgap_ne
    exact ⟨hdef, hspace, ⟨isName_leadingName hname_ne, before, gap, List.append_assoc ..⟩, trivial⟩
  | call hcalled =>
    exact ⟨hcalled.agrees (.inl rfl), agrees_parenthesis (.inl rfl), trivial⟩
  | @spacedCall k gap hcalled hgap hgap_ne =>
    subst hgap
    have hblank : ∀ c ∈ (cs.drop (leadingName cs).length).takeWhile isBlank, isBlank c = true :=
      fun c hc => List.all_eq_true.mp List.all_takeWhile c hc
    exact ⟨hcalled.agrees (.inr ⟨_, hblank, rfl⟩),
      agrees_takeWhile_space (fun _ => isSpace_of_isBlank) hgap_ne, agrees_parenthesis (.inl rfl),
      trivial⟩
  | handBack => trivial

end Mode

/-- What the lexer reads in a step agrees with the settled mode it is read in. -/
theorem allAgree_advance {ts : Tables} {c : Char} {cs : List Char} {frames : List Mode}
    {before : List Lexeme} (after : List Lexeme)
    (hstring : ∀ quote, currentMode (settle ts (c :: cs) frames) = .string quote →
      InString quote before) :
    AllAgree ts (currentMode (settle ts (c :: cs) frames)) before (advance ts c cs frames).1
      after := by
  rcases advance_cases ts c cs frames with ⟨s, hs, -, hadv⟩ | ⟨-, hadv⟩
  · rw [hadv]
    exact (Mode.answers_of_step? hs).allAgree after hstring
  · rw [hadv]
    exact allAgree_singleton ⟨c, rfl⟩

/-! ## §3 The tokens of a source -/

section

variable {ts : Tables} {source : String} {before after : List Lexeme} {l : Lexeme}

/-- Every token is what its kind says, in the mode it is read in. -/
theorem agrees_of_readIn (h : lexemes ts source = before ++ l :: after) {m : Mode}
    (hm : ReadIn ts source before.length m) : Agrees ts m before l after := by
  obtain ⟨k, hle, hlt, rfl⟩ := hm
  obtain ⟨c, cs, us, vs, more, hr, hls, rfl, rfl⟩ := lexemes_of_step h hle hlt
  have hsettled : (Lexer.atStep ts source k).settledFrames =
      settle ts (c :: cs) (Lexer.atStep ts source k).state.frames := by
    rw [Lexer.settledFrames, Lexer.tables_atStep, hr]
  rw [hsettled]
  have hstring : ∀ quote, currentMode (settle ts (c :: cs)
      (Lexer.atStep ts source k).state.frames) = .string quote →
      InString quote (Lexer.atStep ts source k).readSoFar := by
    intro quote hq
    obtain ⟨hopen, hin⟩ := stringsEnd_atStep ts source k
    refine (hin quote ((settle_isSuffix ts (c :: cs) _).subset ?_)).2
    cases hset : settle ts (c :: cs) (Lexer.atStep ts source k).state.frames with
    | nil =>
      rw [hset] at hq
      contradiction
    | cons m below =>
      rw [hset] at hq
      exact hq ▸ List.mem_cons_self
  have hall := allAgree_advance more hstring
  rw [hls] at hall
  exact hall.of_split

end

/-- Every token of a source is read in some mode, and is what its kind says for
a token read in that mode, at that place among the others. -/
theorem kind_agrees {ts : Tables} {source : String} {before after : List Lexeme} {l : Lexeme}
    (h : lexemes ts source = before ++ l :: after) :
    (∃ m, ReadIn ts source before.length m) ∧
      ∀ m, ReadIn ts source before.length m → Agrees ts m before l after := by
  refine ⟨?_, fun m => agrees_of_readIn h⟩
  obtain ⟨k, hle, hlt⟩ := exists_step_of_lexemes h
  exact ⟨_, k, hle, hlt, rfl⟩

theorem declared_name_agrees :
    lexemes .standard "def f" =
      [⟨.keyword, ['d', 'e', 'f']⟩, ⟨.space, [' ']⟩] ++ [⟨.declaration, ['f']⟩] ∧
    ∃ m, ReadIn .standard "def f" 2 m ∧
      Agrees .standard m [⟨.keyword, ['d', 'e', 'f']⟩, ⟨.space, [' ']⟩] ⟨.declaration, ['f']⟩
        [] := by
  have htokens : lexemes .standard "def f" =
      [⟨.keyword, ['d', 'e', 'f']⟩, ⟨.space, [' ']⟩] ++ [⟨.declaration, ['f']⟩] := by decide
  obtain ⟨⟨m, hm⟩, hagrees⟩ := kind_agrees htokens
  exact ⟨htokens, m, hm, hagrees m hm⟩

end UnitLexer
