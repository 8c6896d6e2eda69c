/-
UnitLexer.Rule.Name — declarations, calls and bare words.

These rules belong to the root mode. A name is classified by what follows it
(a call), by what stands before it (a declaration) and by the tables.
-/
import UnitLexer.Rule.Basic
import UnitLexer.Word

namespace UnitLexer.Rule

/-- `def`, white space and a name. The white space may hold line breaks. -/
def declaration : Rule
  | _, 'd' :: 'e' :: 'f' :: cs =>
    let gap := cs.takeWhile isSpace
    let name := leadingName (cs.drop gap.length)
    if gap = [] ∨ name = [] then none
    else some ⟨[⟨.keyword, ['d', 'e', 'f']⟩, ⟨.space, gap⟩, ⟨.declaration, name⟩], .stay⟩
  | _, _ => none

/-- A name, perhaps blanks, and an opening parenthesis. Keywords are left to
the next rule, so that `if (x)` calls nothing. -/
def call : Rule := fun ts cs =>
  let name := leadingName cs
  let gap := (cs.drop name.length).takeWhile isBlank
  if name = [] ∨ String.ofList name ∈ ts.keywords then none
  else if (cs.drop (name.length + gap.length)).head? = some '(' then
    let kind := if String.ofList name ∈ ts.builtins then Kind.builtin else Kind.call
    some (.several [⟨kind, name⟩, ⟨.space, gap⟩, ⟨.bracket .parenthesis, ['(']⟩] .stay)
  else none

/-- A word: a keyword, a builtin, a known unit or a plain name, in that order.
Known units are looked up by the whole unit word first, so that `Ω` can be
one, and then by the name alone. -/
def word : Rule := fun ts cs =>
  let name := leadingName cs
  let unit := leadingUnitWord cs
  if name ≠ [] ∧ String.ofList name ∈ ts.keywords then some (.one .keyword name .stay)
  else if name ≠ [] ∧ String.ofList name ∈ ts.builtins then some (.one .builtin name .stay)
  else if unit ≠ [] ∧ String.ofList unit ∈ ts.knownUnits then some (.one .unit unit .stay)
  else if name ≠ [] ∧ String.ofList name ∈ ts.knownUnits then some (.one .unit name .stay)
  else Step.one? .identifier name .stay

/-! ## What the rules take is there -/

theorem faithful_declaration : Faithful declaration := by
  intro ts cs s h
  unfold declaration at h
  split at h
  · next cs =>
    dsimp only at h
    split at h
    · contradiction
    · next hne =>
      obtain rfl := Option.some.inj h
      have := append_isPrefix (List.takeWhile_prefix isSpace)
        (leadingName_isPrefix (cs.drop (cs.takeWhile isSpace).length))
      simp only [not_or] at hne
      exact ⟨by simpa [Step.text, textOf] using this, by simp [hne]⟩
  · contradiction

theorem faithful_call : Faithful call := by
  intro ts cs s h
  unfold call at h
  dsimp only at h
  split at h
  · contradiction
  · split at h
    · next hp =>
      obtain rfl := Option.some.inj h
      have gap := append_isPrefix (leadingName_isPrefix cs)
        (List.takeWhile_prefix isBlank (l := cs.drop (leadingName cs).length))
      have paren : ['('] <+: cs.drop (leadingName cs ++
          (cs.drop (leadingName cs).length).takeWhile isBlank).length := by
        rw [List.length_append]
        obtain ⟨ds, hd⟩ := List.head?_eq_some_iff.mp hp
        exact ⟨ds, by rw [hd]; rfl⟩
      refine Step.takes_several ?_
      simpa [textOf] using append_isPrefix gap paren
    · contradiction

theorem faithful_word : Faithful word := by
  intro ts cs s h
  unfold word at h
  dsimp only at h
  split at h
  · next hn =>
    obtain rfl := Option.some.inj h
    exact Step.takes_one (leadingName_isPrefix cs) hn.1
  · split at h
    · next hn =>
      obtain rfl := Option.some.inj h
      exact Step.takes_one (leadingName_isPrefix cs) hn.1
    · split at h
      · next hn =>
        obtain rfl := Option.some.inj h
        exact Step.takes_one (leadingUnitWord_isPrefix cs) hn.1
      · split at h
        · next hn =>
          obtain rfl := Option.some.inj h
          exact Step.takes_one (leadingName_isPrefix cs) hn.1
        · exact Step.takes_of_one? (leadingName_isPrefix cs) h

end UnitLexer.Rule
