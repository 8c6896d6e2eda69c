/-
UnitLexer.Text.Leading — runs of characters at the start of a text.

Scanning functions of this library take a text and answer with what stands at
its start, the empty list for nothing. What they answer is a prefix of the
text; runs found one behind the other make a prefix together
(`append_isPrefix`). A run is as long as it can be: it is found whole where a
character outside its class follows it (`leadingRun_append`), and no other
character follows it (`other_eq_false_of_leadingRun`).
-/

namespace UnitLexer

/-- The longest run at the start of the text whose first character is in one
class and the others in a second one. -/
def leadingRun (first other : Char → Bool) : List Char → List Char
  | [] => []
  | c :: cs => if first c then c :: cs.takeWhile other else []

theorem leadingRun_isPrefix (first other : Char → Bool) (cs : List Char) :
    leadingRun first other cs <+: cs := by
  cases cs with
  | nil => simp [leadingRun]
  | cons c cs =>
    by_cases h : first c
    · simpa [leadingRun, h] using List.takeWhile_prefix other
    · simp [leadingRun, h]

/-- A run is found whole if what follows it does not continue it. -/
theorem leadingRun_append {first other : Char → Bool} {c : Char} {cs rest : List Char}
    (hc : first c = true) (hcs : ∀ d ∈ cs, other d = true)
    (hrest : ∀ d, rest.head? = some d → other d = false) :
    leadingRun first other (c :: cs ++ rest) = c :: cs := by
  have stops : rest.takeWhile other = [] := by
    cases rest with
    | nil => rfl
    | cons d ds => simp [hrest d rfl]
  simp [leadingRun, hc, List.takeWhile_append_of_pos hcs, stops]

/-- What follows a run does not continue it. -/
theorem other_eq_false_of_leadingRun {first other : Char → Bool} {c : Char} {cs rest : List Char}
    (h : leadingRun first other cs ++ c :: rest = cs) (hne : leadingRun first other cs ≠ []) :
    other c = false := by
  cases cs with
  | nil => simp [leadingRun] at hne
  | cons d ds =>
    by_cases hd : first d
    · simp only [leadingRun, hd, if_true, List.cons_append, List.cons.injEq, true_and] at h
      have hdrop : ds.dropWhile other = c :: rest :=
        List.append_cancel_left (List.takeWhile_append_dropWhile.trans h.symm)
      simpa [hdrop] using List.head?_dropWhile_not other ds
    · simp [leadingRun, hd] at hne

/-- A run that starts where a prefix ends makes a longer prefix. -/
theorem append_isPrefix {as bs cs : List Char} (ha : as <+: cs) (hb : bs <+: cs.drop as.length) :
    as ++ bs <+: cs := by
  obtain ⟨ds, rfl⟩ := ha
  obtain ⟨es, he⟩ := hb
  exact ⟨es, by simpa using he⟩

end UnitLexer
