/-
UnitLexer.Proofs.Sorting — what a stable sort leaves as it was.

Entries are sorted in two places: prefixes go longest first before the rules
try them, and listings go by code points. Both sorts are the library's
insertion sort (`sortBy_eq_insertionSort`), and three of its properties are
used. The result is in order; elements that the order does not separate stay as
they stood (`filter_sortBy`), which is what the declared order of prefixes
means; and a list that is in order already does not change (`sortBy_eq_self`),
which is why a listing can be listed again.
-/
import Mathlib.Data.List.Sort
import UnitLexer.Tables.Sorting

namespace UnitLexer

variable {α : Type} {le : α → α → Bool} {as bs : List α}

theorem insertBy_eq_orderedInsert (le : α → α → Bool) (a : α) (bs : List α) :
    insertBy le a bs = bs.orderedInsert (fun x y => le x y = true) a := by
  induction bs with
  | nil => rfl
  | cons b bs ih => simp only [insertBy, List.orderedInsert_cons, ih]

/-- Sorting is insertion sort. -/
theorem sortBy_eq_insertionSort (le : α → α → Bool) (as : List α) :
    sortBy le as = as.insertionSort fun x y => le x y = true := by
  induction as with
  | nil => rfl
  | cons a as ih => rw [sortBy, List.insertionSort_cons, insertBy_eq_orderedInsert, ih]

/-- A sorted list is in order. -/
theorem pairwise_sortBy (total : ∀ a b, le a b = true ∨ le b a = true)
    (trans : ∀ a b c, le a b = true → le b c = true → le a c = true) (as : List α) :
    (sortBy le as).Pairwise fun a b => le a b = true := by
  have : Std.Total fun a b => le a b = true := ⟨total⟩
  have : IsTrans α fun a b => le a b = true := ⟨trans⟩
  rw [sortBy_eq_insertionSort]
  exact List.pairwise_insertionSort _ as

/-- A list in order is not changed. -/
theorem sortBy_eq_self (h : as.Pairwise fun a b => le a b = true) : sortBy le as = as := by
  rw [sortBy_eq_insertionSort]
  exact h.insertionSort_eq

/-- Elements that may all precede one another keep the order they came in. -/
theorem filter_sortBy {p : α → Bool} (h : ∀ a b, p a = true → p b = true → le a b = true) :
    (sortBy le as).filter p = as.filter p := by
  have hsorted : (as.filter p).Pairwise fun a b => le a b = true :=
    List.pairwise_of_forall_mem_list fun a ha b hb =>
      h a b (List.mem_filter.mp ha).2 (List.mem_filter.mp hb).2
  have hsub : (as.filter p).Sublist (sortBy le as) := by
    rw [sortBy_eq_insertionSort]
    exact List.sublist_insertionSort hsorted List.filter_sublist
  have hfilter : (as.filter p).Sublist ((sortBy le as).filter p) := by
    simpa using hsub.filter p
  exact (hfilter.eq_of_length ((sortBy_perm le as).filter p).length_eq.symm).symm

end UnitLexer
