/-
UnitLexer.Tables.Sorting — a stable sort.

Elements that the order does not separate keep the order they came in: among
SI prefixes of one length the declared order decides which is tried first.
-/

namespace UnitLexer

variable {α : Type}

/-- Puts an element in front of the first one it may precede. -/
def insertBy (le : α → α → Bool) (a : α) : List α → List α
  | [] => [a]
  | b :: bs => if le a b then a :: b :: bs else b :: insertBy le a bs

/-- The elements in ascending order, equal ones in the order given. -/
def sortBy (le : α → α → Bool) : List α → List α
  | [] => []
  | a :: as => insertBy le a (sortBy le as)

theorem insertBy_perm (le : α → α → Bool) (a : α) (bs : List α) :
    (insertBy le a bs).Perm (a :: bs) := by
  induction bs with
  | nil => exact .refl _
  | cons b bs ih =>
    by_cases h : le a b
    · simp [insertBy, h]
    · simpa [insertBy, h] using (ih.cons b).trans (.swap a b bs)

/-- Sorting keeps every element. -/
theorem sortBy_perm (le : α → α → Bool) (as : List α) : (sortBy le as).Perm as := by
  induction as with
  | nil => exact .refl _
  | cons a as ih => exact (insertBy_perm le a _).trans (ih.cons a)

@[simp] theorem mem_sortBy {le : α → α → Bool} {a : α} {as : List α} : a ∈ sortBy le as ↔ a ∈ as :=
  (sortBy_perm le as).mem_iff

end UnitLexer
