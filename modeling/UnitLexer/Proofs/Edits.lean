/-
UnitLexer.Proofs.Edits — what edits do to the lists of entries.

Adding goes entry by entry and looks at what is there already. All of it at
once puts the new entries, each where it first occurs, behind the old ones
(`foldl_insertEntry`). Every edit touches the one table that it names, and no
edit lists an entry twice: since the standard lists do not either, nor does
anything that is made of them by editing (`NoRepeats.edited`).
-/
import Mathlib.Data.List.Nodup
import UnitLexer.Tables.WordLists

namespace UnitLexer.WordLists

/-! ## §1 Adding to a list -/

section

variable {es xs : List String} {e : String}

/-- What is added are the new entries, each where it first occurs. -/
theorem foldl_insertEntry (es xs : List String) :
    es.foldl insertEntry xs = xs ++ (es.filter (· ∉ xs)).eraseDups := by
  induction es generalizing xs with
  | nil => simp
  | cons e es ih =>
    rw [List.foldl_cons, ih]
    by_cases h : e ∈ xs
    · simp [insertEntry, h]
    · -- The other occurrences of `e` are those that a second look leaves out.
      have hrest : es.filter (· ∉ xs ++ [e]) = (es.filter (· ∉ xs)).filter fun x => !x == e := by
        rw [List.filter_filter]
        refine List.filter_congr fun x _ => ?_
        by_cases hx : x ∈ xs <;> by_cases he : x = e <;> simp [hx, he]
      have hkept : (e :: es).filter (· ∉ xs) = e :: es.filter (· ∉ xs) := by simp [h]
      rw [insertEntry, if_neg h, hrest, hkept, List.eraseDups_cons, List.append_assoc,
        List.singleton_append]

theorem mem_foldl_insertEntry : e ∈ es.foldl insertEntry xs ↔ e ∈ xs ∨ e ∈ es := by
  rw [foldl_insertEntry, List.mem_append, List.mem_eraseDups, List.mem_filter, decide_eq_true_eq]
  tauto

theorem nodup_insertEntry (h : xs.Nodup) : (insertEntry xs e).Nodup := by
  unfold insertEntry
  split
  · exact h
  · next hnew => simpa using h.concat hnew

theorem nodup_foldl_insertEntry (es : List String) (h : xs.Nodup) :
    (es.foldl insertEntry xs).Nodup := by
  induction es generalizing xs with
  | nil => exact h
  | cons e es ih => exact ih (nodup_insertEntry h)

/-- A list without repetitions is kept as it is. -/
theorem eraseDups_eq_self (h : xs.Nodup) : xs.eraseDups = xs := by
  induction xs with
  | nil => rfl
  | cons x xs ih =>
    obtain ⟨hx, hxs⟩ := List.nodup_cons.mp h
    have hfilter : (xs.filter fun y => !y == x) = xs := by
      refine List.filter_eq_self.mpr fun y hy => ?_
      have hne : y ≠ x := fun hyx => hx (hyx ▸ hy)
      simpa using hne
    rw [List.eraseDups_cons, hfilter, ih hxs]

end

/-! ## §2 Edits of a table -/

variable (ls : WordLists) (t u : Table) (es : List String)

@[simp] theorem entries_add : (ls.add t es).entries u =
    if u = t then es.foldl insertEntry (ls.entries t) else ls.entries u := rfl

@[simp] theorem entries_remove : (ls.remove t es).entries u =
    if u = t then (ls.entries t).filter (· ∉ es) else ls.entries u := rfl

@[simp] theorem entries_replace : (ls.replace t es).entries u =
    if u = t then es.eraseDups else ls.entries u := by
  by_cases h : u = t
  · simp [replace, h, foldl_insertEntry]
  · simp [replace, h]

@[simp] theorem mem_entries_add {word : String} :
    word ∈ (ls.add t es).entries u ↔ word ∈ ls.entries u ∨ u = t ∧ word ∈ es := by
  by_cases h : u = t
  · subst h
    simp [mem_foldl_insertEntry]
  · simp [h]

@[simp] theorem mem_entries_remove {word : String} :
    word ∈ (ls.remove t es).entries u ↔ word ∈ ls.entries u ∧ ¬ (u = t ∧ word ∈ es) := by
  by_cases h : u = t
  · subst h
    simp
  · simp [h]

theorem ext_entries {ls ls' : WordLists} (h : ∀ t, ls.entries t = ls'.entries t) : ls = ls' := by
  cases ls
  cases ls'
  exact congrArg mk (funext h)

@[simp] theorem set_entries : ls.set t (ls.entries t) = ls := by
  refine ext_entries fun u => ?_
  rw [entries_set]
  split
  · next h => rw [h]
  · rfl

@[simp] theorem add_nil : ls.add t [] = ls :=
  ls.set_entries t

@[simp] theorem remove_nil : ls.remove t [] = ls := by
  simp [remove]

/-- The entries that an edit makes of those its table holds. -/
def Edit.result (e : Edit) (xs : List String) : List String :=
  match e.action with
  | .replace => e.entries.eraseDups
  | .add => xs ++ (e.entries.filter (· ∉ xs)).eraseDups
  | .remove => xs.filter (· ∉ e.entries)

/-- An edit is about the table it names and leaves all others alone. -/
theorem entries_apply (ls : WordLists) (e : Edit) (t : Table) : (ls.apply e).entries t =
    if t = e.table then e.result (ls.entries e.table) else ls.entries t := by
  obtain ⟨action, u, es⟩ := e
  cases action <;> simp [apply, Edit.result, foldl_insertEntry]

/-! ## §3 Sequences of edits -/

/-- The lists after some edits, the first one first. -/
def edited (ls : WordLists) (edits : List Edit) : WordLists :=
  edits.foldl apply ls

/-- No table lists an entry twice. -/
def NoRepeats (ls : WordLists) : Prop :=
  ∀ t, (ls.entries t).Nodup

theorem noRepeats_standard : standard.NoRepeats := by
  intro t
  cases t <;> decide

theorem Edit.nodup_result (e : Edit) {xs : List String} (h : xs.Nodup) : (e.result xs).Nodup := by
  unfold result
  split
  · simpa [foldl_insertEntry] using nodup_foldl_insertEntry e.entries List.nodup_nil
  · rw [← foldl_insertEntry]
    exact nodup_foldl_insertEntry e.entries h
  · exact h.filter _

/-- An edit repeats no entry. -/
theorem NoRepeats.apply {ls : WordLists} (h : ls.NoRepeats) (e : Edit) : (ls.apply e).NoRepeats := by
  intro t
  rw [entries_apply]
  split
  · exact e.nodup_result (h e.table)
  · exact h t

/-- Nor do any number of them. -/
theorem NoRepeats.edited {ls : WordLists} (h : ls.NoRepeats) (edits : List Edit) :
    (ls.edited edits).NoRepeats := by
  induction edits generalizing ls with
  | nil => exact h
  | cons e edits ih => exact ih (h.apply e)

/-- Where every step is about one table, going through tables one after the
other takes each of them to what its step makes of it. -/
theorem entries_foldl {f : Table → WordLists → WordLists} {g : Table → List String → List String}
    (hf : ∀ t ls u, (f t ls).entries u = if u = t then g t (ls.entries t) else ls.entries u)
    {ts : List Table} (hts : ts.Nodup) (ls : WordLists) (u : Table) :
    (ts.foldl (fun ls t => f t ls) ls).entries u =
      if u ∈ ts then g u (ls.entries u) else ls.entries u := by
  induction ts generalizing ls with
  | nil => rfl
  | cons t ts ih =>
    obtain ⟨ht, hts⟩ := List.nodup_cons.mp hts
    rw [List.foldl_cons, ih hts, hf]
    by_cases hu : u = t
    · subst hu
      simp [ht]
    · simp [hu]

/-- So for all tables. -/
theorem entries_foldl_all {f : Table → WordLists → WordLists}
    {g : Table → List String → List String}
    (hf : ∀ t ls u, (f t ls).entries u = if u = t then g t (ls.entries t) else ls.entries u)
    (ls : WordLists) (t : Table) :
    (Table.all.foldl (fun ls t => f t ls) ls).entries t = g t (ls.entries t) := by
  rw [entries_foldl hf (by decide), if_pos t.mem_all]

end UnitLexer.WordLists
