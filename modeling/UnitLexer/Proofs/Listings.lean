/-
UnitLexer.Proofs.Listings — what edited lists become, and that a listing is a
faithful dump of the tables.

Whatever edits have been made, no table lists an entry twice. Making the tables
keeps every entry; only the prefixes move, and among those of one length the
declared order decides. A listing goes by code points where the order of
entries is of no consequence and shows the prefixes as they are tried. That is
why it can be read back: lists that are replaced by a listing make tables that
list, and lex, the same (`tables_of_edits`).
-/
import UnitLexer.Proofs.Edits
import UnitLexer.Proofs.Readings

namespace UnitLexer

variable {ts : Tables} {ls : WordLists} {t : Table}

/-! ## §1 Listings of tables -/

theorem Tables.listing_of_ne (h : t ≠ .siPrefixes) :
    ts.listing t = sortBy (fun a b => decide (a ≤ b)) (ts.entries t) := by
  cases t <;> first | rfl | contradiction

/-- A listing shows every entry as often as it is there. -/
theorem Tables.listing_perm (ts : Tables) (t : Table) : (ts.listing t).Perm (ts.entries t) := by
  by_cases h : t = .siPrefixes
  · subst h
    exact .refl _
  · rw [listing_of_ne h]
    exact sortBy_perm _ _

/-- What is listed by code points does not change when it is sorted again. -/
theorem Tables.sortBy_listing (h : t ≠ .siPrefixes) :
    sortBy (fun a b => decide (a ≤ b)) (ts.listing t) = ts.listing t := by
  rw [listing_of_ne h]
  refine sortBy_eq_self (pairwise_sortBy (fun a b => ?_) (fun a b c hab hbc => ?_) _)
  · simpa using String.le_total a b
  · exact decide_eq_true (String.le_trans (of_decide_eq_true hab) (of_decide_eq_true hbc))

namespace WordLists

theorem entries_toTables_of_ne (h : t ≠ .siPrefixes) : ls.toTables.entries t = ls.entries t := by
  cases t <;> first | rfl | contradiction

theorem entries_toTables_perm (ls : WordLists) (t : Table) :
    (ls.toTables.entries t).Perm (ls.entries t) := by
  by_cases h : t = .siPrefixes
  · subst h
    exact sortBy_perm _ _
  · rw [entries_toTables_of_ne h]

theorem NoRepeats.nodup_listing (h : ls.NoRepeats) (t : Table) : (ls.toTables.listing t).Nodup :=
  ((ls.toTables.listing_perm t).trans (ls.entries_toTables_perm t)).nodup_iff.mpr (h t)

/-- Prefixes of one length stay in the order they were declared in. -/
theorem filter_siPrefixes (ls : WordLists) (n : Nat) :
    ls.toTables.siPrefixes.filter (·.length = n) =
      (ls.entries .siPrefixes).filter (·.length = n) := by
  refine filter_sortBy fun p q hp hq => ?_
  simp only [decide_eq_true_eq] at hp hq
  simp [longerFirst, hp, hq]

/-! ## §2 Lists that are replaced by a listing -/

/-- The lists after every one of them has been replaced. -/
def relisted (ls : WordLists) (listing : Table → List String) : WordLists :=
  ls.edited (Table.all.map fun t => ⟨.replace, t, listing t⟩)

@[simp] theorem entries_relisted (ls : WordLists) (listing : Table → List String) (t : Table) :
    (ls.relisted listing).entries t = (listing t).eraseDups := by
  unfold relisted edited
  rw [List.foldl_map]
  exact entries_foldl_all (g := fun t _ => (listing t).eraseDups)
    (fun t ls u => ls.entries_apply ⟨.replace, t, listing t⟩ u) ls t

section

variable (base : WordLists)

/-- Nothing is listed twice, so the new contents are the listing itself. -/
theorem NoRepeats.entries_relisted (h : ls.NoRepeats) (t : Table) :
    (base.relisted ls.toTables.listing).entries t = ls.toTables.listing t := by
  rw [WordLists.entries_relisted, eraseDups_eq_self (h.nodup_listing t)]

/-- Prefixes that are longest first already stay where they are. -/
theorem NoRepeats.siPrefixes_relisted (h : ls.NoRepeats) :
    (base.relisted ls.toTables.listing).toTables.siPrefixes = ls.toTables.siPrefixes := by
  have hlisted := h.entries_relisted base .siPrefixes
  have hfirst : ls.toTables.siPrefixes.Pairwise fun p q => longerFirst p q = true :=
    pairwise_sortBy longerFirst_total longerFirst_trans _
  rw [toTables, hlisted]
  exact sortBy_eq_self hfirst

theorem NoRepeats.listing_relisted (h : ls.NoRepeats) :
    (base.relisted ls.toTables.listing).toTables.listing = ls.toTables.listing := by
  funext t
  by_cases ht : t = .siPrefixes
  · subst ht
    exact h.siPrefixes_relisted base
  · rw [Tables.listing_of_ne ht, entries_toTables_of_ne ht, h.entries_relisted,
      Tables.sortBy_listing ht]

theorem NoRepeats.sameEntries_relisted (h : ls.NoRepeats) :
    (base.relisted ls.toTables.listing).toTables.SameEntries ls.toTables := by
  intro t e
  rw [mem_entries_toTables, h.entries_relisted, (ls.toTables.listing_perm t).mem_iff]

end

/-! ## §3 Edited lists -/

/-- After any edits of the standard lists no table lists an entry twice, and one
more edit changes the table it names and no other. The tables hold exactly the
entries of the lists. Their prefixes are the declared ones with the longest
first, in the declared order where the lengths are equal. Lists that are
replaced by the listing of the tables, whatever they were, make tables with the
same listing, the same order of prefixes and the same tokens for every source. -/
theorem tables_of_edits (edits : List Edit) (hls : ls = standard.edited edits) :
    ls.NoRepeats ∧
    (∀ e t, (ls.apply e).entries t =
      if t = e.table then e.result (ls.entries e.table) else ls.entries t) ∧
    (∀ t word, word ∈ ls.toTables.entries t ↔ word ∈ ls.entries t) ∧
    ls.toTables.siPrefixes.Perm (ls.entries .siPrefixes) ∧
    (ls.toTables.siPrefixes.Pairwise fun p q => q.length ≤ p.length) ∧
    (∀ n, ls.toTables.siPrefixes.filter (·.length = n) =
      (ls.entries .siPrefixes).filter (·.length = n)) ∧
    ∀ base : WordLists,
      (base.relisted ls.toTables.listing).toTables.listing = ls.toTables.listing ∧
      (base.relisted ls.toTables.listing).toTables.siPrefixes = ls.toTables.siPrefixes ∧
      ∀ source, tokenize (base.relisted ls.toTables.listing).toTables source =
        tokenize ls.toTables source := by
  have hnodup : ls.NoRepeats := hls ▸ noRepeats_standard.edited edits
  refine ⟨hnodup, ls.entries_apply, ls.mem_entries_toTables,
    ls.entries_toTables_perm .siPrefixes, ls.longestFirst_toTables, ls.filter_siPrefixes,
    fun base => ⟨hnodup.listing_relisted base, hnodup.siPrefixes_relisted base, ?_⟩⟩
  exact (hnodup.sameEntries_relisted base).tokenize_eq

/-- Two binary prefixes behind the decimal ones, one of them declared twice. They
go behind `da`, which is as long, and before everything shorter. -/
theorem tables_of_binary_prefixes :
    ((standard.edited [⟨.add, .siPrefixes, ["Ki", "Mi", "Ki"]⟩]).entries .siPrefixes).drop 20 =
      ["y", "Ki", "Mi"] ∧
    (standard.edited [⟨.add, .siPrefixes, ["Ki", "Mi", "Ki"]⟩]).NoRepeats ∧
    (standard.edited [⟨.add, .siPrefixes, ["Ki", "Mi", "Ki"]⟩]).toTables.siPrefixes.take 4 =
      ["da", "Ki", "Mi", "Y"] ∧
    (standard.relisted
        (standard.edited [⟨.add, .siPrefixes, ["Ki", "Mi", "Ki"]⟩]).toTables.listing
      ).toTables.siPrefixes.take 4 = ["da", "Ki", "Mi", "Y"] := by
  obtain ⟨hnodup, -, -, -, -, -, hlisting⟩ :=
    tables_of_edits [⟨.add, .siPrefixes, ["Ki", "Mi", "Ki"]⟩] rfl
  have hfirst : (standard.edited [⟨.add, .siPrefixes, ["Ki", "Mi", "Ki"]⟩]
      ).toTables.siPrefixes.take 4 = ["da", "Ki", "Mi", "Y"] := by decide
  refine ⟨by decide, hnodup, hfirst, ?_⟩
  rw [(hlisting standard).2.1, hfirst]

end WordLists

end UnitLexer
