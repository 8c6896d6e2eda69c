/-
UnitLexer.Proofs.Readings — how a word reads as a unit.

A reading is found by trying prefixes in the order they are listed in, and the
first one that fits wins. What it should be is a matter of all the ways to
split the word (`Tables.Splits`): the one with the longest prefix, and the word
as it stands only where there is none (`Tables.ReadsAs`). The two agree because
tables are made with the longest prefixes first. Prefixes of one length that
both fit are the same prefix, so the order they were declared in is of no
consequence, and neither is the order of anything else that was added: readings
and tokens depend on the sets of entries alone (`reads_with_longest_prefix`).
-/
import UnitLexer.Proofs.Lookups
import UnitLexer.Proofs.Sorting

namespace UnitLexer

namespace Tables

variable {ts ts' : Tables} {word p q b c : String} {r r' : Reading}

/-! ## §1 What a reading should be -/

/-- The word is a prefix of the tables and behind it one of their base units. -/
structure Splits (ts : Tables) (word p b : String) : Prop where
  prefix_mem : p ∈ ts.siPrefixes
  base_mem : b ∈ ts.baseUnits
  base_ne : b ≠ ""
  word_eq : word = p ++ b

/-- The reading of the word: a split with the longest prefix, or the whole word
where it has no split. -/
inductive ReadsAs (ts : Tables) (word : String) : Reading → Prop where
  | split {p b : String} (h : ts.Splits word p b)
      (longest : ∀ q c, ts.Splits word q c → q.length ≤ p.length) : ReadsAs ts word ⟨some p, b⟩
  | whole (h : word ∈ ts.baseUnits ∨ word ∈ ts.otherUnits)
      (unsplit : ∀ p b, ¬ ts.Splits word p b) : ReadsAs ts word ⟨none, word⟩

/-- Splits with prefixes of one length are the same. -/
theorem Splits.eq_of_length_eq (h : ts.Splits word p b) (h' : ts.Splits word q c)
    (hlen : p.length = q.length) : p = q ∧ b = c := by
  have hchars : p.toList ++ b.toList = q.toList ++ c.toList := by
    rw [← String.toList_append, ← String.toList_append, ← h.word_eq, ← h'.word_eq]
  have hlists : p.toList.length = q.toList.length := by
    rwa [String.length_toList, String.length_toList]
  obtain ⟨hp, hb⟩ := List.append_inj hchars hlists
  exact ⟨String.toList_inj.mp hp, String.toList_inj.mp hb⟩

/-- A word has no two readings. -/
theorem ReadsAs.unique (h : ts.ReadsAs word r) (h' : ts.ReadsAs word r') : r = r' := by
  cases h with
  | split h longest =>
    cases h' with
    | split h' longest' =>
      have hlen := Nat.le_antisymm (longest' _ _ h) (longest _ _ h')
      obtain ⟨rfl, rfl⟩ := h.eq_of_length_eq h' hlen
      rfl
    | whole _ unsplit => exact absurd h (unsplit _ _)
  | whole _ unsplit =>
    cases h' with
    | split h' _ => exact absurd h' (unsplit _ _)
    | whole => rfl

/-- A reading takes the word apart and loses nothing of it. -/
theorem ReadsAs.append_eq (h : ts.ReadsAs word r) : r.siPrefix.getD "" ++ r.base = word := by
  cases h with
  | split h => exact h.word_eq.symm
  | whole => exact String.empty_append

/-! ## §2 What the search finds -/

/-- No prefix stands behind a shorter one. -/
def LongestFirst (ts : Tables) : Prop :=
  ts.siPrefixes.Pairwise fun p q => q.length ≤ p.length

/-- A prefix that fits is one that splits the word. -/
theorem splits_of_prefixed? (hp : p ∈ ts.siPrefixes) (h : ts.prefixed? word p = some r) :
    ∃ b, ts.Splits word p b ∧ r = ⟨some p, b⟩ := by
  obtain ⟨b, hb, hne, hword, hr⟩ := prefixed?_eq_some.mp h
  exact ⟨b, ⟨hp, hb, hne, hword⟩, hr⟩

theorem Splits.prefixed?_ne_none (h : ts.Splits word p b) : ts.prefixed? word p ≠ none := by
  rw [prefixed?_eq_some.mpr ⟨b, h.base_mem, h.base_ne, h.word_eq, rfl⟩]
  simp

theorem unprefixed?_eq_some : ts.unprefixed? word = some r ↔
    (word ∈ ts.baseUnits ∨ word ∈ ts.otherUnits) ∧ r = ⟨none, word⟩ := by
  unfold unprefixed?
  split
  · next h => simp [h, eq_comm]
  · next h => simp [h]

/-- The first prefix that fits is the longest of those that do. -/
theorem LongestFirst.readsAs (hts : ts.LongestFirst) (h : ts.reading? word = some r) :
    ts.ReadsAs word r := by
  unfold reading? at h
  cases hfind : ts.siPrefixes.findSome? (ts.prefixed? word) with
  | some r' =>
    rw [hfind, Option.some_or, Option.some.injEq] at h
    subst h
    obtain ⟨before, p, after, hlist, hfits, hnone⟩ := List.findSome?_eq_some_iff.mp hfind
    have hp : p ∈ ts.siPrefixes := by simp [hlist]
    obtain ⟨b, hsplit, rfl⟩ := splits_of_prefixed? hp hfits
    refine .split hsplit fun q c hq => ?_
    have hmem := hq.prefix_mem
    have hsorted : ts.siPrefixes.Pairwise fun p q => q.length ≤ p.length := hts
    rw [hlist] at hmem hsorted
    rcases List.mem_append.mp hmem with hbefore | hbehind
    · exact absurd (hnone q hbefore) hq.prefixed?_ne_none
    · rcases List.mem_cons.mp hbehind with rfl | hafter
      · exact Nat.le_refl _
      · exact List.rel_of_pairwise_cons (List.pairwise_append.mp hsorted).2.1 hafter
  | none =>
    rw [hfind, Option.none_or] at h
    obtain ⟨hwhole, rfl⟩ := unprefixed?_eq_some.mp h
    refine .whole hwhole fun p b hsplit => ?_
    exact hsplit.prefixed?_ne_none (List.findSome?_eq_none_iff.mp hfind p hsplit.prefix_mem)

/-- A word has a reading if it is a unit or has a split. -/
theorem reading?_isSome : (ts.reading? word).isSome = true ↔
    word ∈ ts.baseUnits ∨ word ∈ ts.otherUnits ∨ ∃ p b, ts.Splits word p b := by
  have hunit : (ts.reading? word).isSome = true ↔ _ := isUnit_iff
  rw [hunit]
  constructor
  · rintro (⟨p, hp, b, hb, -, hne, hword⟩ | hbase | hother)
    · exact .inr (.inr ⟨p, b, hp, hb, hne, hword⟩)
    · exact .inl hbase
    · exact .inr (.inl hother)
  · rintro (hbase | hother | ⟨p, b, hp, hb, hne, hword⟩)
    · exact .inr (.inl hbase)
    · exact .inr (.inr hother)
    · -- Behind the empty prefix the word is the base unit itself.
      by_cases hempty : p = ""
      · rw [hempty, String.empty_append] at hword
        exact .inr (.inl (hword ▸ hb))
      · exact .inl ⟨p, hp, b, hb, hempty, hne, hword⟩

theorem LongestFirst.reading?_eq_some_iff (hts : ts.LongestFirst) :
    ts.reading? word = some r ↔ ts.ReadsAs word r := by
  refine ⟨hts.readsAs, fun h => ?_⟩
  have hsome : (ts.reading? word).isSome = true := by
    rw [reading?_isSome]
    cases h with
    | split h => exact .inr (.inr ⟨_, _, h⟩)
    | whole h => exact or_assoc.mp (.inl h)
  obtain ⟨r', hr'⟩ := Option.isSome_iff_exists.mp hsome
  rw [hr', (hts.readsAs hr').unique h]

/-! ## §3 Tables with the same entries -/

/-- The tables list the same, in any order and as often as they like. -/
def SameEntries (ts ts' : Tables) : Prop :=
  ∀ t e, e ∈ ts.entries t ↔ e ∈ ts'.entries t

theorem SameEntries.splits (h : ts.SameEntries ts') (hsplit : ts.Splits word p b) :
    ts'.Splits word p b :=
  ⟨(h .siPrefixes p).mp hsplit.prefix_mem, (h .baseUnits b).mp hsplit.base_mem, hsplit.base_ne,
    hsplit.word_eq⟩

theorem SameEntries.symm (h : ts.SameEntries ts') : ts'.SameEntries ts :=
  fun t e => (h t e).symm

theorem SameEntries.readsAs (h : ts.SameEntries ts') (hr : ts.ReadsAs word r) :
    ts'.ReadsAs word r := by
  cases hr with
  | split hsplit longest =>
    exact .split (h.splits hsplit) fun q c hq => longest q c (h.symm.splits hq)
  | whole hwhole unsplit =>
    refine .whole ?_ fun p b hsplit => unsplit p b (h.symm.splits hsplit)
    exact hwhole.imp (h .baseUnits word).mp (h .otherUnits word).mp

theorem SameEntries.reading?_eq (h : ts.SameEntries ts') (hts : ts.LongestFirst)
    (hts' : ts'.LongestFirst) (word : String) : ts.reading? word = ts'.reading? word := by
  ext r
  rw [hts.reading?_eq_some_iff, hts'.reading?_eq_some_iff]
  exact ⟨h.readsAs, h.symm.readsAs⟩

theorem SameEntries.tokenize_eq (h : ts.SameEntries ts') (source : String) :
    tokenize ts source = tokenize ts' source :=
  tokenize_congr fun _ _ t word _ => h t word

end Tables

/-! ## §4 Tables that are made of lists -/

namespace WordLists

theorem longerFirst_total (p q : String) : longerFirst p q = true ∨ longerFirst q p = true := by
  simp only [longerFirst, decide_eq_true_eq]
  exact Nat.le_total _ _

theorem longerFirst_trans (p q s : String) (h : longerFirst p q = true)
    (h' : longerFirst q s = true) : longerFirst p s = true := by
  simp only [longerFirst, decide_eq_true_eq] at *
  exact Nat.le_trans h' h

/-- The tables are made with the longest prefixes first. -/
theorem longestFirst_toTables (ls : WordLists) : ls.toTables.LongestFirst := by
  have hsorted := pairwise_sortBy longerFirst_total longerFirst_trans (ls.entries .siPrefixes)
  exact hsorted.imp fun h => of_decide_eq_true h

/-- Lists of the same entries make tables of the same entries. -/
theorem sameEntries_toTables {ls ls' : WordLists}
    (h : ∀ t e, e ∈ ls.entries t ↔ e ∈ ls'.entries t) : ls.toTables.SameEntries ls'.toTables := by
  intro t e
  rw [mem_entries_toTables, mem_entries_toTables, h]

/-- A word reads as a unit if it is one or splits into a prefix and a base unit.
The reading is the split with the longest prefix, and the whole word only where
there is no split; prefix and base are the word. Lists of the same entries, in
whatever order, give every word the same reading and every source the same
tokens. -/
theorem reads_with_longest_prefix (ls : WordLists) :
    (∀ word, (ls.toTables.reading? word).isSome = true ↔ word ∈ ls.toTables.baseUnits ∨
      word ∈ ls.toTables.otherUnits ∨ ∃ p b, ls.toTables.Splits word p b) ∧
    (∀ word r, ls.toTables.reading? word = some r ↔ ls.toTables.ReadsAs word r) ∧
    (∀ word r, ls.toTables.reading? word = some r → r.siPrefix.getD "" ++ r.base = word) ∧
    ∀ ls' : WordLists, (∀ t e, e ∈ ls.entries t ↔ e ∈ ls'.entries t) →
      (∀ word, ls.toTables.reading? word = ls'.toTables.reading? word) ∧
      ∀ source, tokenize ls.toTables source = tokenize ls'.toTables source := by
  have hfirst := ls.longestFirst_toTables
  refine ⟨fun _ => Tables.reading?_isSome, fun _ _ => hfirst.reading?_eq_some_iff,
    fun _ _ h => (hfirst.readsAs h).append_eq, fun ls' h => ?_⟩
  have hsame : ls.toTables.SameEntries ls'.toTables := sameEntries_toTables h
  exact ⟨hsame.reading?_eq hfirst ls'.longestFirst_toTables, hsame.tokenize_eq⟩

/-- With the prefixes declared the other way round, `dam` is the decametre still,
and the tokens of a source are the same. -/
theorem decametre_with_prefixes_reversed :
    (∀ t e, e ∈ standard.entries t ↔
      e ∈ (standard.replace .siPrefixes (Table.standard .siPrefixes).reverse).entries t) ∧
    standard.toTables.reading? "dam" = some ⟨some "da", "m"⟩ ∧
    (standard.replace .siPrefixes (Table.standard .siPrefixes).reverse).toTables.reading? "dam" =
      some ⟨some "da", "m"⟩ ∧
    tokenize standard.toTables "2 dam" =
      tokenize (standard.replace .siPrefixes (Table.standard .siPrefixes).reverse).toTables
        "2 dam" := by
  have hsame : ∀ t e, e ∈ standard.entries t ↔
      e ∈ (standard.replace .siPrefixes (Table.standard .siPrefixes).reverse).entries t := by
    intro t e
    rw [entries_replace]
    split
    · next ht => rw [List.mem_eraseDups, List.mem_reverse, ht, standard]
    · rfl
  have hreading : standard.toTables.reading? "dam" = some ⟨some "da", "m"⟩ := by decide
  obtain ⟨-, -, -, horder⟩ := reads_with_longest_prefix standard
  obtain ⟨hreadings, htokens⟩ := horder _ hsame
  exact ⟨hsame, hreading, hreadings "dam" ▸ hreading, htokens "2 dam"⟩

end WordLists

end UnitLexer
