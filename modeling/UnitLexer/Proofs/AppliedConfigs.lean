/-
UnitLexer.Proofs.AppliedConfigs — what a configuration does to the lists, and
that doing it again changes nothing.

A configuration is refused for the first entry it brings in that its table
cannot hold (`Config.FirstFault`); the lists then stay as they were. Otherwise
every table goes through its edit on its own. What the edit leaves is written
down as a list (`TableEdit.result`), since entries come in an order and a second
application must find that order unchanged. It does: of the entries to be added
those that are missing afterwards are the ones that were removed, and they are
removed again (`TableEdit.result_result`).
-/
import UnitLexer.Config.Basic
import UnitLexer.Proofs.Edits

namespace UnitLexer

/-! ## §1 The edit of one table -/

namespace TableEdit

/-- What the table holds before anything is added. -/
def base (e : TableEdit) (es : List String) : List String :=
  match e.replace with
  | some new => new.eraseDups
  | none => es

/-- What the edit makes of the entries of its table: behind the base come the
added entries that it does not hold, each where it first occurs, and then
everything to be removed goes. -/
def result (e : TableEdit) (es : List String) : List String :=
  (e.base es ++ (e.add.filter (· ∉ e.base es)).eraseDups).filter (· ∉ e.remove)

variable {e : TableEdit} {es : List String} {word : String}

theorem mem_introduced : word ∈ e.introduced ↔ word ∈ e.replace.getD [] ∨ word ∈ e.add :=
  List.mem_append

theorem entries_apply (e : TableEdit) (t : Table) (ls : WordLists) (u : Table) :
    (e.apply t ls).entries u = if u = t then e.result (ls.entries t) else ls.entries u := by
  unfold apply result base
  by_cases h : u = t
  · subst h
    cases e.replace <;> simp [WordLists.foldl_insertEntry]
  · cases e.replace <;> simp [h]

theorem isNoop_iff : e.isNoop = true ↔ e = {} := by
  obtain ⟨replace, add, remove⟩ := e
  simp [isNoop, and_assoc]

@[simp] theorem result_default : ({} : TableEdit).result es = es := by
  simp [result, base]

/-- Passing over an edit that asks for nothing is what making it comes to. -/
theorem apply_of_isNoop (h : e.isNoop = true) (t : Table) (ls : WordLists) : e.apply t ls = ls := by
  obtain rfl := isNoop_iff.mp h
  simp [apply]

theorem mem_result :
    word ∈ e.result es ↔ (word ∈ e.base es ∨ word ∈ e.add) ∧ word ∉ e.remove := by
  simp only [result, List.mem_filter, List.mem_append, List.mem_eraseDups, decide_eq_true_eq]
  tauto

theorem filter_remove_result : (e.result es).filter (· ∉ e.remove) = e.result es := by
  simp [result, List.filter_filter]

/-- The edit leaves alone what it has made. -/
theorem result_result : e.result (e.result es) = e.result es := by
  cases h : e.replace with
  | some new =>
    -- New contents do not depend on the old ones.
    simp only [result, base, h]
  | none =>
    have hbase : e.base (e.result es) = e.result es := by simp only [base, h]
    have hremoved : ((e.add.filter (· ∉ e.result es)).eraseDups).filter (· ∉ e.remove) = [] := by
      refine List.filter_eq_nil_iff.mpr fun word hword => ?_
      obtain ⟨hadd, hnew⟩ := List.mem_filter.mp (List.mem_eraseDups.mp hword)
      simp only [decide_eq_true_eq, mem_result] at hnew
      simpa using fun hkept => hnew ⟨.inr hadd, hkept⟩
    calc e.result (e.result es)
        = (e.result es ++ (e.add.filter (· ∉ e.result es)).eraseDups).filter (· ∉ e.remove) := by
          rw [result, hbase]
      _ = e.result es := by rw [List.filter_append, filter_remove_result, hremoved, List.append_nil]

end TableEdit

namespace Config

variable {c : Config} {ls ls' : WordLists} {err : ConfigError}

/-- No edit is passed over that would do something. -/
theorem editAll_eq (c : Config) (ls : WordLists) :
    c.editAll ls = Table.all.foldl (fun ls t => (c.edit t).apply t ls) ls := by
  unfold editAll
  congr
  funext ls t
  split
  · next h => exact (TableEdit.apply_of_isNoop h t ls).symm
  · rfl

/-- Every table goes through its own edit. -/
theorem entries_editAll (c : Config) (ls : WordLists) (t : Table) :
    (c.editAll ls).entries t = (c.edit t).result (ls.entries t) := by
  rw [editAll_eq]
  exact WordLists.entries_foldl_all (fun t ls u => (c.edit t).entries_apply t ls u) ls t

/-! ## §2 The check -/

/-- The entry has a fault, and nothing that is checked before it has one: no
entry of the tables before its own, and none before it in its own table. -/
structure FirstFault (c : Config) (t : Table) (entry : String) (fault : EntryFault) : Prop where
  fault?_eq : t.fault? entry = some fault
  entries_before : ∃ before after, (c.edit t).replace.getD [] ++ (c.edit t).add =
    before ++ entry :: after ∧ ∀ e ∈ before, t.fault? e = none
  tables_before : ∃ before after, Table.all = before ++ t :: after ∧
    ∀ u ∈ before, ∀ e ∈ (c.edit u).replace.getD [] ++ (c.edit u).add, u.fault? e = none

/-- The first fault among the entries of a table. -/
def tableFault? (c : Config) (t : Table) : Option ConfigError :=
  (c.edit t).introduced.findSome? fun e => (t.fault? e).map fun f => .entryInvalid t e f

theorem tableFault?_eq_none {t : Table} :
    c.tableFault? t = none ↔ ∀ e ∈ (c.edit t).introduced, t.fault? e = none := by
  simp [tableFault?]

theorem tableFault?_eq_some {t : Table} : c.tableFault? t = some err ↔
    ∃ entry fault before after, err = .entryInvalid t entry fault ∧
      t.fault? entry = some fault ∧
      (c.edit t).introduced = before ++ entry :: after ∧ ∀ e ∈ before, t.fault? e = none := by
  rw [tableFault?, List.findSome?_eq_some_iff]
  constructor
  · rintro ⟨before, entry, after, hlist, hentry, hbefore⟩
    obtain ⟨fault, hfault, rfl⟩ := Option.map_eq_some_iff.mp hentry
    exact ⟨entry, fault, before, after, rfl, hfault, hlist,
      fun e he => Option.map_eq_none_iff.mp (hbefore e he)⟩
  · rintro ⟨entry, fault, before, after, rfl, hfault, hlist, hbefore⟩
    exact ⟨before, entry, after, hlist, by rw [hfault]; rfl,
      fun e he => Option.map_eq_none_iff.mpr (hbefore e he)⟩

/-- The check goes table by table. -/
theorem firstFault?_eq (c : Config) : c.firstFault? = Table.all.findSome? c.tableFault? := by
  unfold firstFault? introduced
  induction Table.all with
  | nil => rfl
  | cons t ts ih =>
    rw [List.flatMap_cons, List.findSome?_append, ih, List.findSome?_map, List.findSome?_cons]
    change (c.tableFault? t).or _ = _
    cases c.tableFault? t <;> rfl

theorem firstFault?_eq_some : c.firstFault? = some err ↔
    ∃ t entry fault, c.FirstFault t entry fault ∧ err = .entryInvalid t entry fault := by
  rw [firstFault?_eq, List.findSome?_eq_some_iff]
  constructor
  · rintro ⟨us, t, vs, hall, htable, hus⟩
    obtain ⟨entry, fault, before, after, herr, hfault, hlist, hbefore⟩ :=
      tableFault?_eq_some.mp htable
    exact ⟨t, entry, fault, ⟨hfault, ⟨before, after, hlist, hbefore⟩,
      ⟨us, vs, hall, fun u hu => tableFault?_eq_none.mp (hus u hu)⟩⟩, herr⟩
  · rintro ⟨t, entry, fault, ⟨hfault, ⟨before, after, hlist, hbefore⟩, ⟨us, vs, hall, hus⟩⟩, herr⟩
    exact ⟨us, t, vs, hall,
      tableFault?_eq_some.mpr ⟨entry, fault, before, after, herr, hfault, hlist, hbefore⟩,
      fun u hu => tableFault?_eq_none.mpr (hus u hu)⟩

theorem firstFault?_eq_none : c.firstFault? = none ↔
    ∀ t, ∀ e ∈ (c.edit t).introduced, t.fault? e = none := by
  rw [firstFault?_eq, List.findSome?_eq_none_iff]
  simp only [tableFault?_eq_none, Table.mem_all, forall_const]

/-! ## §3 Applying -/

theorem apply_eq_error : c.apply ls = .error err ↔ c.firstFault? = some err := by
  cases h : c.firstFault? <;> simp [apply, validate, h, bind, Except.bind]

theorem apply_eq_ok : c.apply ls = .ok ls' ↔ c.firstFault? = none ∧ c.editAll ls = ls' := by
  cases h : c.firstFault? <;> simp [apply, validate, h, bind, Except.bind]

theorem exists_apply_eq_error : (∃ err, c.apply ls = .error err) ↔ c.firstFault? ≠ none := by
  simp only [apply_eq_error, Option.ne_none_iff_exists']

theorem editAll_eq_iff :
    c.editAll ls = ls' ↔ ∀ t, ls'.entries t = (c.edit t).result (ls.entries t) := by
  constructor
  · rintro rfl t
    exact c.entries_editAll ls t
  · intro h
    exact WordLists.ext_entries fun t => (c.entries_editAll ls t).trans (h t).symm

/-- Edits that have been made leave nothing to do. -/
theorem editAll_editAll (c : Config) (ls : WordLists) :
    c.editAll (c.editAll ls) = c.editAll ls := by
  refine editAll_eq_iff.mpr fun t => ?_
  rw [entries_editAll, TableEdit.result_result]

/-- A configuration is refused exactly if it brings in an entry that its table
cannot hold, and the error names the first of these. Otherwise every table holds
what its edit makes of its entries, in that order, a table without an edit holds
what it held, and applying the configuration once more changes nothing. -/
theorem apply_exact (c : Config) (ls : WordLists) :
    ((∃ err, c.apply ls = .error err) ↔
      ∃ t e, (e ∈ (c.edit t).replace.getD [] ∨ e ∈ (c.edit t).add) ∧ t.fault? e ≠ none) ∧
    (∀ err, c.apply ls = .error err ↔
      ∃ t e f, c.FirstFault t e f ∧ err = .entryInvalid t e f) ∧
    (∀ ls', c.apply ls = .ok ls' ↔
      (∀ t e, e ∈ (c.edit t).replace.getD [] ∨ e ∈ (c.edit t).add → t.fault? e = none) ∧
      ∀ t, ls'.entries t = (c.edit t).result (ls.entries t)) ∧
    (∀ ls', c.apply ls = .ok ls' →
      (∀ t, c.edit t = {} → ls'.entries t = ls.entries t) ∧ c.apply ls' = .ok ls') := by
  have hclean : c.firstFault? = none ↔
      ∀ t e, e ∈ (c.edit t).replace.getD [] ∨ e ∈ (c.edit t).add → t.fault? e = none := by
    simp only [firstFault?_eq_none, TableEdit.mem_introduced]
  refine ⟨?_, fun err => apply_eq_error.trans firstFault?_eq_some,
    fun ls' => apply_eq_ok.trans (and_congr hclean editAll_eq_iff), fun ls' h => ?_⟩
  · rw [exists_apply_eq_error, Ne, hclean]
    simp only [not_forall, exists_prop, ne_eq]
  · obtain ⟨hnone, rfl⟩ := apply_eq_ok.mp h
    refine ⟨fun t ht => ?_, apply_eq_ok.mpr ⟨hnone, c.editAll_editAll ls⟩⟩
    rw [entries_editAll, ht, TableEdit.result_default]

/-- Other units with entries in several lists of their edit: `bar` is new contents,
added and removed, and `eV` is added twice. -/
def overlapping : Config :=
  ({} : Config).set .otherUnits
    ⟨some ["L", "bar", "L"], ["eV", "bar", "u", "eV"], ["bar", "min"]⟩

theorem apply_overlapping :
    overlapping.apply .standard = .ok (WordLists.standard.set .otherUnits ["L", "eV", "u"]) ∧
    overlapping.apply (WordLists.standard.set .otherUnits ["L", "eV", "u"]) =
      .ok (WordLists.standard.set .otherUnits ["L", "eV", "u"]) := by
  obtain ⟨-, -, hok, htwice⟩ := apply_exact overlapping .standard
  have hclean := (firstFault?_eq_none (c := overlapping)).mp (by decide)
  have hentries : ∀ t, (WordLists.standard.set .otherUnits ["L", "eV", "u"]).entries t =
      (overlapping.edit t).result (WordLists.standard.entries t) := by
    intro t
    cases t <;> decide
  have haccepted := (hok _).mpr
    ⟨fun t e he => hclean t e (TableEdit.mem_introduced.mpr he), hentries⟩
  exact ⟨haccepted, (htwice _ haccepted).2⟩

end Config

end UnitLexer
