/-
UnitLexer.Proofs.ConfigText — configurations as texts.

What a text makes of the tables is a question about the value it spells
(`Config.ofTree?`), and reading answers it for every text that is JSON
(`Config.toOption_ofJson`). Two things follow that a user relies on. What is
written is read back: every configuration, whatever its entries are. And a key
that is misspelled or given twice is never passed over, at the top as in the
edit of a table, wherever it stands and whatever stands around it: there is no
configuration then, rather than one that does less than was meant.
-/
import UnitLexer.Config.Text
import UnitLexer.Proofs.JsonReading

namespace UnitLexer

open Json

/-! ## §1 Members of a record -/

namespace Json

/-- Some key is none of the names, or a name is the key of several members. -/
def Misnamed (names : List String) (ms : List (Option String × Tree)) : Prop :=
  (∃ m ∈ ms, ∀ name ∈ names, m.1 ≠ some name) ∨
    ∃ name ∈ names, 2 ≤ (ms.map Prod.fst).count (some name)

/-- A field whose value alone decides what is put into the record. -/
def Slot.put {α σ : Type} (name : String) (r : Reader α) (answer? : Tree → Option α)
    (h : r.Follows Spells answer?) (f : σ → α → σ) : Slot σ where
  name := name
  read s := do
    let a ← r
    pure (f s a)
  answer? s t := (answer? t).map (f s)
  follows s := h.map (f s)

section

variable {σ : Type} {slots : List (Slot σ)} {ms : List (Option String × Tree)}

/-- What a member that is taken says: its key is a field not seen before, and its
value is one of that field. -/
theorem member?_eq_some {seen seen' : List String × σ} {m : Option String × Tree}
    (h : Tree.member? slots seen m = some seen') :
    ∃ key slot, m.1 = some key ∧ slot ∈ slots ∧ slot.name = key ∧ key ∉ seen.1 ∧
      seen'.1 = key :: seen.1 ∧ (slot.answer? seen.2 m.2).isSome := by
  obtain ⟨key, tree⟩ := m
  cases key with
  | none => contradiction
  | some key =>
    simp only [Tree.member?] at h
    cases hfind : slots.find? fun slot => slot.name == key with
    | none => simp [hfind] at h
    | some slot =>
      simp only [hfind] at h
      split_ifs at h with hseen
      obtain ⟨s, hs, rfl⟩ := Option.map_eq_some_iff.mp h
      have hname : slot.name = key := by simpa using List.find?_some hfind
      exact ⟨key, slot, rfl, List.mem_of_find?_eq_some hfind, hname, hseen, rfl, by simp [hs]⟩

/-- What members that are taken say: each has the key of a field and a value of that
field, and no two of them have the same key. -/
theorem of_foldlM_member? {seen seen' : List String × σ}
    (h : ms.foldlM (Tree.member? slots) seen = some seen') :
    (∀ m ∈ ms, ∃ slot ∈ slots, m.1 = some slot.name ∧ slot.name ∉ seen.1 ∧
      ∃ s, (slot.answer? s m.2).isSome) ∧ (ms.map Prod.fst).Nodup := by
  induction ms generalizing seen with
  | nil => simp
  | cons m ms ih =>
    rw [List.foldlM_cons] at h
    obtain ⟨mid, hm, hms⟩ := Option.bind_eq_some_iff.mp h
    obtain ⟨key, slot, hkey, hslot, hname, hseen, hmid, hvalue⟩ := member?_eq_some hm
    obtain ⟨htaken, hnodup⟩ := ih hms
    subst hname
    constructor
    · intro m' hm'
      rcases List.mem_cons.mp hm' with rfl | hm'
      · exact ⟨slot, hslot, hkey, hseen, _, hvalue⟩
      · obtain ⟨slot', hslot', hkey', hseen', hvalue'⟩ := htaken m' hm'
        rw [hmid, List.mem_cons, not_or] at hseen'
        exact ⟨slot', hslot', hkey', hseen'.2, hvalue'⟩
    · rw [List.map_cons, List.nodup_cons]
      refine ⟨fun hmem => ?_, hnodup⟩
      obtain ⟨m', hm', heq⟩ := List.mem_map.mp hmem
      obtain ⟨slot', -, hkey', hseen', -⟩ := htaken m' hm'
      rw [hmid, List.mem_cons, not_or] at hseen'
      rw [hkey, hkey', Option.some.injEq] at heq
      exact hseen'.1 heq

/-- Misnamed members make no record. -/
theorem record?_of_misnamed {start : σ} (h : Misnamed (slots.map fun f => f.name) ms) :
    Tree.record? slots start (.object ms) = none := by
  rw [Tree.record?, Option.map_eq_none_iff, Option.eq_none_iff_forall_ne_some]
  intro seen htaken
  obtain ⟨hknown, hnodup⟩ := of_foldlM_member? htaken
  rcases h with ⟨m, hm, hunknown⟩ | ⟨name, -, hcount⟩
  · obtain ⟨slot, hslot, hkey, -⟩ := hknown m hm
    exact hunknown slot.name (List.mem_map_of_mem hslot) hkey
  · have hle := List.nodup_iff_count.mp hnodup (some name)
    omega

/-- A member whose value its field refuses makes no record. -/
theorem record?_of_refused {start : σ} {key : String} {tree : Tree} (hm : (some key, tree) ∈ ms)
    (h : ∀ slot ∈ slots, slot.name = key → ∀ s, slot.answer? s tree = none) :
    Tree.record? slots start (.object ms) = none := by
  rw [Tree.record?, Option.map_eq_none_iff, Option.eq_none_iff_forall_ne_some]
  intro seen htaken
  obtain ⟨slot, hslot, hkey, -, s, hvalue⟩ := (of_foldlM_member? htaken).1 _ hm
  rw [h slot hslot (Option.some.inj hkey).symm s] at hvalue
  contradiction

end

end Json

/-! ## §2 What a value makes of the tables -/

namespace TableEdit

/-- The fields of an edit. -/
def slots : List (Slot TableEdit) :=
  [.put "replace" (.optional .strings) (Tree.optional? Tree.strings?)
      (Reader.follows_optional Reader.follows_strings) fun e es => { e with replace := es },
    .put "add" .strings Tree.strings? Reader.follows_strings fun e es => { e with add := es },
    .put "remove" .strings Tree.strings? Reader.follows_strings fun e es =>
      { e with remove := es }]

/-- The edit of a table that a value says. -/
def ofTree? : Tree → Option TableEdit :=
  Tree.record? slots {}

theorem follows_reader : reader.Follows Spells ofTree? :=
  Reader.follows_record "struct ListEdit" slots {}

end TableEdit

namespace Config

/-- The fields of a configuration. -/
def slot (t : Table) : Slot Config :=
  .put t.name TableEdit.reader TableEdit.ofTree? TableEdit.follows_reader fun c e => c.set t e

/-- The configuration that a value says. -/
def ofTree? : Tree → Option Config :=
  Tree.record? (Table.all.map slot) {}

theorem follows_reader : reader.Follows Spells ofTree? :=
  Reader.follows_record "struct TablesConfig" (Table.all.map slot) {}

/-- Every text that is JSON is read as the configuration its value says. -/
theorem toOption_ofJson {tree : Tree} {text : String} (h : Document tree text) :
    (ofJson text).toOption = ofTree? tree := by
  rw [← Reader.toOption_readAll follows_reader h, ofJson]
  cases reader.readAll text <;> rfl

/-- A text that is no configuration is reported as such. -/
theorem exists_malformed {text : String} (h : (ofJson text).toOption = none) :
    ∃ cause, ofJson text = .error (.malformed cause) := by
  rw [ofJson] at h ⊢
  cases hr : reader.readAll text with
  | ok c =>
    rw [hr] at h
    contradiction
  | error cause => exact ⟨cause, rfl⟩

theorem ofJson_eq_ok {tree : Tree} {text : String} {c : Config} (h : Document tree text)
    (hc : ofTree? tree = some c) : ofJson text = .ok c := by
  rw [← toOption_ofJson h] at hc
  cases hr : ofJson text with
  | ok c' => simpa [hr, Except.toOption] using hc
  | error e => simp [hr, Except.toOption] at hc

end Config

/-! ## §3 What is written -/

theorem tree_strings (ss : List String) :
    (Json.strings ss).tree = .array (ss.map fun s => .string (some s)) := by
  simp [Json.strings, Json.tree, trees_eq_map]

theorem strings?_array (ss : List String) :
    Tree.strings? (.array (ss.map fun s => .string (some s))) = some ss := by
  rw [Tree.strings?, List.mapM_map]
  exact (List.mapM_pure).trans (congrArg some (List.map_id ss))

/-- An edit that is written is said. -/
theorem TableEdit.ofTree?_toJson (e : TableEdit) : ofTree? e.toJson.tree = some e := by
  obtain ⟨replace, add, remove⟩ := e
  cases replace <;>
    simp [ofTree?, toJson, Json.tree, memberTrees, tree_strings, Tree.record?, Tree.member?, slots,
      Slot.put, Tree.optional?, strings?_array]

theorem find?_slot (t : Table) :
    (Table.all.map Config.slot).find? (fun slot => slot.name == t.name) = some (Config.slot t) := by
  have hname := Table.ofName?_name t
  rw [Table.ofName?] at hname
  rw [List.find?_map]
  exact congrArg (Option.map Config.slot) hname

theorem Table.name_inj {t u : Table} (h : t.name = u.name) : t = u := by
  have hname := Table.ofName?_name t
  rw [h, Table.ofName?_name u] at hname
  exact (Option.some.inj hname).symm

/-- A member for a table sets its edit. -/
theorem member?_table (c start : Config) (t : Table) {seen : List String} (hseen : t.name ∉ seen) :
    Tree.member? (Table.all.map Config.slot) (seen, start) (some t.name, (c.edit t).toJson.tree) =
      some (t.name :: seen, start.set t (c.edit t)) := by
  simp only [Tree.member?, find?_slot, if_neg hseen]
  simp [Config.slot, Slot.put, TableEdit.ofTree?_toJson]

/-- Members for some tables set the edits of these tables. -/
theorem foldlM_tables (c : Config) {ts : List Table} (hnodup : ts.Nodup) (seen : List String)
    (hseen : ∀ t ∈ ts, t.name ∉ seen) (start : Config) :
    ((ts.map fun t => (some t.name, (c.edit t).toJson.tree)).foldlM
        (Tree.member? (Table.all.map Config.slot)) (seen, start)).map Prod.snd =
      some ⟨fun t => if t ∈ ts then c.edit t else start.edit t⟩ := by
  induction ts generalizing seen start with
  | nil => simp
  | cons t ts ih =>
    obtain ⟨ht, hnodup⟩ := List.nodup_cons.mp hnodup
    have hmore : ∀ u ∈ ts, u.name ∉ t.name :: seen := by
      intro u hu
      rw [List.mem_cons, not_or]
      refine ⟨fun h => ht (Table.name_inj h ▸ hu), hseen u (List.mem_cons_of_mem t hu)⟩
    rw [List.map_cons, List.foldlM_cons, member?_table c start t (hseen t List.mem_cons_self)]
    refine (ih hnodup (t.name :: seen) hmore (start.set t (c.edit t))).trans ?_
    congr 2
    funext u
    simp only [Config.set, List.mem_cons]
    split_ifs <;> simp_all

/-- A configuration that is written is said. -/
theorem Config.ofTree?_toJson (c : Config) : ofTree? c.toJson.tree = some c := by
  have hnodup : Table.all.Nodup := by decide
  have hfold := foldlM_tables c hnodup [] (by simp) {}
  simp only [Table.mem_all, if_true] at hfold
  rw [toJson, Json.tree, memberTrees_eq_map, List.map_map]
  exact hfold

/-! ## §4 Configurations as texts -/

/-- A configuration that is written is read back, however it is laid out. And a
JSON object with a key that is no table, or with one given twice, is no
configuration, no more than one with such a key in the edit of a table. -/
theorem config_read_back_or_refused :
    (∀ c : Config, Config.ofJson c.toJson.compact = .ok c ∧ Config.ofJson c.toJson.pretty = .ok c) ∧
    ∀ (ms : List (Option String × Tree)) (text : String), Document (.object ms) text →
      (Misnamed (Table.all.map Table.name) ms ∨
        ∃ t inner, (some (Table.name t), .object inner) ∈ ms ∧
          Misnamed ["replace", "add", "remove"] inner) →
      ∃ cause, Config.ofJson text = .error (.malformed cause) := by
  constructor
  · intro c
    exact ⟨Config.ofJson_eq_ok (document_compact _) c.ofTree?_toJson,
      Config.ofJson_eq_ok (document_pretty _) c.ofTree?_toJson⟩
  · intro ms text hdoc hmisnamed
    apply Config.exists_malformed
    rw [Config.toOption_ofJson hdoc]
    rcases hmisnamed with htables | ⟨t, inner, hmem, hedit⟩
    · exact record?_of_misnamed (by rwa [List.map_map])
    · refine record?_of_refused hmem fun slot hslot _ c => ?_
      obtain ⟨u, -, rfl⟩ := List.mem_map.mp hslot
      have hrefused : TableEdit.ofTree? (.object inner) = none := record?_of_misnamed hedit
      simp [Config.slot, Slot.put, hrefused]

/-- Entries to add under a misspelled key. -/
theorem misspelled_edit_refused :
    Misnamed ["replace", "add", "remove"] [(some "ad", (Json.strings ["mod"]).tree)] ∧
    ∃ cause, Config.ofJson
      (Json.object [("keywords", .object [("ad", .strings ["mod"])])]).pretty =
        .error (.malformed cause) := by
  have hedit : Misnamed ["replace", "add", "remove"] [(some "ad", (Json.strings ["mod"]).tree)] :=
    .inl ⟨_, List.mem_singleton_self _, by decide⟩
  exact ⟨hedit, config_read_back_or_refused.2 _ _ (document_pretty _)
    (.inr ⟨.keywords, _, List.mem_singleton_self _, hedit⟩)⟩

end UnitLexer
