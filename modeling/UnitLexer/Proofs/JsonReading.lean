/-
UnitLexer.Proofs.JsonReading — readers ask a text what it says.

A reader goes over characters, and what it answers depends on nothing but the
value that the characters spell: each reader follows a question about that value
(`Reader.Follows`), whatever the white space, the escapes and the text behind
the value are. Where the question has an answer the reader gives it and has
taken exactly the value; where it has none the reader stops with a problem.

The questions about the parts of a value are put together as the readers are:
`Tree.strings?` for an array of strings, `Tree.record?` for a record.
-/
import UnitLexer.Proofs.JsonStrings

namespace UnitLexer.Json

/-! ## §1 What a reader answers -/

namespace Reader

variable {α β : Type}

/-- The answer of a reader and what it leaves, with all problems alike. -/
def run? (r : Reader α) (cs : List Char) : Option (α × List Char) :=
  (r.run cs).toOption

theorem run?_bind (r : Reader α) (f : α → Reader β) (cs : List Char) :
    (r >>= f).run? cs = (r.run? cs).bind fun p => (f p.1).run? p.2 := by
  rw [run?, run?, run_bind]
  cases r.run cs <;> rfl

theorem run?_map (f : α → β) (r : Reader α) (cs : List Char) :
    (f <$> r).run? cs = (r.run? cs).map fun p => (f p.1, p.2) := by
  change (r >>= fun a => pure (f a)).run? cs = _
  rw [run?_bind]
  cases r.run? cs <;> rfl

theorem run?_skip_bind (f : Unit → Reader β) (c : Char) (cs : List Char) :
    (skip >>= f).run? (c :: cs) = (f ()).run? cs :=
  run?_bind skip f (c :: cs)

@[simp] theorem run?_mismatch (expected : String) (cs : List Char) :
    (mismatch expected : Reader α).run? cs = none := by
  unfold run? mismatch
  dsimp only
  split <;> rfl

/-- Behind white space a reader finds the next character. -/
theorem run?_ahead_bind {w : List Char} {c : Char} (hw : IsWhite w) (hc : isBlank c = false)
    (f : Option Char → Reader β) (cs : List Char) :
    (ahead >>= f).run? (w ++ c :: cs) = (f (some c)).run? (c :: cs) := by
  have hdrop : dropBlanks (w ++ c :: cs) = c :: cs := dropBlanks_append hw (by simpa using hc)
  rw [run?_bind]
  change (f (dropBlanks (w ++ c :: cs)).head?).run? (dropBlanks (w ++ c :: cs)) = _
  rw [hdrop, List.head?_cons]

end Reader

/-! ## §2 Questions -/

namespace Reader

variable {α β σ : Type}

/-- A reader follows a question about what a text says. -/
def Follows (Says : β → List Char → Prop) (r : Reader α) (answer? : β → Option α) : Prop :=
  ∀ b text, Says b text → ∀ lead, IsWhite lead → ∀ rest,
    r.run? (lead ++ (text ++ rest)) = (answer? b).map (·, rest)

theorem Follows.map {Says : β → List Char → Prop} {r : Reader α} {answer? : β → Option α}
    (h : r.Follows Says answer?) (f : α → σ) :
    Follows Says (r >>= fun a => pure (f a)) fun b => (answer? b).map f := by
  intro b text hb lead hlead rest
  dsimp only
  rw [run?_bind, h b text hb lead hlead]
  cases answer? b <;> rfl

end Reader

namespace Tree

/-- The string that is said. -/
def string? : Tree → Option String
  | .string s => s
  | _ => none

/-- What is said, `null` for nothing. -/
def optional? {α : Type} (answer? : Tree → Option α) : Tree → Option (Option α)
  | .null => some none
  | t => (answer? t).map some

/-- The strings that are said. -/
def strings? : Tree → Option (List String)
  | .array ts => ts.mapM string?
  | _ => none

end Tree

namespace Reader

variable {α β σ : Type} {w : List Char}

theorem run?_string_quote (hw : IsWhite w) (cs : List Char) :
    string.run? (w ++ '"' :: cs) = stringRest.run? cs := by
  rw [string, run?_ahead_bind hw (by decide)]
  rfl

theorem run?_string_of_ne {c : Char} (hw : IsWhite w) (hc : isBlank c = false) (hne : c ≠ '"')
    (cs : List Char) : string.run? (w ++ c :: cs) = none := by
  rw [string, run?_ahead_bind hw hc]
  split <;> simp_all

/-- The rest of a literal is read as its string. -/
theorem run?_stringRest {s : Option String} {cs : List Char} (h : Literal s ('"' :: cs))
    (rest : List Char) : stringRest.run? (cs ++ rest) = s.map (·, rest) := by
  have hread := toOption_readString_literal h rest
  rw [← hread, run?, stringRest]
  dsimp only
  cases readString (cs ++ rest) <;> rfl

/-- A string is read as its characters. -/
theorem follows_string : Follows Spells string Tree.string? := by
  intro tree text h lead hlead rest
  cases tree with
  | string s =>
    obtain _ | _ | _ | ⟨h⟩ := h
    obtain ⟨cs, rfl⟩ := h.cons
    rw [List.cons_append, run?_string_quote hlead, run?_stringRest h]
    rfl
  | null | bool | number | array | object =>
    obtain ⟨c, cs, rfl, hc⟩ := h.cons
    have hne : c ≠ '"' := by
      rintro rfl
      simp [Tree.opens] at hc
    exact run?_string_of_ne hlead (Tree.not_isBlank_of_opens hc) hne _

/-- A value is read, or `null` for none. -/
theorem follows_optional {r : Reader α} {answer? : Tree → Option α}
    (hr : Follows Spells r answer?) : Follows Spells (optional r) (Tree.optional? answer?) := by
  intro tree text h lead hlead rest
  cases tree with
  | null =>
    cases h
    rw [optional, List.cons_append, run?_ahead_bind hlead (by decide)]
    rfl
  | bool | number | string | array | object =>
    have hread := hr _ _ h [] isWhite_nil rest
    obtain ⟨c, cs, rfl, hc⟩ := h.cons
    have hne : c ≠ 'n' := by
      rintro rfl
      simp [Tree.opens] at hc
    rw [optional, List.cons_append, run?_ahead_bind hlead (Tree.not_isBlank_of_opens hc)]
    split
    · simp_all
    · rw [run?_map]
      refine (congrArg _ hread).trans ?_
      simp only [Tree.optional?, Option.map_map, Function.comp_def]

/-! ## §3 Items -/

section

variable {enc : Enclosure} {Says : β → List Char → Prop} {item : σ → Reader σ}
  {answer? : σ → β → Option σ} {bs : List β} {text : List Char}

theorem run?_further_close (hw : IsWhite w) (hblank : isBlank enc.closing = false) (s : σ)
    (cs : List Char) : (further enc item s).run? (w ++ enc.closing :: cs) = some (s, cs) := by
  have hdrop : dropBlanks (w ++ enc.closing :: cs) = enc.closing :: cs :=
    dropBlanks_append hw (by simpa using hblank)
  rw [run?, further]
  dsimp only
  rw [furtherItems]
  split
  · next h =>
    rw [hdrop] at h
    contradiction
  · next h =>
    rw [hdrop] at h
    obtain ⟨rfl, rfl⟩ := List.cons.inj h
    rw [if_pos rfl]
    rfl

theorem run?_further_comma (hw : IsWhite w) (hcomma : enc.closing ≠ ',') (s : σ) {cs : List Char}
    (hcs : (dropBlanks cs).head? ≠ some enc.closing) :
    (further enc item s).run? (w ++ ',' :: cs) =
      ((item s).run? cs).bind fun p => (further enc item p.1).run? p.2 := by
  have hdrop : dropBlanks (w ++ ',' :: cs) = ',' :: cs := dropBlanks_append hw (by simp [isBlank])
  rw [run?, further]
  dsimp only
  rw [furtherItems]
  split
  · next h =>
    rw [hdrop] at h
    contradiction
  · next h =>
    rw [hdrop] at h
    obtain ⟨rfl, rfl⟩ := List.cons.inj h
    rw [if_neg hcomma.symm, if_pos rfl, if_neg hcs]
    split
    · next hitem => rw [run?, hitem]; rfl
    · next hitem => rw [run?, hitem]; rfl

/-- What follows an item is read item by item. -/
theorem run?_further (hblank : isBlank enc.closing = false) (hcomma : enc.closing ≠ ',')
    (hitem : ∀ s, (item s).Follows Says (answer? s))
    (hstart : ∀ b text, Says b text → StartsItem enc.closing text)
    (h : Continued enc.closing Says bs text) (s : σ) (rest : List Char) :
    (further enc item s).run? (text ++ rest) = (bs.foldlM answer? s).map (·, rest) := by
  induction h generalizing s with
  | close hw =>
    rw [List.append_assoc]
    exact run?_further_close hw hblank s rest
  | @comma b bs w w' text more hw hw' hb hmore ih =>
    have htext : w ++ ',' :: (w' ++ (text ++ more)) ++ rest =
        w ++ ',' :: (w' ++ (text ++ (more ++ rest))) := by
      simp only [List.append_assoc, List.cons_append]
    have hhead : (dropBlanks (w' ++ (text ++ (more ++ rest)))).head? ≠ some enc.closing := by
      obtain ⟨c, cs, rfl, hc, hne⟩ := hstart _ _ hb
      rw [List.cons_append, dropBlanks_append hw' (by simpa using hc), List.head?_cons]
      exact fun h => hne (Option.some.inj h)
    rw [htext, run?_further_comma hw hcomma s hhead, hitem s _ _ hb _ hw', List.foldlM_cons]
    cases answer? s b with
    | none => rfl
    | some s' => exact ih s'

/-- Items are read one by one. -/
theorem run?_items (hblank : isBlank enc.closing = false) (hcomma : enc.closing ≠ ',')
    (hitem : ∀ s, (item s).Follows Says (answer? s))
    (hstart : ∀ b text, Says b text → StartsItem enc.closing text)
    (h : Enclosed enc.closing Says bs text) (s : σ) (rest : List Char) :
    (items enc item s).run? (text ++ rest) = (bs.foldlM answer? s).map (·, rest) := by
  cases h with
  | empty hw =>
    rw [List.append_assoc, List.singleton_append, items, run?_ahead_bind hw hblank]
    dsimp only
    rw [if_pos rfl]
    rfl
  | @items b bs w text more hw hb hmore =>
    have hread := hitem s _ _ hb [] isWhite_nil (more ++ rest)
    obtain ⟨c, cs, rfl, hc, hne⟩ := hstart _ _ hb
    have htext : w ++ (c :: cs ++ more) ++ rest = w ++ c :: (cs ++ (more ++ rest)) := by
      simp only [List.append_assoc, List.cons_append]
    rw [htext, Reader.items, run?_ahead_bind hw hc]
    dsimp only
    rw [if_neg hne, run?_bind, List.foldlM_cons]
    refine (congrArg (Option.bind · _) hread).trans ?_
    cases answer? s b with
    | none => rfl
    | some s' => exact run?_further hblank hcomma hitem hstart hmore s' rest

end

theorem run?_strings_bracket (hw : IsWhite w) {ts : List Tree} {cs : List Char}
    (h : Enclosed ']' Spells ts cs) (rest : List Char) :
    strings.run? (w ++ '[' :: (cs ++ rest)) = (ts.mapM Tree.string?).map (·, rest) := by
  have hitem (ss : List String) : Follows Spells (do let s ← string; pure (s :: ss))
      fun t => t.string?.map (· :: ss) := follows_string.map (· :: ss)
  have hitems : (items .array _ []).run? (cs ++ rest) = _ :=
    run?_items (by decide) (by decide) hitem (startsItem_of_spells (.inl rfl)) h [] rest
  rw [strings, run?_ahead_bind hw (by decide)]
  change (skip >>= _).run? _ = _
  rw [run?_skip_bind, run?_bind, hitems, List.mapM_eq_reverse_foldlM_cons]
  simp only [Option.map_eq_map]
  cases ts.foldlM (fun ss t => t.string?.map (· :: ss)) [] <;> rfl

theorem run?_strings_of_ne {c : Char} (hw : IsWhite w) (hc : isBlank c = false) (hne : c ≠ '[')
    (cs : List Char) : strings.run? (w ++ c :: cs) = none := by
  rw [strings, run?_ahead_bind hw hc]
  split <;> simp_all

/-- An array of strings is read as their characters. -/
theorem follows_strings : Follows Spells strings Tree.strings? := by
  intro tree text h lead hlead rest
  cases tree with
  | array ts =>
    obtain _ | _ | _ | _ | ⟨h⟩ := h
    rw [List.cons_append, run?_strings_bracket hlead h]
    rfl
  | null | bool | number | string | object =>
    obtain ⟨c, cs, rfl, hc⟩ := h.cons
    have hne : c ≠ '[' := by
      rintro rfl
      simp [Tree.opens] at hc
    exact run?_strings_of_ne hlead (Tree.not_isBlank_of_opens hc) hne _

end Reader

/-! ## §4 Records -/

/-- A field of a record, with what its value in a tree makes of the record. -/
structure Slot (σ : Type) extends Reader.Field σ where
  answer? : σ → Tree → Option σ
  follows : ∀ s, (read s).Follows Spells (answer? s)

namespace Tree

variable {σ : Type}

/-- What a member makes of a record: its key must be a field not seen yet. -/
def member? (slots : List (Slot σ)) (seen : List String × σ) :
    Option String × Tree → Option (List String × σ)
  | (none, _) => none
  | (some key, t) =>
    match slots.find? fun f => f.name == key with
    | none => none
    | some f =>
      if key ∈ seen.1 then none else (f.answer? seen.2 t).map fun s => (key :: seen.1, s)

/-- What values in the order of the fields make of a record. -/
def inOrder? : List (Slot σ) → List Tree → σ → Option σ
  | _, [], s => some s
  | [], _ :: _, _ => none
  | f :: slots, t :: ts, s => (f.answer? s t).bind (inOrder? slots ts)

/-- The record that is said, by members or by values in the order of the fields. -/
def record? (slots : List (Slot σ)) (start : σ) : Tree → Option σ
  | .array ts => inOrder? slots ts start
  | .object ms => (ms.foldlM (member? slots) ([], start)).map Prod.snd
  | _ => none

end Tree

namespace Reader

variable {σ : Type} {w : List Char}

theorem run?_colon (hw : IsWhite w) (cs : List Char) :
    colon.run? (w ++ ':' :: cs) = some ((), cs) := by
  rw [colon, run?_ahead_bind hw (by decide)]
  rfl

/-- A member is read by its key. -/
theorem follows_member (slots : List (Slot σ)) (seen : List String × σ) :
    Follows (Member Spells) (member (slots.map Slot.toField) seen) (Tree.member? slots seen) := by
  rintro ⟨key, tree⟩ text h lead hlead rest
  cases h with
  | @keyed _ _ k w w' text hk hw hw' h =>
    obtain ⟨cs, rfl⟩ := hk.cons
    have htext : lead ++ ('"' :: cs ++ (w ++ ':' :: (w' ++ text)) ++ rest) =
        lead ++ '"' :: (cs ++ (w ++ ':' :: (w' ++ (text ++ rest)))) := by
      simp only [List.append_assoc, List.cons_append]
    rw [htext, member, run?_ahead_bind hlead (by decide)]
    change (skip >>= _).run? _ = _
    rw [run?_skip_bind, run?_bind, run?_stringRest hk]
    cases key with
    | none => rfl
    | some key =>
      simp only [Option.map_some, Option.bind_some, List.find?_map, Function.comp_def, Tree.member?]
      cases hfind : slots.find? fun f => f.name == key with
      | none => rfl
      | some f =>
        simp only [Option.map_some]
        split_ifs
        · rfl
        · rw [run?_bind, run?_colon hw, Option.bind_some, run?_bind, f.follows seen.2 _ _ h _ hw']
          cases f.answer? seen.2 tree <;> rfl

theorem run?_arrayEnd (hw : IsWhite w) (cs : List Char) :
    arrayEnd.run? (w ++ ']' :: cs) = some ((), cs) := by
  rw [arrayEnd, run?_ahead_bind hw (by decide)]
  rfl

theorem run?_arrayEnd_of_ne {c : Char} (hw : IsWhite w) (hc : isBlank c = false) (hne : c ≠ ']')
    (cs : List Char) : arrayEnd.run? (w ++ c :: cs) = none := by
  rw [arrayEnd, run?_ahead_bind hw hc]
  split
  · contradiction
  · simp_all
  · rw [run?_skip_bind, run?_bind]
    change (Option.bind (some _) _) = _
    rw [Option.bind_some]
    split <;> rfl
  · rfl

theorem run?_itemFollows_close (hw : IsWhite w) (first : Bool) (cs : List Char) :
    (itemFollows first).run? (w ++ ']' :: cs) = some (false, ']' :: cs) := by
  rw [itemFollows, run?_ahead_bind hw (by decide)]
  rfl

theorem run?_itemFollows_first {c : Char} (hw : IsWhite w) (hc : isBlank c = false) (hne : c ≠ ']')
    (cs : List Char) : (itemFollows true).run? (w ++ c :: cs) = some (true, c :: cs) := by
  rw [itemFollows, run?_ahead_bind hw hc]
  split
  · contradiction
  · simp_all
  · rfl

theorem run?_itemFollows_comma {w' : List Char} {c : Char} (hw : IsWhite w) (hw' : IsWhite w')
    (hc : isBlank c = false) (hne : c ≠ ']') (cs : List Char) :
    (itemFollows false).run? (w ++ ',' :: (w' ++ c :: cs)) = some (true, c :: cs) := by
  rw [itemFollows, run?_ahead_bind hw (by decide)]
  change (skip >>= _).run? _ = _
  rw [run?_skip_bind, run?_ahead_bind hw' hc]
  split
  · contradiction
  · simp_all
  · rfl

theorem run?_inOrder_cons (f : Field σ) (fields : List (Field σ)) (first : Bool) (s : σ)
    (cs : List Char) :
    (inOrder (f :: fields) first s).run? cs =
      ((itemFollows first).run? cs).bind fun p =>
        if p.1 then ((f.read s).run? p.2).bind fun q => (inOrder fields false q.1).run? q.2
        else (arrayEnd.run? p.2).map fun q => (s, q.2) := by
  rw [inOrder, run?_bind]
  congr 1
  funext ⟨more, cs⟩
  cases more with
  | true => exact run?_bind _ _ cs
  | false =>
    refine (run?_bind _ _ cs).trans ?_
    cases arrayEnd.run? cs <;> rfl

/-- Where the array ends no further field is read. -/
theorem run?_inOrder_close (hw : IsWhite w) (fields : List (Field σ)) (first : Bool) (s : σ)
    (cs : List Char) : (inOrder fields first s).run? (w ++ ']' :: cs) = some (s, cs) := by
  cases fields with
  | nil =>
    rw [inOrder, run?_bind, run?_arrayEnd hw]
    rfl
  | cons f fields =>
    rw [run?_inOrder_cons, run?_itemFollows_close hw, Option.bind_some]
    dsimp only
    rw [if_neg Bool.false_ne_true, ← List.nil_append (']' :: cs), run?_arrayEnd isWhite_nil]
    rfl

/-- A value is read into the next field, and the others after it. -/
theorem run?_inOrder_value {slots : List (Slot σ)} {ts : List Tree} {more : List Char}
    (hmore : ∀ s rest, (inOrder (slots.map Slot.toField) false s).run? (more ++ rest) =
      (Tree.inOrder? slots ts s).map (·, rest))
    (f : Slot σ) {t : Tree} {text : List Char} (h : Spells t text) (s : σ) (rest : List Char) :
    (((f.read s).run? (text ++ (more ++ rest))).bind fun q =>
        (inOrder (slots.map Slot.toField) false q.1).run? q.2) =
      (Tree.inOrder? (f :: slots) (t :: ts) s).map (·, rest) := by
  have hread := f.follows s t text h [] isWhite_nil (more ++ rest)
  rw [List.nil_append] at hread
  rw [hread, Tree.inOrder?]
  cases f.answer? s t with
  | none => rfl
  | some s' => exact hmore s' rest

/-- Further values are read in the order of the fields. -/
theorem run?_inOrder_further (slots : List (Slot σ)) {ts : List Tree} {text : List Char}
    (h : Continued ']' Spells ts text) (s : σ) (rest : List Char) :
    (inOrder (slots.map Slot.toField) false s).run? (text ++ rest) =
      (Tree.inOrder? slots ts s).map (·, rest) := by
  -- by induction on the fields: a value is read as long as there is one and a field for it
  induction slots generalizing ts text s rest with
  | nil =>
    cases h with
    | close hw =>
      rw [List.append_assoc]
      exact run?_inOrder_close hw _ _ s rest
    | comma hw =>
      rw [List.map_nil, inOrder, run?_bind, List.append_assoc, List.cons_append,
        run?_arrayEnd_of_ne hw (by decide) (by decide)]
      rfl
  | cons f slots ih =>
    cases h with
    | close hw =>
      rw [List.append_assoc]
      exact run?_inOrder_close hw _ _ s rest
    | @comma t ts w w' text more hw hw' hb hmore =>
      have hvalue := run?_inOrder_value (fun s rest => ih hmore s rest) f hb s rest
      obtain ⟨c, cs, rfl, hc, hne⟩ := startsItem_of_spells (.inl rfl) t text hb
      have htext : w ++ ',' :: (w' ++ (c :: cs ++ more)) ++ rest =
          w ++ ',' :: (w' ++ c :: (cs ++ (more ++ rest))) := by
        simp only [List.append_assoc, List.cons_append]
      rw [htext, List.map_cons, run?_inOrder_cons, run?_itemFollows_comma hw hw' hc hne,
        Option.bind_some]
      exact hvalue

/-- Values are read in the order of the fields. -/
theorem run?_inOrder {slots : List (Slot σ)} {ts : List Tree} {text : List Char}
    (h : Enclosed ']' Spells ts text) (s : σ) (rest : List Char) :
    (inOrder (slots.map Slot.toField) true s).run? (text ++ rest) =
      (Tree.inOrder? slots ts s).map (·, rest) := by
  cases h with
  | empty hw =>
    rw [List.append_assoc, List.singleton_append, run?_inOrder_close hw]
    cases slots <;> rfl
  | @items t ts w text more hw hb hmore =>
    obtain ⟨c, cs, htext, hc, hne⟩ := startsItem_of_spells (.inl rfl) t text hb
    cases slots with
    | nil =>
      rw [htext, List.append_assoc, List.append_assoc, List.cons_append, List.map_nil, inOrder,
        run?_bind, run?_arrayEnd_of_ne hw hc hne]
      rfl
    | cons f slots =>
      have hvalue := run?_inOrder_value (run?_inOrder_further slots hmore) f hb s rest
      rw [htext, List.cons_append] at hvalue
      rw [htext, List.append_assoc, List.append_assoc, List.cons_append, List.map_cons,
        run?_inOrder_cons, run?_itemFollows_first hw hc hne, Option.bind_some]
      exact hvalue

/-- A record is read by its members or in the order of its fields. -/
theorem follows_record (expected : String) (slots : List (Slot σ)) (start : σ) :
    Follows Spells (record expected (slots.map Slot.toField) start)
      (Tree.record? slots start) := by
  intro tree text h lead hlead rest
  cases tree with
  | array ts =>
    obtain _ | _ | _ | _ | ⟨h⟩ := h
    rw [record, List.cons_append, run?_ahead_bind hlead (by decide)]
    change (skip >>= _).run? _ = _
    rw [run?_skip_bind, run?_inOrder h]
    rfl
  | object ms =>
    obtain _ | _ | _ | _ | _ | ⟨h⟩ := h
    have hitems : (items .object _ ([], start)).run? _ = _ :=
      run?_items (by decide) (by decide) (follows_member slots) startsItem_of_member h _ rest
    rw [record, List.cons_append, run?_ahead_bind hlead (by decide)]
    change (skip >>= _).run? _ = _
    rw [run?_skip_bind, run?_bind, hitems, Tree.record?]
    cases ms.foldlM (Tree.member? slots) ([], start) <;> rfl
  | null | bool | number | string =>
    obtain ⟨c, cs, rfl, hc⟩ := h.cons
    have hne : c ≠ '[' ∧ c ≠ '{' := by
      constructor <;> rintro rfl <;> simp [Tree.opens] at hc
    rw [record, List.cons_append, run?_ahead_bind hlead (Tree.not_isBlank_of_opens hc)]
    dsimp only
    split
    · contradiction
    · simp_all
    · simp_all
    · rw [run?_mismatch]
      rfl

/-! ## §5 Whole texts -/

theorem toOption_readAll_eq (r : Reader σ) (text : String) :
    (readAll r text).toOption =
      (r.run? text.toList).bind fun p => if dropBlanks p.2 = [] then some p.1 else none := by
  rw [readAll, run?]
  cases r.run text.toList with
  | error e => rfl
  | ok p =>
    change (ite _ _ _ : Except ReadError σ).toOption = ite _ _ _
    split_ifs <;> rfl

/-- A reader of whole texts answers what the value of a text says. -/
theorem toOption_readAll {r : Reader σ} {answer? : Tree → Option σ} (h : r.Follows Spells answer?)
    {tree : Tree} {text : String} (hdoc : Document tree text) :
    (readAll r text).toOption = answer? tree := by
  obtain ⟨lead, body, trail, htext, hlead, hbody, htrail⟩ := hdoc
  have hend : dropBlanks trail = [] := by
    rw [← List.append_nil trail]
    exact dropBlanks_append htrail (stops_nil isBlank)
  rw [toOption_readAll_eq, htext, h tree body hbody lead hlead trail]
  cases answer? tree with
  | none => rfl
  | some a => exact if_pos hend

end Reader

end UnitLexer.Json
