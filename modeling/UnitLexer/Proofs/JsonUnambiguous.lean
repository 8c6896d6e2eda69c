/-
UnitLexer.Proofs.JsonUnambiguous — a JSON text says one thing.

The start of a text spells at most one value, and the text does not stop being
read at two places (`spells_unique`): what is behind a value decides nothing,
as long as it does not go on with a character of a number. So a document says
one thing (`Document.unique`), and values that are printed alike are the same
value (`pretty_inj`).

The induction is on the length of the text. Items and members are handled for
any kind of item that is unique up to that length.
-/
import UnitLexer.Proofs.JsonGrammar

namespace UnitLexer.Json

/-! ## §1 Strings -/

theorem shortEscapes_unique : ∀ e ∈ shortEscapes, ∀ e' ∈ shortEscapes, e.1 = e'.1 → e.2 = e'.2 := by
  decide

/-- The start of a text is one piece of a string. -/
theorem Piece.Spelled.unique {p p' : Piece} {text text' rest rest' : List Char}
    (h : p.Spelled text) (h' : p'.Spelled text') (heq : text ++ rest = text' ++ rest') :
    p = p' ∧ rest = rest' := by
  cases h with
  | plain _ _ hback =>
    cases h' with
    | plain => simpa using heq
    | short | unit => exact absurd (List.cons.inj heq).1 hback
  | short h =>
    cases h' with
    | plain _ _ hback' => exact absurd (List.cons.inj heq).1.symm hback'
    | short h' =>
      obtain ⟨hletter, hrest⟩ := List.cons.inj (List.cons.inj heq).2
      exact ⟨congrArg Piece.char (shortEscapes_unique _ h _ h' hletter), hrest⟩
    | unit =>
      exact absurd (List.cons.inj (List.cons.inj heq).2).1 (ne_u_of_mem_shortEscapes _ h)
  | unit h =>
    cases h' with
    | plain _ _ hback' => exact absurd (List.cons.inj heq).1.symm hback'
    | short h' =>
      exact absurd (List.cons.inj (List.cons.inj heq).2).1.symm (ne_u_of_mem_shortEscapes _ h')
    | unit h' =>
      simp only [List.cons_append, List.nil_append, List.cons.injEq, true_and] at heq
      obtain ⟨rfl, rfl, rfl, rfl, rfl⟩ := heq
      rw [h, Option.some.injEq] at h'
      exact ⟨congrArg Piece.unit h', rfl⟩

/-- No piece starts with the closing quote. -/
theorem Piece.Spelled.ne_quote {p : Piece} {text rest rest' : List Char} (h : p.Spelled text) :
    text ++ rest ≠ '"' :: rest' := by
  cases h with
  | plain _ hquote => simp [hquote]
  | short | unit => simp

theorem SpelledPieces.unique {ps ps' : List Piece} {text text' rest rest' : List Char}
    (h : SpelledPieces ps text) (h' : SpelledPieces ps' text')
    (heq : text ++ '"' :: rest = text' ++ '"' :: rest') : ps = ps' ∧ rest = rest' := by
  induction h generalizing ps' text' with
  | nil =>
    cases h' with
    | nil => simpa using heq
    | cons hp =>
      rw [List.append_assoc] at heq
      exact absurd heq.symm hp.ne_quote
  | cons hp _ ih =>
    cases h' with
    | nil =>
      rw [List.append_assoc] at heq
      exact absurd heq hp.ne_quote
    | cons hp' hmore' =>
      rw [List.append_assoc, List.append_assoc] at heq
      obtain ⟨rfl, heq⟩ := hp.unique hp' heq
      obtain ⟨rfl, heq⟩ := ih hmore' heq
      exact ⟨rfl, heq⟩

/-- The start of a text is one string. -/
theorem Literal.unique {s s' : Option String} {text text' rest rest' : List Char}
    (h : Literal s text) (h' : Literal s' text') (heq : text ++ rest = text' ++ rest') :
    s = s' ∧ rest = rest' := by
  obtain ⟨h⟩ := h
  obtain ⟨h'⟩ := h'
  simp only [List.cons_append, List.append_assoc, List.nil_append, List.cons.injEq, true_and] at heq
  obtain ⟨rfl, heq⟩ := h.unique h' heq
  exact ⟨rfl, heq⟩

/-! ## §2 Numbers -/

theorem IsFraction.numberChar {cs : List Char} (h : IsFraction cs) :
    ∀ c ∈ cs, isNumberChar c = true := by
  cases h with
  | none => simp
  | some h =>
    intro c hc
    rcases List.mem_cons.mp hc with rfl | hc
    · decide
    · exact isNumberChar_of_isDigit (h.digit c hc)

theorem IsExponent.numberChar {cs : List Char} (h : IsExponent cs) :
    ∀ c ∈ cs, isNumberChar c = true := by
  cases h with
  | none => simp
  | lower h | upper h =>
    intro c hc
    rcases List.mem_cons.mp hc with rfl | hc
    · decide
    · exact h.numberChar c hc

theorem IsNumeral.numberChar {cs : List Char} (h : IsNumeral cs) :
    ∀ c ∈ cs, isNumberChar c = true := by
  have hparts {ws fs es : List Char} (hw : IsWhole ws) (hf : IsFraction fs) (he : IsExponent es) :
      ∀ c ∈ ws ++ (fs ++ es), isNumberChar c = true := by
    intro c hc
    rcases List.mem_append.mp hc with hc | hc
    · exact isNumberChar_of_isDigit (hw.digit c hc)
    · rcases List.mem_append.mp hc with hc | hc
      · exact hf.numberChar c hc
      · exact he.numberChar c hc
  cases h with
  | unsigned hw hf he => exact hparts hw hf he
  | negative hw hf he =>
    intro c hc
    rcases List.mem_cons.mp hc with rfl | hc
    · decide
    · exact hparts hw hf he c hc

/-- The start of a text is one number, if the number ends where it can end. -/
theorem IsNumeral.unique {cs cs' rest rest' : List Char} (h : IsNumeral cs) (h' : IsNumeral cs')
    (hrest : Stops isNumberChar rest) (hrest' : Stops isNumberChar rest')
    (heq : cs ++ rest = cs' ++ rest') : cs = cs' ∧ rest = rest' := by
  have hcs : (cs ++ rest).takeWhile isNumberChar = cs :=
    takeWhile_append_of_all h.numberChar hrest
  rw [heq, takeWhile_append_of_all h'.numberChar hrest'] at hcs
  subst hcs
  exact ⟨rfl, List.append_cancel_left heq⟩

/-! ## §3 Items -/

/-- Up to a length the start of a text says one thing, if it is not followed by a
character of a number. -/
def UniqueUpTo {α : Type} (n : Nat) (Says : α → List Char → Prop) : Prop :=
  ∀ a a' text text' rest rest', text.length ≤ n → Says a text → Says a' text' →
    Stops isNumberChar rest → Stops isNumberChar rest' → text ++ rest = text' ++ rest' →
    a = a' ∧ rest = rest'

theorem eq_of_white_append {w w' cs cs' : List Char} (hw : IsWhite w) (hw' : IsWhite w')
    (hcs : Stops Reader.isBlank cs) (hcs' : Stops Reader.isBlank cs') (heq : w ++ cs = w' ++ cs') :
    cs = cs' := by
  rw [← dropBlanks_append hw hcs, heq, dropBlanks_append hw' hcs']

theorem isNumberChar_eq_false_of_isBlank {c : Char} (h : Reader.isBlank c = true) :
    isNumberChar c = false := by
  simp only [Reader.isBlank, Bool.or_eq_true, beq_iff_eq] at h
  rcases h with ((rfl | rfl) | rfl) | rfl <;> decide

theorem IsWhite.stops {w cs : List Char} (hw : IsWhite w) (hcs : Stops isNumberChar cs) :
    Stops isNumberChar (w ++ cs) := by
  cases w with
  | nil => exact hcs
  | cons c w => exact stops_cons.mpr (isNumberChar_eq_false_of_isBlank (hw c List.mem_cons_self))

theorem StartsItem.stops {closing : Char} {text : List Char} (h : StartsItem closing text)
    (rest : List Char) : Stops Reader.isBlank (text ++ rest) := by
  obtain ⟨c, cs, rfl, hc, -⟩ := h
  exact stops_cons.mpr hc

theorem StartsItem.ne_closing {closing : Char} {text rest rest' : List Char}
    (h : StartsItem closing text) : text ++ rest ≠ closing :: rest' := by
  obtain ⟨c, cs, rfl, -, hne⟩ := h
  exact fun heq => hne (List.cons.inj heq).1

section

variable {α : Type} {closing : Char} {Says : α → List Char → Prop} {as as' : List α}
  {text text' rest rest' : List Char}

/-- What can follow an item does not go on with a character of a number. -/
theorem Continued.stops (hclosing : closing = ']' ∨ closing = '}')
    (h : Continued closing Says as text) (rest : List Char) :
    Stops isNumberChar (text ++ rest) := by
  cases h with
  | close hw =>
    rw [List.append_assoc]
    refine hw.stops (stops_cons.mpr ?_)
    rcases hclosing with rfl | rfl <;> decide
  | comma hw =>
    rw [List.append_assoc]
    exact hw.stops (stops_cons.mpr (by decide))

/-- What follows an item says one thing. -/
theorem Continued.unique {n : Nat} (hclosing : closing = ']' ∨ closing = '}')
    (hitem : UniqueUpTo n Says) (hstart : ∀ a text, Says a text → StartsItem closing text)
    (h : Continued closing Says as text) (h' : Continued closing Says as' text')
    (hlen : text.length ≤ n) (heq : text ++ rest = text' ++ rest') :
    as = as' ∧ rest = rest' := by
  have hblank : Reader.isBlank closing = false := by rcases hclosing with rfl | rfl <;> rfl
  have hcomma : closing ≠ ',' := by rcases hclosing with rfl | rfl <;> decide
  induction h generalizing as' text' with
  | close hw =>
    cases h' with
    | close hw' =>
      rw [List.append_assoc, List.append_assoc] at heq
      have htail := eq_of_white_append hw hw' (stops_cons.mpr hblank) (stops_cons.mpr hblank) heq
      exact ⟨rfl, (List.cons.inj htail).2⟩
    | comma hw' =>
      rw [List.append_assoc, List.append_assoc] at heq
      have htail :=
        eq_of_white_append hw hw' (stops_cons.mpr hblank) (stops_cons.mpr (by decide)) heq
      exact absurd (List.cons.inj htail).1 hcomma
  | @comma a as w w₁ item more hw hw₁ ha hmore ih =>
    cases h' with
    | close hw' =>
      rw [List.append_assoc, List.append_assoc] at heq
      have htail :=
        eq_of_white_append hw hw' (stops_cons.mpr (by decide)) (stops_cons.mpr hblank) heq
      exact absurd (List.cons.inj htail).1.symm hcomma
    | @comma a' as' w' w₁' item' more' hw' hw₁' ha' hmore' =>
      simp only [List.append_assoc, List.cons_append] at heq
      have htail := eq_of_white_append hw hw' (stops_cons.mpr (by decide))
        (stops_cons.mpr (by decide)) heq
      have hitems := eq_of_white_append hw₁ hw₁' ((hstart a item ha).stops _)
        ((hstart a' item' ha').stops _) (List.cons.inj htail).2
      simp only [List.length_append, List.length_cons] at hlen
      obtain ⟨rfl, hmores⟩ := hitem a a' item item' _ _ (by omega) ha ha'
        (hmore.stops hclosing rest) (hmore'.stops hclosing rest') hitems
      obtain ⟨rfl, hrest⟩ := ih hmore' (by omega) hmores
      exact ⟨rfl, hrest⟩

/-- What follows an opening bracket says one thing. -/
theorem Enclosed.unique {n : Nat} (hclosing : closing = ']' ∨ closing = '}')
    (hitem : UniqueUpTo n Says) (hstart : ∀ a text, Says a text → StartsItem closing text)
    (h : Enclosed closing Says as text) (h' : Enclosed closing Says as' text')
    (hlen : text.length ≤ n) (heq : text ++ rest = text' ++ rest') :
    as = as' ∧ rest = rest' := by
  have hblank : Reader.isBlank closing = false := by rcases hclosing with rfl | rfl <;> rfl
  cases h with
  | empty hw =>
    cases h' with
    | empty hw' =>
      rw [List.append_assoc, List.append_assoc] at heq
      have htail := eq_of_white_append hw hw' (stops_cons.mpr hblank) (stops_cons.mpr hblank) heq
      exact ⟨rfl, (List.cons.inj htail).2⟩
    | @items a' as' w' item' more' hw' ha' =>
      simp only [List.append_assoc, List.cons_append, List.nil_append] at heq
      have hstart' := hstart a' item' ha'
      have htail := eq_of_white_append hw hw' (stops_cons.mpr hblank) (hstart'.stops _) heq
      exact absurd htail.symm hstart'.ne_closing
  | @items a as w item more hw ha hmore =>
    have hstart₁ := hstart a item ha
    cases h' with
    | empty hw' =>
      simp only [List.append_assoc, List.cons_append, List.nil_append] at heq
      have htail := eq_of_white_append hw hw' (hstart₁.stops _) (stops_cons.mpr hblank) heq
      exact absurd htail hstart₁.ne_closing
    | @items a' as' w' item' more' hw' ha' hmore' =>
      simp only [List.append_assoc] at heq
      have hitems := eq_of_white_append hw hw' (hstart₁.stops _)
        ((hstart a' item' ha').stops _) heq
      simp only [List.length_append] at hlen
      obtain ⟨rfl, hmores⟩ := hitem a a' item item' _ _ (by omega) ha ha'
        (hmore.stops hclosing rest) (hmore'.stops hclosing rest') hitems
      obtain ⟨rfl, hrest⟩ := hmore.unique hclosing hitem hstart hmore' (by omega) hmores
      exact ⟨rfl, hrest⟩

end

/-- A member says one thing where its value does. -/
theorem uniqueUpTo_member {n : Nat} (h : UniqueUpTo n Spells) : UniqueUpTo n (Member Spells) := by
  intro m m' text text' rest rest' hlen hm hm' hrest hrest' heq
  cases hm with
  | @keyed key tree k w w₁ value hk hw hw₁ hvalue =>
    cases hm' with
    | @keyed key' tree' k' w' w₁' value' hk' hw' hw₁' hvalue' =>
      simp only [List.append_assoc, List.cons_append] at heq
      obtain ⟨rfl, hcolon⟩ := hk.unique hk' heq
      have htail := eq_of_white_append hw hw' (stops_cons.mpr (by decide))
        (stops_cons.mpr (by decide)) hcolon
      have hstart := startsItem_of_spells (.inl rfl) tree value hvalue
      have hstart' := startsItem_of_spells (.inl rfl) tree' value' hvalue'
      have hvalues := eq_of_white_append hw₁ hw₁' (hstart.stops _) (hstart'.stops _)
        (List.cons.inj htail).2
      simp only [List.length_append, List.length_cons] at hlen
      obtain ⟨rfl, hrests⟩ := h tree tree' value value' rest rest' (by omega) hvalue hvalue' hrest
        hrest' hvalues
      exact ⟨rfl, hrests⟩

/-! ## §4 Values -/

/-- Two values of the same kind. -/
inductive Tree.Alike : Tree → Tree → Prop where
  | null : Alike .null .null
  | bool (b b' : Bool) : Alike (.bool b) (.bool b')
  | number (text text' : List Char) : Alike (.number text) (.number text')
  | string (s s' : Option String) : Alike (.string s) (.string s')
  | array (ts ts' : List Tree) : Alike (.array ts) (.array ts')
  | object (ms ms' : List (Option String × Tree)) : Alike (.object ms) (.object ms')

/-- The first character of a value tells what kind of value it is. -/
theorem Tree.alike_of_opens {tree tree' : Tree} {c : Char} (h : tree.opens c = true)
    (h' : tree'.opens c = true) : tree.Alike tree' := by
  have hnumber : (c == '-' || c.isDigit) = true → c ≠ 't' ∧ c ≠ 'f' ∧ c ≠ 'n' ∧ c ≠ '"' ∧
      c ≠ '[' ∧ c ≠ '{' := by
    intro hc
    refine ⟨?_, ?_, ?_, ?_, ?_, ?_⟩ <;> rintro rfl <;> contradiction
  cases tree <;> cases tree' <;> first
    | constructor
    | grind [Tree.opens]

/-- Up to every length the start of a text is one value. -/
theorem uniqueUpTo_spells (n : Nat) : UniqueUpTo n Spells := by
  induction n with
  | zero =>
    intro tree tree' text text' rest rest' hlen h
    obtain ⟨c, cs, rfl, -⟩ := h.cons
    simp at hlen
  | succ n ih =>
    intro tree tree' text text' rest rest' hlen h h' hrest hrest' heq
    have halike : tree.Alike tree' := by
      obtain ⟨c, cs, rfl, hc⟩ := h.cons
      obtain ⟨c', cs', rfl, hc'⟩ := h'.cons
      obtain ⟨rfl, -⟩ := List.cons.inj heq
      exact Tree.alike_of_opens hc hc'
    cases halike with
    | null =>
      cases h
      cases h'
      exact ⟨rfl, by simpa using heq⟩
    | bool b b' =>
      cases h
      cases h'
      cases b <;> cases b' <;> simp_all [boolText]
    | number =>
      obtain _ | _ | ⟨h⟩ := h
      obtain _ | _ | ⟨h'⟩ := h'
      obtain ⟨rfl, hrests⟩ := h.unique h' hrest hrest' heq
      exact ⟨rfl, hrests⟩
    | string =>
      obtain _ | _ | _ | ⟨h⟩ := h
      obtain _ | _ | _ | ⟨h'⟩ := h'
      obtain ⟨rfl, hrests⟩ := h.unique h' heq
      exact ⟨rfl, hrests⟩
    | array =>
      obtain _ | _ | _ | _ | ⟨h⟩ := h
      obtain _ | _ | _ | _ | ⟨h'⟩ := h'
      obtain ⟨rfl, hrests⟩ := h.unique (.inl rfl) ih (startsItem_of_spells (.inl rfl)) h'
        (Nat.le_of_succ_le_succ hlen) (List.cons.inj heq).2
      exact ⟨rfl, hrests⟩
    | object =>
      obtain _ | _ | _ | _ | _ | ⟨h⟩ := h
      obtain _ | _ | _ | _ | _ | ⟨h'⟩ := h'
      obtain ⟨rfl, hrests⟩ := h.unique (.inr rfl) (uniqueUpTo_member ih) startsItem_of_member h'
        (Nat.le_of_succ_le_succ hlen) (List.cons.inj heq).2
      exact ⟨rfl, hrests⟩

/-- The start of a text is one value, if the value is not followed by a character of
a number. -/
theorem spells_unique {tree tree' : Tree} {text text' rest rest' : List Char}
    (h : Spells tree text) (h' : Spells tree' text') (hrest : Stops isNumberChar rest)
    (hrest' : Stops isNumberChar rest') (heq : text ++ rest = text' ++ rest') :
    tree = tree' ∧ rest = rest' :=
  uniqueUpTo_spells text.length tree tree' text text' rest rest' (Nat.le_refl _) h h' hrest hrest'
    heq

/-- A document says one thing. -/
theorem Document.unique {tree tree' : Tree} {text : String} (h : Document tree text)
    (h' : Document tree' text) : tree = tree' := by
  obtain ⟨lead, body, trail, htext, hlead, hbody, htrail⟩ := h
  obtain ⟨lead', body', trail', htext', hlead', hbody', htrail'⟩ := h'
  have hstart := startsItem_of_spells (.inl rfl) tree body hbody
  have hstart' := startsItem_of_spells (.inl rfl) tree' body' hbody'
  have hbodies : body ++ trail = body' ++ trail' :=
    eq_of_white_append hlead hlead' (hstart.stops trail) (hstart'.stops trail')
      (htext.symm.trans htext')
  have hstops {w : List Char} (hw : IsWhite w) : Stops isNumberChar w :=
    List.append_nil w ▸ hw.stops (stops_nil isNumberChar)
  exact (spells_unique hbody hbody' (hstops htrail) (hstops htrail') hbodies).1

/-! ## §5 Printed values -/

mutual

/-- Values that say the same are the same. -/
theorem tree_inj : ∀ {j j' : Json}, j.tree = j'.tree → j = j'
  | .null, j', h => by cases j' <;> simp_all [tree]
  | .bool b, j', h => by cases j' <;> simp_all [tree]
  | .number n, j', h => by
    cases j' with
    | number n' => rw [toDigits_inj (by decide) (by decide) (Tree.number.inj h)]
    | _ => simp [tree] at h
  | .string s, j', h => by cases j' <;> simp_all [tree]
  | .array js, j', h => by
    cases j' with
    | array js' => rw [trees_inj (Tree.array.inj h)]
    | _ => simp [tree] at h
  | .object ms, j', h => by
    cases j' with
    | object ms' => rw [memberTrees_inj (Tree.object.inj h)]
    | _ => simp [tree] at h

theorem trees_inj : ∀ {js js' : List Json}, trees js = trees js' → js = js'
  | [], js', h => by cases js' <;> simp_all [trees]
  | j :: js, js', h => by
    cases js' with
    | nil => simp [trees] at h
    | cons j' js' =>
      obtain ⟨hj, hjs⟩ := List.cons.inj h
      rw [tree_inj hj, trees_inj hjs]

theorem memberTrees_inj : ∀ {ms ms' : List (String × Json)},
    memberTrees ms = memberTrees ms' → ms = ms'
  | [], ms', h => by cases ms' <;> simp_all [memberTrees]
  | (k, j) :: ms, ms', h => by
    cases ms' with
    | nil => simp [memberTrees] at h
    | cons m' ms' =>
      obtain ⟨hm, hms⟩ := List.cons.inj h
      obtain ⟨hk, hj⟩ := Prod.mk.inj hm
      rw [Option.some.inj hk, tree_inj hj, memberTrees_inj hms]

end

/-- No two values are printed alike on several lines. -/
theorem pretty_inj {j j' : Json} (h : j.pretty = j'.pretty) : j = j' :=
  tree_inj ((document_pretty j).unique (h ▸ document_pretty j'))

end UnitLexer.Json
