/-
UnitLexer.Proofs.JsonGrammar — the grammar of JSON texts.

The grammar is given here on its own: which texts are JSON, and which value
each of them spells (`Spells`). It knows of no types and no fields, so it tells
what a text says before anybody asks for a configuration. A value can be spelled
in many ways: with white space between its parts, and with escapes in its
strings and keys. Numbers are kept as they are spelled, and a string that
escapes half a surrogate pair has no characters.

What the printers write is in the grammar and spells the value printed
(`spells_compactText`, `spells_prettyText`).
-/
import Mathlib.Tactic.SplitIfs
import UnitLexer.Json.Printer
import UnitLexer.Json.Reader
import UnitLexer.Proofs.NumberGrammar

namespace UnitLexer.Json

/-! ## §1 Strings -/

/-- The escapes of a single letter, with what they stand for. -/
def shortEscapes : List (Char × Char) :=
  [('"', '"'), ('\\', '\\'), ('/', '/'), ('b', '\x08'), ('f', '\x0c'), ('n', '\n'), ('r', '\r'),
    ('t', '\t')]

theorem ne_u_of_mem_shortEscapes : ∀ e ∈ shortEscapes, e.1 ≠ 'u' := by
  decide

/-- What a string is spelled with: characters, and code units for what is escaped
by its number. -/
inductive Piece where
  | char (c : Char)
  | unit (n : Nat)

/-- How a piece is spelled. -/
inductive Piece.Spelled : Piece → List Char → Prop where
  | plain {c : Char} (hprint : 0x20 ≤ c.toNat) (hquote : c ≠ '"') (hback : c ≠ '\\') :
      Spelled (.char c) [c]
  | short {letter c : Char} (h : (letter, c) ∈ shortEscapes) : Spelled (.char c) ['\\', letter]
  | unit {a b c d : Char} {n : Nat} (h : hexQuad? a b c d = some n) :
      Spelled (.unit n) ['\\', 'u', a, b, c, d]

/-- The pieces of a string, one behind the other. -/
inductive SpelledPieces : List Piece → List Char → Prop where
  | nil : SpelledPieces [] []
  | cons {p : Piece} {ps : List Piece} {text more : List Char} (h : p.Spelled text)
      (hmore : SpelledPieces ps more) : SpelledPieces (p :: ps) (text ++ more)

/-- The first half of a surrogate pair. -/
def isLead (n : Nat) : Bool :=
  0xD800 ≤ n && n ≤ 0xDBFF

/-- The second half of a surrogate pair. -/
def isTrail (n : Nat) : Bool :=
  0xDC00 ≤ n && n ≤ 0xDFFF

/-- The character of a surrogate pair. -/
def pairChar (lead trail : Nat) : Char :=
  Char.ofNat (0x10000 + (lead - 0xD800) * 0x400 + (trail - 0xDC00))

/-- The characters that pieces stand for. Half a surrogate pair stands for none. -/
def decode : List Piece → Option (List Char)
  | [] => some []
  | .char c :: ps => (decode ps).map (c :: ·)
  | .unit n :: ps =>
    if isTrail n then none
    else if isLead n then
      match ps with
      | .unit m :: ps => if isTrail m then (decode ps).map (pairChar n m :: ·) else none
      | _ => none
    else (decode ps).map (Char.ofNat n :: ·)

/-- A code unit that is no half of a surrogate pair is a code point. -/
theorem decode_unit {n : Nat} {ps : List Piece} (hlead : isLead n = false)
    (htrail : isTrail n = false) :
    decode (.unit n :: ps) = (decode ps).map (Char.ofNat n :: ·) := by
  simp [decode.eq_def (.unit n :: ps), hlead, htrail]

/-- A string between its quotes. -/
inductive Literal : Option String → List Char → Prop where
  | quoted {ps : List Piece} {text : List Char} (h : SpelledPieces ps text) :
      Literal ((decode ps).map String.ofList) ('"' :: (text ++ ['"']))

/-! ## §2 Numbers -/

/-- `0|[1-9][0-9]*` -/
structure IsWhole (cs : List Char) : Prop extends IsDigits cs where
  eq_zero : cs.head? = some '0' → cs = ['0']

/-- `(\.[0-9]+)?` -/
inductive IsFraction : List Char → Prop where
  | none : IsFraction []
  | some {ds : List Char} (h : IsDigits ds) : IsFraction ('.' :: ds)

/-- `([eE][-+]?[0-9]+)?` -/
inductive IsExponent : List Char → Prop where
  | none : IsExponent []
  | lower {is : List Char} (h : IsInteger is) : IsExponent ('e' :: is)
  | upper {is : List Char} (h : IsInteger is) : IsExponent ('E' :: is)

/-- `-?(0|[1-9][0-9]*)(\.[0-9]+)?([eE][-+]?[0-9]+)?` -/
inductive IsNumeral : List Char → Prop where
  | unsigned {ws fs es : List Char} (hw : IsWhole ws) (hf : IsFraction fs) (he : IsExponent es) :
      IsNumeral (ws ++ (fs ++ es))
  | negative {ws fs es : List Char} (hw : IsWhole ws) (hf : IsFraction fs) (he : IsExponent es) :
      IsNumeral ('-' :: (ws ++ (fs ++ es)))

/-! ## §3 Values -/

/-- What a text says, its white space and the spelling of its strings apart. -/
inductive Tree where
  | null
  | bool (b : Bool)
  | number (text : List Char)
  | string (s : Option String)
  | array (items : List Tree)
  | object (members : List (Option String × Tree))

/-- The text is white space or empty. -/
def IsWhite (cs : List Char) : Prop :=
  ∀ c ∈ cs, Reader.isBlank c = true

theorem dropBlanks_append {w cs : List Char} (hw : IsWhite w) (hcs : Stops Reader.isBlank cs) :
    Reader.dropBlanks (w ++ cs) = cs := by
  rw [Reader.dropBlanks, List.dropWhile_append_of_pos hw, dropWhile_eq_self_of_stops hcs]

section

variable {α : Type} (closing : Char) (Says : α → List Char → Prop)

/-- What follows an item: further items, each behind a comma, and the closing
bracket. -/
inductive Continued : List α → List Char → Prop where
  | close {w : List Char} (hw : IsWhite w) : Continued [] (w ++ [closing])
  | comma {a : α} {as : List α} {w w' text more : List Char} (hw : IsWhite w) (hw' : IsWhite w')
      (h : Says a text) (hmore : Continued as more) :
      Continued (a :: as) (w ++ ',' :: (w' ++ (text ++ more)))

/-- What follows an opening bracket: the items and the closing bracket. -/
inductive Enclosed : List α → List Char → Prop where
  | empty {w : List Char} (hw : IsWhite w) : Enclosed [] (w ++ [closing])
  | items {a : α} {as : List α} {w text more : List Char} (hw : IsWhite w) (h : Says a text)
      (hmore : Continued closing Says as more) : Enclosed (a :: as) (w ++ (text ++ more))

end

/-- A member of an object: its key, a colon and its value. -/
inductive Member (Value : Tree → List Char → Prop) : Option String × Tree → List Char → Prop where
  | keyed {key : Option String} {tree : Tree} {k w w' text : List Char} (hk : Literal key k)
      (hw : IsWhite w) (hw' : IsWhite w') (h : Value tree text) :
      Member Value (key, tree) (k ++ (w ++ ':' :: (w' ++ text)))

/-- The text is JSON and says this. -/
inductive Spells : Tree → List Char → Prop where
  | null : Spells .null ['n', 'u', 'l', 'l']
  | bool (b : Bool) : Spells (.bool b) (boolText b)
  | number {cs : List Char} (h : IsNumeral cs) : Spells (.number cs) cs
  | string {s : Option String} {cs : List Char} (h : Literal s cs) : Spells (.string s) cs
  | array {ts : List Tree} {cs : List Char} (h : Enclosed ']' Spells ts cs) :
      Spells (.array ts) ('[' :: cs)
  | object {ms : List (Option String × Tree)} {cs : List Char}
      (h : Enclosed '}' (Member Spells) ms cs) : Spells (.object ms) ('{' :: cs)

/-- A whole text: a value, with white space around it or not. -/
def Document (tree : Tree) (text : String) : Prop :=
  ∃ lead body trail, text.toList = lead ++ (body ++ trail) ∧ IsWhite lead ∧ Spells tree body ∧
    IsWhite trail

/-! ## §4 How values start -/

/-- The characters that a value can start with. -/
def Tree.opens : Tree → Char → Bool
  | .null, c => c == 'n'
  | .bool b, c => b && c == 't' || !b && c == 'f'
  | .number _, c => c == '-' || c.isDigit
  | .string _, c => c == '"'
  | .array _, c => c == '['
  | .object _, c => c == '{'

theorem Literal.cons {s : Option String} {text : List Char} (h : Literal s text) :
    ∃ cs, text = '"' :: cs := by
  cases h with
  | @quoted _ text => exact ⟨text ++ ['"'], rfl⟩

theorem IsWhole.cons {cs : List Char} (h : IsWhole cs) :
    ∃ c ds, cs = c :: ds ∧ c.isDigit = true := by
  cases cs with
  | nil => exact absurd rfl h.ne_nil
  | cons c ds => exact ⟨c, ds, rfl, h.digit c List.mem_cons_self⟩

theorem IsNumeral.cons {cs : List Char} (h : IsNumeral cs) :
    ∃ c ds, cs = c :: ds ∧ (c == '-' || c.isDigit) = true := by
  cases h with
  | unsigned hw =>
    obtain ⟨c, ds, rfl, hc⟩ := hw.cons
    exact ⟨c, _, rfl, by simp [hc]⟩
  | negative => exact ⟨'-', _, rfl, by simp⟩

theorem Spells.cons {tree : Tree} {text : List Char} (h : Spells tree text) :
    ∃ c cs, text = c :: cs ∧ tree.opens c = true := by
  cases h with
  | null => exact ⟨_, _, rfl, rfl⟩
  | bool b => cases b <;> exact ⟨_, _, rfl, rfl⟩
  | number h => exact h.cons
  | string h =>
    obtain ⟨cs, rfl⟩ := h.cons
    exact ⟨_, _, rfl, rfl⟩
  | array | object => exact ⟨_, _, rfl, rfl⟩

/-- No value starts with white space or a closing bracket. -/
theorem Tree.opens_eq_false {c : Char} (h : Reader.isBlank c = true ∨ c = ']' ∨ c = '}')
    (tree : Tree) : tree.opens c = false := by
  simp only [Reader.isBlank, Bool.or_eq_true, beq_iff_eq] at h
  rcases h with (((rfl | rfl) | rfl) | rfl) | rfl | rfl <;> cases tree with
  | bool b => cases b <;> rfl
  | _ => rfl

theorem Tree.not_isBlank_of_opens {tree : Tree} {c : Char} (h : tree.opens c = true) :
    Reader.isBlank c = false := by
  cases hc : Reader.isBlank c with
  | false => rfl
  | true =>
    rw [tree.opens_eq_false (.inl hc)] at h
    contradiction

/-- The text starts with neither white space nor the closing bracket. -/
def StartsItem (closing : Char) (text : List Char) : Prop :=
  ∃ c cs, text = c :: cs ∧ Reader.isBlank c = false ∧ c ≠ closing

theorem startsItem_of_spells {closing : Char} (hclosing : closing = ']' ∨ closing = '}')
    (tree : Tree) (text : List Char) (h : Spells tree text) : StartsItem closing text := by
  obtain ⟨c, cs, rfl, hc⟩ := h.cons
  refine ⟨c, cs, rfl, Tree.not_isBlank_of_opens hc, ?_⟩
  rintro rfl
  rw [tree.opens_eq_false (.inr hclosing)] at hc
  contradiction

theorem startsItem_of_member (m : Option String × Tree) (text : List Char)
    (h : Member Spells m text) : StartsItem '}' text := by
  obtain ⟨hk⟩ := h
  obtain ⟨cs, rfl⟩ := hk.cons
  exact ⟨'"', _, rfl, by decide, by decide⟩

/-! ## §5 What is printed is in the grammar -/

mutual

/-- What a value says. -/
def tree : Json → Tree
  | .null => .null
  | .bool b => .bool b
  | .number n => .number (Nat.toDigits 10 n)
  | .string s => .string s
  | .array js => .array (trees js)
  | .object ms => .object (memberTrees ms)

/-- What values say. -/
def trees : List Json → List Tree
  | [] => []
  | j :: js => tree j :: trees js

/-- What members say. -/
def memberTrees : List (String × Json) → List (Option String × Tree)
  | [] => []
  | (k, j) :: ms => (some k, tree j) :: memberTrees ms

end

theorem trees_eq_map (js : List Json) : trees js = js.map tree := by
  induction js with
  | nil => rfl
  | cons j js ih => rw [trees, ih, List.map_cons]

theorem memberTrees_eq_map (ms : List (String × Json)) :
    memberTrees ms = ms.map fun m => (some m.1, m.2.tree) := by
  induction ms with
  | nil => rfl
  | cons m ms ih => rw [memberTrees, ih, List.map_cons]

/-- The controls without a letter of their own are escaped by their number. -/
theorem hexQuad?_control : ∀ n < 0x20, hexQuad? '0' '0' (hexDigit (n / 16)) (hexDigit (n % 16)) =
    some n := by
  decide

/-- A character is printed as one piece that stands for it. -/
theorem exists_piece (c : Char) :
    ∃ p : Piece, p.Spelled (escapedChar c) ∧ ∀ ps, decode (p :: ps) = (decode ps).map (c :: ·) := by
  unfold escapedChar
  -- seven characters have a letter, of the others the controls have a number
  split_ifs with hquote hback hb hf hn hr ht hcontrol
  case pos | pos | pos | pos | pos | pos | pos =>
    subst_vars
    exact ⟨.char _, .short (by decide), fun ps => rfl⟩
  case pos =>
    refine ⟨.unit c.toNat, .unit (hexQuad?_control _ hcontrol), fun ps => ?_⟩
    have hlead : isLead c.toNat = false := by simp [isLead]; omega
    have htrail : isTrail c.toNat = false := by simp [isTrail]; omega
    simp [decode_unit hlead htrail]
  case neg => exact ⟨.char c, .plain (by omega) hquote hback, fun ps => rfl⟩

theorem exists_pieces (cs : List Char) :
    ∃ ps, SpelledPieces ps (cs.flatMap escapedChar) ∧ decode ps = some cs := by
  induction cs with
  | nil => exact ⟨[], .nil, rfl⟩
  | cons c cs ih =>
    obtain ⟨p, hp, hdecode⟩ := exists_piece c
    obtain ⟨ps, hps, hmore⟩ := ih
    exact ⟨p :: ps, .cons hp hps, by rw [hdecode, hmore, Option.map_some]⟩

/-- A printed string is a literal of it. -/
theorem literal_stringText (s : String) : Literal (some s) (stringText s) := by
  obtain ⟨ps, hps, hdecode⟩ := exists_pieces s.toList
  have hliteral := Literal.quoted hps
  rwa [hdecode, Option.map_some, String.ofList_toList] at hliteral

/-- A printed number is a numeral. -/
theorem isNumeral_toDigits (n : Nat) : IsNumeral (Nat.toDigits 10 n) := by
  have hdigits : IsDigits (Nat.toDigits 10 n) :=
    ⟨Nat.toDigits_ne_nil, fun c hc => Nat.isDigit_of_mem_toDigits (by decide) (by decide) hc⟩
  simpa using IsNumeral.unsigned ⟨hdigits, toDigits_head_zero⟩ .none .none

theorem isWhite_nil : IsWhite [] := by
  simp [IsWhite]

theorem isWhite_blank : IsWhite [' '] := by
  simp [IsWhite, Reader.isBlank]

theorem isWhite_newline (depth : Nat) : IsWhite (newline depth) := by
  simp only [IsWhite, newline, List.mem_cons, List.mem_replicate]
  rintro c (rfl | ⟨-, rfl⟩) <;> decide

mutual

/-- A value printed without white space is spelled. -/
theorem spells_compactText : ∀ j : Json, Spells j.tree j.compactText
  | .null => .null
  | .bool b => .bool b
  | .number n => .number (isNumeral_toDigits n)
  | .string s => .string (literal_stringText s)
  | .array [] => .array (.empty isWhite_nil)
  | .array (j :: js) =>
    .array (.items isWhite_nil (spells_compactText j) (continued_compactItems js))
  | .object [] => .object (.empty isWhite_nil)
  | .object ((k, j) :: ms) => by
    have hmember := Member.keyed (literal_stringText k) isWhite_nil isWhite_nil
      (spells_compactText j)
    simpa [compactText, tree, memberTrees] using
      Spells.object (.items isWhite_nil hmember (continued_compactMembers ms))

theorem continued_compactItems : ∀ js : List Json, Continued ']' Spells (trees js) (compactItems js)
  | [] => .close isWhite_nil
  | j :: js =>
    .comma isWhite_nil isWhite_nil (spells_compactText j) (continued_compactItems js)

theorem continued_compactMembers : ∀ ms : List (String × Json),
    Continued '}' (Member Spells) (memberTrees ms) (compactMembers ms)
  | [] => .close isWhite_nil
  | (k, j) :: ms => by
    have hmember := Member.keyed (literal_stringText k) isWhite_nil isWhite_nil
      (spells_compactText j)
    simpa [compactMembers, memberTrees] using
      Continued.comma isWhite_nil isWhite_nil hmember (continued_compactMembers ms)

end

mutual

/-- A value printed on several lines is spelled. -/
theorem spells_prettyText (depth : Nat) : ∀ j : Json, Spells j.tree (prettyText depth j)
  | .null => .null
  | .bool b => .bool b
  | .number n => .number (isNumeral_toDigits n)
  | .string s => .string (literal_stringText s)
  | .array [] => .array (.empty isWhite_nil)
  | .array (j :: js) => by
    simpa [prettyText, tree, trees] using Spells.array (.items (isWhite_newline (depth + 1))
      (spells_prettyText (depth + 1) j) (continued_prettyItems depth js))
  | .object [] => .object (.empty isWhite_nil)
  | .object ((k, j) :: ms) => by
    have hmember := Member.keyed (literal_stringText k) isWhite_nil isWhite_blank
      (spells_prettyText (depth + 1) j)
    simpa [prettyText, tree, memberTrees] using Spells.object
      (.items (isWhite_newline (depth + 1)) hmember (continued_prettyMembers depth ms))

theorem continued_prettyItems (depth : Nat) : ∀ js : List Json,
    Continued ']' Spells (trees js) (prettyItems depth js)
  | [] => .close (isWhite_newline depth)
  | j :: js => by
    simpa [prettyItems, trees] using Continued.comma isWhite_nil (isWhite_newline (depth + 1))
      (spells_prettyText (depth + 1) j) (continued_prettyItems depth js)

theorem continued_prettyMembers (depth : Nat) : ∀ ms : List (String × Json),
    Continued '}' (Member Spells) (memberTrees ms) (prettyMembers depth ms)
  | [] => .close (isWhite_newline depth)
  | (k, j) :: ms => by
    have hmember := Member.keyed (literal_stringText k) isWhite_nil isWhite_blank
      (spells_prettyText (depth + 1) j)
    simpa [prettyMembers, memberTrees] using Continued.comma isWhite_nil
      (isWhite_newline (depth + 1)) hmember (continued_prettyMembers depth ms)

end

/-- A value printed without white space is a document. -/
theorem document_compact (j : Json) : Document j.tree j.compact :=
  ⟨[], j.compactText, [], by simp [compact], isWhite_nil, spells_compactText j, isWhite_nil⟩

/-- A value printed on several lines is a document. -/
theorem document_pretty (j : Json) : Document j.tree j.pretty :=
  ⟨[], prettyText 0 j, [], by simp [pretty], isWhite_nil, spells_prettyText 0 j, isWhite_nil⟩

end UnitLexer.Json
