/-
UnitLexer.Json.Reader — typed reading of JSON.

A reader takes a value off the start of a text and leaves the rest, which is
never longer than the text: that is part of the type, and all that the loops
over arrays and objects need to end. Readers know which type they want, so a
value of another type is reported where it starts, before anything behind it
is looked at.

A record is read from an object whose keys are its fields, each at most once
and in any order, or from an array of its fields in order. Fields not given
keep the value they start with.
-/
import UnitLexer.Json.Number
import UnitLexer.Json.StringReader

namespace UnitLexer.Json

/-! ## §1 Readers -/

/-- Takes a value off the start of a text. -/
structure Reader (α : Type) where
  run : List Char → Except ReadError (α × List Char)
  length_le : ∀ {cs rest : List Char} {a : α}, run cs = .ok (a, rest) → rest.length ≤ cs.length

namespace Reader

variable {α β σ : Type}

/-- Takes nothing. -/
protected def pure (a : α) : Reader α where
  run cs := .ok (a, cs)
  length_le h := by
    obtain ⟨-, rfl⟩ := Prod.mk.inj (Except.ok.inj h)
    exact Nat.le_refl _

/-- Takes one value after the other. -/
protected def bind (r : Reader α) (f : α → Reader β) : Reader β where
  run cs :=
    match r.run cs with
    | .error e => .error e
    | .ok (a, rest) => (f a).run rest
  length_le h := by
    split at h
    · contradiction
    · next a mid hr => exact Nat.le_trans ((f a).length_le h) (r.length_le hr)

instance : Monad Reader where
  pure := Reader.pure
  bind := Reader.bind

/-- Stops with a problem. -/
def fail (e : ReadError) : Reader α where
  run _ := .error e
  length_le h := by contradiction

@[simp] theorem run_pure (a : α) (cs : List Char) : (pure a : Reader α).run cs = .ok (a, cs) := rfl

theorem run_bind (r : Reader α) (f : α → Reader β) (cs : List Char) :
    (r >>= f).run cs =
      match r.run cs with
      | .error e => .error e
      | .ok (a, rest) => (f a).run rest := rfl

@[simp] theorem run_fail (e : ReadError) (cs : List Char) :
    (fail e : Reader α).run cs = .error e := rfl

/-! ## §2 Characters -/

/-- The white space of JSON. -/
def isBlank (c : Char) : Bool :=
  c == ' ' || c == '\t' || c == '\n' || c == '\r'

/-- The text from its first character that is not white space. -/
def dropBlanks (cs : List Char) : List Char :=
  cs.dropWhile isBlank

theorem length_dropBlanks (cs : List Char) : (dropBlanks cs).length ≤ cs.length :=
  (List.dropWhile_suffix isBlank).length_le

/-- Passes over white space and looks at the next character, if there is one. -/
def ahead : Reader (Option Char) where
  run cs := .ok ((dropBlanks cs).head?, dropBlanks cs)
  length_le h := by
    obtain ⟨-, rfl⟩ := Prod.mk.inj (Except.ok.inj h)
    exact length_dropBlanks _

/-- Passes over one character. -/
def skip : Reader Unit where
  run cs := .ok ((), cs.tail)
  length_le h := by
    obtain ⟨-, rfl⟩ := Prod.mk.inj (Except.ok.inj h)
    simp

/-- The text after a word, if it starts with it. -/
def afterWord : List Char → List Char → Except ReadError (List Char)
  | [], cs => .ok cs
  | _ :: _, [] => .error .valueMissing
  | w :: ws, c :: cs => if c = w then afterWord ws cs else .error .literalBroken

theorem length_afterWord {ws cs rest : List Char} (h : afterWord ws cs = .ok rest) :
    rest.length ≤ cs.length := by
  fun_induction afterWord ws cs with
  | case1 => simp_all
  | case2 => contradiction
  | case3 w ws cs ih =>
    have := ih h
    simp only [List.length_cons]
    omega
  | case4 => contradiction

/-- Passes over a word. -/
def word (ws : List Char) : Reader Unit where
  run cs :=
    match afterWord ws cs with
    | .error e => .error e
    | .ok rest => .ok ((), rest)
  length_le h := by
    split at h
    · contradiction
    · next hw =>
      obtain ⟨-, rfl⟩ := Prod.mk.inj (Except.ok.inj h)
      exact length_afterWord hw

/-! ## §3 Values -/

/-- What value the text starts with. Scalars are read to their end, so a broken
one is reported as such; of arrays and objects only the bracket counts. -/
def found : List Char → Except ReadError Found
  | 'n' :: cs => (afterWord ['u', 'l', 'l'] cs).map fun _ => .null
  | 't' :: cs => (afterWord ['r', 'u', 'e'] cs).map fun _ => .bool true
  | 'f' :: cs => (afterWord ['a', 'l', 's', 'e'] cs).map fun _ => .bool false
  | '-' :: cs => readNumber true cs
  | '"' :: cs => (readString cs).map fun r => .string (String.ofList r.1)
  | '[' :: _ => .ok .array
  | '{' :: _ => .ok .object
  | cs => if (leadingDigits cs).isEmpty then .error .valueExpected else readNumber false cs

/-- Stops because the value that comes is not of the expected type. -/
def mismatch (expected : String) : Reader α where
  run cs :=
    match found cs with
    | .error e => .error e
    | .ok f => .error (.typeInvalid f expected)
  length_le h := by
    split at h <;> contradiction

/-- The rest of a string whose opening quote has been taken. -/
def stringRest : Reader String where
  run cs :=
    match readString cs with
    | .error e => .error e
    | .ok (s, rest) => .ok (String.ofList s, rest)
  length_le h := by
    split at h
    · contradiction
    · next hs =>
      obtain ⟨-, rfl⟩ := Prod.mk.inj (Except.ok.inj h)
      exact Nat.le_of_lt (length_readString hs)

/-- A string. -/
def string : Reader String := do
  match ← ahead with
  | none => fail .valueMissing
  | some '"' => skip; stringRest
  | some _ => mismatch "a string"

/-- A value, or `null` for none. -/
def optional (r : Reader α) : Reader (Option α) := do
  match ← ahead with
  | some 'n' => skip; word ['u', 'l', 'l']; pure none
  | _ => some <$> r

/-! ## §4 Arrays and objects -/

/-- How items are held together: the closing bracket, and what is wrong where
the text ends or neither a comma nor the bracket follows an item. -/
structure Enclosure where
  closing : Char
  unended : ReadError
  endExpected : ReadError

/-- The items of an array. -/
def Enclosure.array : Enclosure :=
  ⟨']', .arrayUnended, .arrayEndExpected⟩

/-- The members of an object. -/
def Enclosure.object : Enclosure :=
  ⟨'}', .objectUnended, .objectEndExpected⟩

/-- Reads on behind an item: further items, each after a comma, and the closing
bracket. -/
def furtherItems (enc : Enclosure) (item : σ → Reader σ) (s : σ) (cs : List Char) :
    Except ReadError (σ × List Char) :=
  match _h : dropBlanks cs with
  | [] => .error enc.unended
  | c :: cs' =>
    if c = enc.closing then .ok (s, cs')
    else if c = ',' then
      if (dropBlanks cs').head? = some enc.closing then .error .commaTrailing
      else
        match _h' : (item s).run cs' with
        | .error e => .error e
        | .ok (s', rest) => furtherItems enc item s' rest
    else .error enc.endExpected
termination_by cs.length
decreasing_by
  have h₁ := length_dropBlanks cs
  have h₂ := (item s).length_le _h'
  rw [_h, List.length_cons] at h₁
  omega

theorem length_furtherItems {enc : Enclosure} {item : σ → Reader σ} {s s' : σ}
    {cs rest : List Char} (h : furtherItems enc item s cs = .ok (s', rest)) :
    rest.length ≤ cs.length := by
  fun_induction furtherItems enc item s cs with
  | case1 => contradiction
  | case2 s cs cs' hd =>
    obtain ⟨-, rfl⟩ := Prod.mk.inj (Except.ok.inj h)
    have := length_dropBlanks cs
    rw [hd, List.length_cons] at this
    omega
  | case3 => contradiction
  | case4 => contradiction
  | case5 s cs cs' _ mid after hi hd _ ih =>
    have h₁ := length_dropBlanks cs
    have h₂ := (item s).length_le hi
    have h₃ := ih h
    rw [hd, List.length_cons] at h₁
    omega
  | case6 => contradiction

/-- Items behind an item. -/
def further (enc : Enclosure) (item : σ → Reader σ) (s : σ) : Reader σ where
  run := furtherItems enc item s
  length_le := length_furtherItems

/-- Items behind an opening bracket, to the closing one. -/
def items (enc : Enclosure) (item : σ → Reader σ) (s : σ) : Reader σ := do
  match ← ahead with
  | none => fail enc.unended
  | some c =>
    if c = enc.closing then skip; pure s
    else
      let s ← item s
      further enc item s

/-- An array of strings. -/
def strings : Reader (List String) := do
  match ← ahead with
  | none => fail .valueMissing
  | some '[' =>
    skip
    let ss ← items .array (fun ss => do let s ← string; pure (s :: ss)) []
    pure ss.reverse
  | some _ => mismatch "a sequence"

/-! ## §5 Records -/

/-- A field of a record: its key, and how its value is read into the record. -/
structure Field (σ : Type) where
  name : String
  read : σ → Reader σ

/-- Passes over the colon behind a key. -/
def colon : Reader Unit := do
  match ← ahead with
  | some ':' => skip
  | some _ => fail .colonExpected
  | none => fail .objectUnended

/-- A member of an object: one of the fields that has not been seen yet. The key
is checked before anything behind it is read. -/
def member (fields : List (Field σ)) (seen : List String × σ) : Reader (List String × σ) := do
  match ← ahead with
  | none => fail .valueMissing
  | some '"' =>
    skip
    let key ← stringRest
    match fields.find? fun f => f.name == key with
    | none => fail (.fieldUnknown key (fields.map Field.name))
    | some f =>
      if key ∈ seen.1 then fail (.fieldDuplicate key)
      else
        colon
        let s ← f.read seen.2
        pure (key :: seen.1, s)
  | some _ => fail .keyNotString

/-- Whether an array goes on, with its comma taken; its end is left standing. -/
def itemFollows (first : Bool) : Reader Bool := do
  match ← ahead with
  | none => fail .arrayUnended
  | some ']' => pure false
  | some c =>
    if first then pure true
    else if c = ',' then
      skip
      match ← ahead with
      | none => fail .valueMissing
      | some ']' => fail .commaTrailing
      | some _ => pure true
    else fail .arrayEndExpected

/-- The end of an array that holds no further items. -/
def arrayEnd : Reader Unit := do
  match ← ahead with
  | none => fail .arrayUnended
  | some ']' => skip
  | some ',' =>
    skip
    match ← ahead with
    | some ']' => fail .commaTrailing
    | _ => fail .charactersTrailing
  | some _ => fail .charactersTrailing

/-- The fields in order, as far as they are given, and the end of the array. -/
def inOrder : List (Field σ) → Bool → σ → Reader σ
  | [], _, s => do
    arrayEnd
    pure s
  | f :: fields, first, s => do
    if ← itemFollows first then
      let s ← f.read s
      inOrder fields false s
    else
      arrayEnd
      pure s

/-- A record, from an object or an array. -/
def record (expected : String) (fields : List (Field σ)) (start : σ) : Reader σ := do
  match ← ahead with
  | none => fail .valueMissing
  | some '[' => skip; inOrder fields true start
  | some '{' =>
    skip
    let (_, s) ← items .object (member fields) ([], start)
    pure s
  | some _ => mismatch expected

/-! ## §6 Whole texts -/

/-- The value of a whole text: nothing but white space follows it. -/
def readAll (r : Reader α) (text : String) : Except ReadError α :=
  match r.run text.toList with
  | .error e => .error e
  | .ok (a, rest) => if dropBlanks rest = [] then .ok a else .error .charactersTrailing

end Reader

end UnitLexer.Json
