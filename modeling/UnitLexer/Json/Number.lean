/-
UnitLexer.Json.Number — reading numbers.

No configuration holds a number, so a number is read only to say what was
found. It is an integer if it fits in 64 bits, signed or not, and else a
double: as many digits as fit in 64 bits, then multiplied or divided by the
power of ten that the other digits and the exponent make. The last two roundings
are those of the arithmetic, so the double is not always the nearest one.
-/
import UnitLexer.Json.ReadError
import UnitLexer.Number

namespace UnitLexer.Json

/-- The largest significand. -/
def maxSignificand : Nat :=
  Nat.pow 2 64 - 1

/-- The largest exponent that is read in full. -/
def maxExponent : Nat :=
  Nat.pow 2 31 - 1

/-- The value of a digit. -/
def digitValue (c : Char) : Nat :=
  c.toNat - '0'.toNat

/-- The value of a run of digits. -/
def digitsValue (ds : List Char) : Nat :=
  ds.foldl (fun n d => 10 * n + digitValue d) 0

/-- Appends digits to a significand as long as it fits in 64 bits; with the
number of digits left over. -/
def appendDigits (significand : Nat) : List Char → Nat × Nat
  | [] => (significand, 0)
  | d :: ds =>
    let longer := 10 * significand + digitValue d
    if longer ≤ maxSignificand then appendDigits longer ds else (significand, ds.length + 1)

/-- Divides by a power of ten, in steps where the power is no double. -/
def scaleDown (f : Float) (n : Nat) : Float :=
  if n ≤ 308 then f / Float.ofScientific 1 false n
  else if f == 0 then f
  else scaleDown (f / Float.ofScientific 1 false 308) (n - 308)
termination_by n

/-- Multiplies by a power of ten; beyond the doubles there is no answer. -/
def scaleUp (f : Float) (n : Nat) : Except ReadError Float :=
  if n ≤ 308 then
    let g := f * Float.ofScientific 1 false n
    if g.isInf then .error .numberOutOfRange else .ok g
  else if f == 0 then .ok f
  else .error .numberOutOfRange

/-- The double of a sign, a significand and a power of ten. -/
def double (negative : Bool) (significand : Nat) (power : Int) : Except ReadError Found := do
  let f := (UInt64.ofNat significand).toFloat
  let g ← if 0 ≤ power then scaleUp f power.toNat else .ok (scaleDown f (-power).toNat)
  .ok (.floating (Decimal.ofFloat (if negative then -g else g)))

/-- The integer of a sign and a significand; a negative zero and what is below
the 64-bit integers are doubles. -/
def integer (negative : Bool) (significand : Nat) : Except ReadError Found :=
  if !negative then .ok (.integer significand)
  else if significand = 0 ∨ Nat.pow 2 63 < significand then double negative significand 0
  else .ok (.integer (-significand))

/-- The problem of a number without a digit where one must stand. -/
def digitMissing (cs : List Char) : ReadError :=
  if cs = [] then .valueMissing else .numberInvalid

/-- The exponent after its `e`, and with it the number. An exponent too large
to be read makes zero, or nothing. -/
def readExponent (negative : Bool) (significand : Nat) (power : Int) (cs : List Char) :
    Except ReadError Found :=
  let below := cs.head? = some '-'
  let cs := if cs.head? = some '-' ∨ cs.head? = some '+' then cs.tail else cs
  let digits := leadingDigits cs
  let exponent := digitsValue digits
  if digits = [] then .error (digitMissing cs)
  else if maxExponent < exponent then
    if significand ≠ 0 ∧ !below then .error .numberOutOfRange else double negative 0 0
  else double negative significand (if below then power - exponent else power + exponent)

/-- The number whose integer digits have been read, from what follows them. -/
def readFraction (negative : Bool) (significand left : Nat) (cs : List Char) :
    Except ReadError Found :=
  match cs with
  | '.' :: cs =>
    let digits := leadingDigits cs
    if digits = [] then .error (digitMissing cs)
    else
      let (significand, dropped) := appendDigits significand digits
      let power : Int := left - (digits.length - dropped)
      match cs.drop digits.length with
      | 'e' :: cs | 'E' :: cs => readExponent negative significand power cs
      | _ => double negative significand power
  | 'e' :: cs | 'E' :: cs => readExponent negative significand left cs
  | _ => if left = 0 then integer negative significand else double negative significand left

/-- The number at the start of the text, after its sign. A zero is not followed
by another digit. -/
def readNumber (negative : Bool) (cs : List Char) : Except ReadError Found :=
  let digits := leadingDigits cs
  if digits = [] then .error (digitMissing cs)
  else if digits.head? = some '0' ∧ digits.length ≠ 1 then .error .numberInvalid
  else
    let (significand, left) := appendDigits 0 digits
    readFraction negative significand left (cs.drop digits.length)

end UnitLexer.Json
