/-
UnitLexer.Decimal — floating-point numbers in the fewest decimal digits.

A finite double stands for an interval of reals, those that round to it. It is
written as the point of the coarsest decimal grid that meets the interval, and
of two such points as the one nearer to the number: no shorter decimal reads
back as the same double.
-/

namespace UnitLexer

/-- A decimal number: a sign, a natural number and a power of ten. -/
structure Decimal where
  negative : Bool
  digits : Nat
  power : Int
  deriving DecidableEq, Repr

namespace Decimal

/-! ## §1 The fewest digits -/

/-- The reals that round to a double, scaled to integers over a common
denominator: the number itself, the ends of the interval, and whether the ends
belong to it. -/
structure Interval where
  value : Nat
  low : Nat
  high : Nat
  denominator : Nat
  closed : Bool

/-- The interval of `m · 2 ^ q`. Below a power of two the doubles lie twice as
close together, so the lower end is half as far away there. The ends round to
the double with the even significand. -/
def Interval.ofBinary (m : Nat) (q : Int) : Interval :=
  let scale := Nat.pow 2 q.toNat
  let gap := if m = Nat.pow 2 52 ∧ -1074 < q then 1 else 2
  { value := 4 * m * scale
    low := (4 * m - gap) * scale
    high := (4 * m + 2) * scale
    denominator := 4 * Nat.pow 2 (-q).toNat
    closed := m % 2 = 0 }

/-- The point `d · 10 ^ k` lies in the interval. -/
def Interval.contains (i : Interval) (d : Nat) (k : Int) : Bool :=
  let point := d * Nat.pow 10 k.toNat * i.denominator
  let unit := Nat.pow 10 (-k).toNat
  if i.closed then i.low * unit ≤ point && point ≤ i.high * unit
  else i.low * unit < point && point < i.high * unit

/-- The point of the grid `10 ^ k` that stands for the interval: of the
neighbours of the number that lie in it, the nearer one, and half way between
them the even one. -/
def Interval.onGrid? (i : Interval) (k : Int) : Option Nat :=
  let step := Nat.pow 10 k.toNat * i.denominator
  let scaled := i.value * Nat.pow 10 (-k).toNat
  let d := scaled / step
  match i.contains d k, i.contains (d + 1) k with
  | true, true =>
    let middle := (2 * d + 1) * step
    if scaled * 2 < middle ∨ scaled * 2 = middle ∧ d % 2 = 0 then some d else some (d + 1)
  | true, false => some d
  | false, true => some (d + 1)
  | false, false => none

/-- The first grid that meets the interval, from `10 ^ (n - 344)` down. -/
def Interval.coarsest (i : Interval) : Nat → Nat × Int
  | 0 => (0, 0)
  | n + 1 =>
    let k : Int := n - 343
    match i.onGrid? k with
    | some d => (d, k)
    | none => i.coarsest n

/-- The decimal with the fewest digits that reads back as the finite double. -/
def ofFloat (x : Float) : Decimal :=
  let bits := x.toBits.toNat
  let negative : Bool := Nat.pow 2 63 ≤ bits
  let biased : Nat := bits / Nat.pow 2 52 % Nat.pow 2 11
  let fraction : Nat := bits % Nat.pow 2 52
  if biased = 0 ∧ fraction = 0 then ⟨negative, 0, 0⟩
  else
    let i :=
      if biased = 0 then Interval.ofBinary fraction (-1074)
      else Interval.ofBinary (fraction + Nat.pow 2 52) (biased - 1075)
    let (d, k) := i.coarsest 653
    ⟨negative, d, k⟩

/-! ## §2 The text -/

/-- The decimal as text. It always tells that it is no integer: up to sixteen
digits before the point and down to five places after it the number is written
with a point, beyond that with an exponent, whose sign is always written. -/
def text (x : Decimal) : String :=
  let ds := Nat.toDigits 10 x.digits
  let point : Int := ds.length + x.power
  let zeros (n : Nat) := List.replicate n '0'
  let body :=
    if x.digits = 0 then ['0', '.', '0']
    else if 0 ≤ x.power ∧ point ≤ 16 then ds ++ zeros x.power.toNat ++ ['.', '0']
    else if 0 < point ∧ point ≤ 16 then ds.take point.toNat ++ '.' :: ds.drop point.toNat
    else if -5 < point ∧ point ≤ 0 then ['0', '.'] ++ zeros (-point).toNat ++ ds
    else
      let mantissa := if ds.length = 1 then ds else ds.take 1 ++ '.' :: ds.drop 1
      let exponent := point - 1
      let sign := if exponent < 0 then '-' else '+'
      mantissa ++ 'e' :: sign :: Nat.toDigits 10 exponent.natAbs
  String.ofList (if x.negative then '-' :: body else body)

end Decimal

end UnitLexer
