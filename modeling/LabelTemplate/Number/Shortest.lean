import LabelTemplate.Number.Binary

/-!
# Shortest decimals

The decimal with the fewest digits that reads back to the same float, and of
those the one nearest to it.  A float stands for all numbers that round to
it, an interval with its ends exactly if the mantissa is even.  For each
number of digits the two neighbours of the value on that decimal grid are
tried: if a point of a grid lies in the interval, so does one of them.
-/

namespace LabelTemplate.Number

/-- The magnitude `digits * 10 ^ scale`. -/
structure Decimal where
  digits : Nat
  scale : Int
  deriving DecidableEq, Repr

/-- What becomes of a value halfway between two decimals. -/
inductive Tie where
  | up
  | toEven
  deriving DecidableEq, Repr

namespace Decimal

/-- Moves the zeros at the end of the digits into the scale. -/
def normalize (fuel : Nat) (d : Decimal) : Decimal :=
  match fuel with
  | 0 => d
  | fuel + 1 =>
    if d.digits ≠ 0 ∧ d.digits % 10 = 0 then normalize fuel ⟨d.digits / 10, d.scale + 1⟩ else d

end Decimal

/-- A value, the ends of its interval and the common denominator of all
three. -/
structure Interval where
  low : Nat
  value : Nat
  high : Nat
  denominator : Nat
  closed : Bool

/-- The numbers that round to a float that is not zero.  Below a power of two
the grid of floats is twice as fine, unless the float is the smallest of its
kind. -/
def Interval.of (b : Binary) : Interval :=
  let narrow := b.mantissa = Nat.pow 2 52 ∧ b.exponent > -1074
  let up := Nat.pow 2 b.exponent.toNat
  { low := (4 * b.mantissa - if narrow then 1 else 2) * up
    value := 4 * b.mantissa * up
    high := (4 * b.mantissa + 2) * up
    denominator := 4 * Nat.pow 2 (-b.exponent).toNat
    closed := b.mantissa % 2 = 0 }

/-- `10 ^ n` as a fraction. -/
def tenPower (n : Int) : Nat × Nat := (Nat.pow 10 n.toNat, Nat.pow 10 (-n).toNat)

/-- The position of the first digit of a positive fraction, from an estimate
that is at most a few places off. -/
def leadingPlace (num den : Nat) : Int :=
  let estimate : Int := (Nat.log2 num : Int) - Nat.log2 den
  let start := estimate * 30103 / 100000 - 2
  let below (n : Int) : Bool :=
    let (a, b) := tenPower n
    a * den ≤ num * b
  let rec up : Nat → Int → Int
    | 0, n => n
    | fuel + 1, n => if below (n + 1) then up fuel (n + 1) else n
  up 8 start

/-- The decimal of `10 ^ scale` grid points that lies in the interval and is
nearest to its value, if there is one. -/
def onGrid? (tie : Tie) (i : Interval) (scale : Int) : Option Decimal :=
  let (a, b) := tenPower scale
  -- a grid point k is k * a / b; it is compared with x / denominator
  let unit := a * i.denominator
  let value := i.value * b
  let floor := value / unit
  let inside (k : Nat) : Bool :=
    let x := k * unit
    if i.closed then i.low * b ≤ x ∧ x ≤ i.high * b else i.low * b < x ∧ x < i.high * b
  let downDistance := value - floor * unit
  let upDistance := (floor + 1) * unit - value
  let preferUp :=
    upDistance < downDistance ||
      (upDistance == downDistance && (tie = .up || floor % 2 == 1))
  match inside floor && floor != 0, inside (floor + 1) with
  | false, false => none
  | true, false => some ⟨floor, scale⟩
  | false, true => some ⟨floor + 1, scale⟩
  | true, true => some ⟨if preferUp then floor + 1 else floor, scale⟩

/-- The shortest decimal of a float's magnitude; 17 digits always suffice. -/
def shortest (tie : Tie) (b : Binary) : Decimal :=
  if b.mantissa = 0 then ⟨0, 0⟩
  else
    let i := Interval.of b
    let place := leadingPlace i.value i.denominator
    let rec search : Nat → Int → Decimal
      | 0, _ => ⟨b.floorNat, 0⟩
      | fuel + 1, scale =>
        match onGrid? tie i scale with
        | some d => d.normalize 400
        | none => search fuel (scale - 1)
    search 18 place

end LabelTemplate.Number
