/-!
# The exact value of a float

A finite float is an integer times a power of two.  `Binary` is that pair;
what a float displays, truncates or rounds to or leaves as a remainder is
computed from it in exact arithmetic.
-/

namespace LabelTemplate.Number

/-- The magnitude `mantissa * 2 ^ exponent` and its sign. -/
structure Binary where
  negative : Bool
  mantissa : Nat
  exponent : Int
  deriving DecidableEq, Repr

inductive Parts where
  | nan
  | infinite (negative : Bool)
  | finite (value : Binary)
  deriving DecidableEq, Repr

/-- Takes a float apart. -/
def parts (x : Float) : Parts :=
  let bits : Nat := x.toBits.toNat
  let negative := bits ≥ Nat.pow 2 63
  let biased : Nat := bits / Nat.pow 2 52 % Nat.pow 2 11
  let fraction := bits % Nat.pow 2 52
  if biased = 2047 then
    if fraction = 0 then .infinite negative else .nan
  else if biased = 0 then .finite ⟨negative, fraction, -1074⟩
  else .finite ⟨negative, fraction + Nat.pow 2 52, (biased : Int) - 1075⟩

namespace Binary

/-- The magnitude without its fraction. -/
def floorNat (b : Binary) : Nat :=
  if b.exponent ≥ 0 then b.mantissa * Nat.pow 2 b.exponent.toNat
  else b.mantissa / Nat.pow 2 (-b.exponent).toNat

/-- True when the magnitude is an integer. -/
def isIntegral (b : Binary) : Bool :=
  b.exponent ≥ 0 || b.mantissa % Nat.pow 2 (-b.exponent).toNat == 0

/-- The value without its fraction. -/
def truncate (b : Binary) : Int :=
  if b.negative then -(b.floorNat : Int) else b.floorNat

/-- The integer nearest to the magnitude; a half goes up. -/
def nearestNat (b : Binary) : Nat :=
  if b.exponent ≥ 0 then b.mantissa * Nat.pow 2 b.exponent.toNat
  else
    let unit := Nat.pow 2 (-b.exponent).toNat
    (b.mantissa + unit / 2) / unit

/-- The integer nearest to the value; a half goes away from zero. -/
def round (b : Binary) : Int :=
  if b.negative then -(b.nearestNat : Int) else b.nearestNat

/-- The float with this value; exact when the mantissa has at most 53 bits. -/
def toFloat (b : Binary) : Float :=
  let x := (Float.ofNat b.mantissa).scaleB b.exponent
  if b.negative then -x else x

end Binary

def isNaN (x : Float) : Bool := parts x = .nan

def isFinite (x : Float) : Bool :=
  match parts x with
  | .finite _ => true
  | _ => false

/-- An integer for the value brought into `low ..= high`; 0 for NaN. -/
def clampInt (integer : Binary → Int) (low high : Int) (x : Float) : Int :=
  match parts x with
  | .nan => 0
  | .infinite negative => if negative then low else high
  | .finite b => max low (min high (integer b))

/-- The largest unsigned number of a machine word. -/
def wordMax : Nat := UInt64.size - 1

/-- The integer part brought into the range of a machine word. -/
def toWord (x : Float) : Nat :=
  (clampInt Binary.truncate 0 wordMax x).toNat

/-- The nearest integer brought into the range of a signed 64-bit number. -/
def nearestInt64 (x : Float) : Int :=
  clampInt Binary.round Int64.minValue.toInt Int64.maxValue.toInt x

/-- The remainder of a division that truncates; it has the sign of the
dividend and is always exact. -/
def remainder (x y : Float) : Float :=
  match parts x, parts y with
  | .nan, _ | _, .nan | .infinite _, _ => 0.0 / 0.0
  | .finite _, .infinite _ => x
  | .finite a, .finite b =>
    if b.mantissa = 0 then 0.0 / 0.0
    else
      let e := min a.exponent b.exponent
      let m := a.mantissa * Nat.pow 2 (a.exponent - e).toNat
      let n := b.mantissa * Nat.pow 2 (b.exponent - e).toNat
      Binary.toFloat ⟨a.negative, m % n, e⟩

end LabelTemplate.Number
