import LabelTemplate.Json.Cursor
import LabelTemplate.Json.Value

/-!
# Reading JSON numbers

Digits are gathered into a 64-bit word as long as they fit.  An integer that
fits is kept; every other number is a float, got from the word and a power of
ten by one multiplication or division, or by two divisions where a power of
ten is too small for a float.
-/

namespace LabelTemplate.JsonNumber

open Number (isDigit)

/-- Appends digits to a number as long as it stays within a limit.  Gives the
number and the digits that are left. -/
def gather (limit : Nat) : (n : Nat) → List Char → Nat × List Char
  | n, [] => (n, [])
  | n, d :: ds =>
    let next := 10 * n + Number.digitsValue [d]
    if next ≤ limit then gather limit next ds else (n, d :: ds)

/-- The greatest exponent of a power of ten that is a float. -/
def greatestPower : Nat := 308

/-- A power of ten as a float. -/
def tenPower (n : Nat) : Float := Float.ofScientific 1 false n

/-- A word times a power of ten; nothing if it is too large. -/
def scaled? (f : Float) (exponent : Int) : (divisions : Nat) → Option Float
  | 0 => some f
  | divisions + 1 =>
    if exponent.natAbs ≤ greatestPower then
      if exponent ≥ 0 then
        let x := f * tenPower exponent.toNat
        if Number.isFinite x then some x else none
      else some (f / tenPower exponent.natAbs)
    else if f == 0.0 then some f
    else if exponent ≥ 0 then none
    else scaled? (f / tenPower greatestPower) (exponent + greatestPower) divisions

/-- The float of a sign, a word and an exponent. -/
def ofParts (c : Cursor) (negative : Bool) (significand : Nat) (exponent : Int) :
    Except JsonError (JsonNumber × Cursor) :=
  match scaled? (Float.ofNat significand) exponent 4 with
  | some x => .ok (float (if negative then -x else x), c)
  | none => c.fail .numberTooLarge

/-- The limit of what digits are gathered to. -/
def wordLimit : Nat := Number.wordMax

/-- The limit of exponents. -/
def exponentLimit : Nat := Int32.maxValue.toNatClampNeg

/-- Reads an exponent from its `e` on. -/
def readExponent (c : Cursor) (negative : Bool) (significand : Nat) (scale : Int) :
    Except JsonError (JsonNumber × Cursor) :=
  let c := c.skip 1
  let (down, c) := match c.rest with
    | '+' :: _ => (false, c.skip 1)
    | '-' :: _ => (true, c.skip 1)
    | _ => (false, c)
  let digits := c.rest.takeWhile isDigit
  if c.rest.isEmpty then c.fail .unfinishedValue
  else if digits.isEmpty then c.failAhead .invalidNumber
  else
    let (exponent, left) := gather exponentLimit 0 digits
    if left.isEmpty then
      ofParts (c.skip digits.length) negative significand
        (if down then scale - exponent else scale + exponent)
    else if significand ≠ 0 ∧ !down then
      (c.skip (digits.length - left.length + 1)).fail .numberTooLarge
    else .ok (float (if negative then -0.0 else 0.0), c.skip digits.length)

/-- What follows the digits of a float: an exponent or nothing. -/
def readScale (c : Cursor) (negative : Bool) (significand : Nat) (scale : Int) :
    Except JsonError (JsonNumber × Cursor) :=
  match c.rest with
  | 'e' :: _ | 'E' :: _ => readExponent c negative significand scale
  | _ => ofParts c negative significand scale

/-- Reads the digits after a point, from the point on. -/
def readFraction (c : Cursor) (negative : Bool) (significand : Nat) (scale : Int) :
    Except JsonError (JsonNumber × Cursor) :=
  let c := c.skip 1
  let digits := c.rest.takeWhile isDigit
  if digits.isEmpty then
    c.failAhead (if c.rest.isEmpty then .unfinishedValue else .invalidNumber)
  else
    let (significand, left) := gather wordLimit significand digits
    readScale (c.skip digits.length) negative significand
      (scale - (digits.length - left.length : Nat))

/-- An integer, which is a float if it does not fit or is minus zero. -/
def ofInteger (negative : Bool) (n : Nat) : JsonNumber :=
  if !negative then integer n
  else if 0 < n ∧ Int64.minValue.toInt ≤ -n then integer (-n)
  else float (-Float.ofNat n)

/-- Reads a number after its sign. -/
def read (negative : Bool) (c : Cursor) : Except JsonError (JsonNumber × Cursor) :=
  let digits := c.rest.takeWhile isDigit
  match c.rest, digits with
  | [], _ => c.fail .unfinishedValue
  | _, [] => c.failAhead .invalidNumber
  | _, '0' :: _ :: _ => (c.skip 1).failAhead .invalidNumber
  | _, _ =>
    let (significand, left) := gather wordLimit 0 digits
    let c := c.skip digits.length
    match c.rest with
    | '.' :: _ => readFraction c negative significand left.length
    | 'e' :: _ | 'E' :: _ => readExponent c negative significand left.length
    | _ =>
      if left.isEmpty then .ok (ofInteger negative significand, c)
      else ofParts c negative significand left.length

end LabelTemplate.JsonNumber
