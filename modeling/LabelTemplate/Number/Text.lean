import LabelTemplate.Number.Shortest
import LabelTemplate.Text.Pieces

/-!
# Numbers as text

`display` writes a float with the fewest digits and never with an exponent.
`formatNumber` is the string form of a number in an expression and
`parseNumber` its inverse reading, which takes plain decimals only.
`parseFloat?` also takes exponents and the names of infinity and NaN.
-/

namespace LabelTemplate.Number

/-- Writes a decimal without an exponent. -/
def Decimal.positional (d : Decimal) : String :=
  let digits := toString d.digits
  if d.scale ≥ 0 then digits ++ "".pushn '0' d.scale.toNat
  else
    let places := (-d.scale).toNat
    let padded := "".pushn '0' (places + 1 - digits.length) ++ digits
    let cs := padded.toList
    String.ofList (cs.take (cs.length - places)) ++ "." ++
      String.ofList (cs.drop (cs.length - places))

/-- Writes a float with the fewest digits that read back, without an
exponent. -/
def display (x : Float) : String :=
  match parts x with
  | .nan => "NaN"
  | .infinite negative => if negative then "-inf" else "inf"
  | .finite b =>
    (if b.negative then "-" else "") ++ (shortest .up b).positional

/-- The string form of a number: a zero has no sign. -/
def formatNumber (x : Float) : String :=
  match parts x with
  | .nan => "NaN"
  | .infinite negative => if negative then "-Infinity" else "Infinity"
  | .finite b =>
    if b.isIntegral ∧ b.floorNat < Nat.pow 10 18 then toString b.truncate else display x

def isDigit (c : Char) : Bool := '0' ≤ c && c ≤ '9'

/-- The number that decimal digits denote. -/
def digitsValue (cs : List Char) : Nat :=
  cs.foldl (fun n c => 10 * n + (c.toNat - '0'.toNat)) 0

/-- The float nearest to `digits * 10 ^ scale`. -/
def ofDecimal (negative : Bool) (digits : Nat) (scale : Int) : Float :=
  let magnitude : Float :=
    if digits = 0 then 0.0
    else
      let size : Int := Nat.log2 digits * 30103 / 100000 + scale
      if size > 400 then 1.0 / 0.0
      else if size < -400 then 0.0
      else if scale ≥ 0 then Float.ofScientific (digits * Nat.pow 10 scale.toNat) false 0
      else Float.ofScientific digits true (-scale).toNat
  if negative then -magnitude else magnitude

/-- Digits with at most one point among them, at least one digit in all. -/
def splitDecimal? (cs : List Char) : Option (List Char × List Char) :=
  let whole := cs.takeWhile isDigit
  let fraction? := match cs.dropWhile isDigit with
    | [] => some []
    | '.' :: rest => if rest.all isDigit then some rest else none
    | _ => none
  match fraction? with
  | some fraction => if whole.isEmpty && fraction.isEmpty then none else some (whole, fraction)
  | none => none

/-- Reads a string as a number: blanks around it, a minus sign, digits and a
point; anything else is NaN. -/
def parseNumber (s : String) : Float :=
  let cs := Text.trimChars s.toList
  let (negative, body) := match cs with
    | '-' :: rest => (true, rest)
    | _ => (false, cs)
  match splitDecimal? body with
  | some (whole, fraction) =>
    ofDecimal negative (digitsValue (whole ++ fraction)) (-(fraction.length : Int))
  | none => 0.0 / 0.0

/-- The exponent after a decimal, if the rest is one. -/
def readExponent? (cs : List Char) : Option Int :=
  match cs with
  | [] => some 0
  | e :: rest =>
    if e = 'e' ∨ e = 'E' then
      let (negative, digits) := match rest with
        | '-' :: ds => (true, ds)
        | '+' :: ds => (false, ds)
        | ds => (false, ds)
      if digits.isEmpty || !digits.all isDigit then none
      else
        let n : Int := digitsValue digits
        some (if negative then -n else n)
    else none

/-- Reads a float in any of its usual spellings. -/
def parseFloat? (s : String) : Option Float :=
  let cs := s.toList
  let (negative, body) := match cs with
    | '-' :: rest => (true, rest)
    | '+' :: rest => (false, rest)
    | _ => (false, cs)
  match String.ofList (body.map Char.toLower) with
  | "inf" | "infinity" => some (if negative then -(1.0 / 0.0) else 1.0 / 0.0)
  | "nan" => some (0.0 / 0.0)
  | _ =>
    let isMantissa (c : Char) : Bool := isDigit c || c == '.'
    match splitDecimal? (body.takeWhile isMantissa), readExponent? (body.dropWhile isMantissa) with
    | some (whole, fraction), some e =>
      some (ofDecimal negative (digitsValue (whole ++ fraction)) (e - fraction.length))
    | _, _ => none

end LabelTemplate.Number
