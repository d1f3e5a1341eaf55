import LabelTemplate.Number.Text
import LabelTemplate.Text.Order

/-!
# JSON values

Values of the JSON data model and their compact written form.  Integers that
fit a 64-bit word are kept exactly; every other number is a float.  The
members of an object are sorted by name.
-/

namespace LabelTemplate

inductive JsonNumber where
  | integer (n : Int)
  | float (x : Float)
  deriving Repr

inductive JsonValue where
  | null
  | bool (b : Bool)
  | number (n : JsonNumber)
  | string (s : String)
  | array (items : List JsonValue)
  | object (members : List (String × JsonValue))
  deriving Repr, Inhabited

/-- The exponents, counted from the first digit, of the floats that are
written without an exponent. -/
structure ExponentRange where
  least : Int
  most : Int

/-- JSON numbers are positional from `1e-5` up to sixteen digits. -/
def JsonNumber.positionalRange : ExponentRange := ⟨-5, 15⟩

/-- Writes a decimal with at least one digit on either side of its point. -/
def JsonNumber.writePositional (d : Number.Decimal) : String :=
  d.positional ++ if d.scale ≥ 0 then ".0" else ""

/-- Writes a decimal with one digit before its point and a signed exponent. -/
def JsonNumber.writeScientific (digits : String) (exponent : Int) : String :=
  let mantissa := match digits.toList with
    | [] => "0"
    | [d] => d.toString
    | d :: ds => String.ofList (d :: '.' :: ds)
  mantissa ++ "e" ++ (if exponent < 0 then "-" else "+") ++ toString exponent.natAbs

/-- Writes a finite float with the fewest digits that read back; there is no
JSON form of the others. -/
def JsonNumber.writeFloat (x : Float) : String :=
  match Number.parts x with
  | .nan | .infinite _ => "null"
  | .finite b =>
    let d := Number.shortest .toEven b
    let digits := toString d.digits
    let exponent := d.scale + digits.length - 1
    let range := positionalRange
    let magnitude :=
      if b.mantissa = 0 then "0.0"
      else if range.least ≤ exponent ∧ exponent ≤ range.most then writePositional d
      else writeScientific digits exponent
    (if b.negative then "-" else "") ++ magnitude

def JsonNumber.write : JsonNumber → String
  | integer n => toString n
  | float x => writeFloat x

namespace JsonValue

def hexDigit (n : Nat) : Char :=
  if n < 10 then Char.ofNat ('0'.toNat + n) else Char.ofNat ('a'.toNat + n - 10)

/-- A character inside a quoted string. -/
def escapeChar (c : Char) : String :=
  match c with
  | '"' => "\\\""
  | '\\' => "\\\\"
  | '\n' => "\\n"
  | '\r' => "\\r"
  | '\t' => "\\t"
  | c =>
    if c.toNat = 8 then "\\b"
    else if c.toNat = 12 then "\\f"
    else if c.toNat < 0x20 then
      "\\u00" ++ String.ofList [hexDigit (c.toNat / 16), hexDigit (c.toNat % 16)]
    else c.toString

def quote (s : String) : String :=
  "\"" ++ String.join (s.toList.map escapeChar) ++ "\""

mutual

/-- The compact written form. -/
def write : JsonValue → String
  | null => "null"
  | bool b => if b then "true" else "false"
  | number n => n.write
  | string s => quote s
  | array items => "[" ++ ",".intercalate (writeItems items) ++ "]"
  | object members => "\x7b" ++ ",".intercalate (writeMembers members) ++ "\x7d"

def writeItems : List JsonValue → List String
  | [] => []
  | v :: vs => v.write :: writeItems vs

def writeMembers : List (String × JsonValue) → List String
  | [] => []
  | (name, v) :: ms => (quote name ++ ":" ++ v.write) :: writeMembers ms

end

end JsonValue

end LabelTemplate
