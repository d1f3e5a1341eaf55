import LabelTemplate.Time.Pattern
import LabelTemplate.Time.Timestamp

/-!
# Writing timestamps

A timestamp is written item by item along a pattern.  It has no zone, so a
pattern that wants one has no written form.
-/

namespace LabelTemplate.Time

/-- The character that a padding puts in front of a number. -/
def Padding.fill? : Padding → Option Char
  | zero => some '0'
  | space => some ' '
  | none => Option.none

/-- Writes a number to a width.  Zeros stand between sign and digits, spaces
in front of both. -/
def writeNumber (width : Nat) (padding : Padding) (signed : Bool) (n : Int) : String :=
  let sign := if n < 0 then "-" else if signed then "+" else ""
  let digits := toString n.natAbs
  let missing := width - (sign.length + digits.length)
  match padding with
  | .zero => sign ++ "".pushn '0' missing ++ digits
  | .space => "".pushn ' ' missing ++ sign ++ digits
  | .none => sign ++ digits

/-- Writes two digits.  The number counts modulo 256, and tens above nine are
written with the characters that follow the digits. -/
def writeTwoDigits (padding : Padding) (n : Int) : String :=
  let n := (n % 256).toNat
  let ones := (Char.ofNat ('0'.toNat + n % 10)).toString
  match n / 10, padding with
  | 0, .none => ones
  | 0, .space => " " ++ ones
  | tens, _ => (Char.ofNat ('0'.toNat + tens)).toString ++ ones

/-- Writes a year: four digits, or a sign and at least four digits. -/
def writeYear (padding : Padding) (year : Int) : String :=
  if 1000 ≤ year ∧ year ≤ 9999 then toString year
  else if 0 ≤ year ∧ year < 1000 then writeNumber 4 padding false year
  else writeNumber 5 padding true year

namespace Timestamp

/-- The hour on a dial, where the half days start with 12. -/
def dialHour (t : Timestamp) : Nat := if t.hour % 12 = 0 then 12 else t.hour % 12

def isAfternoon (t : Timestamp) : Bool := t.hour ≥ 12

/-- The nanoseconds since the second or the leap second began. -/
def fraction (t : Timestamp) : Nat := t.nanos % nanosPerSecond

def writeField (t : Timestamp) (padding : Padding) : NumberField → String
  | .year => writeYear padding t.date.year
  | .century => writeTwoDigits padding (t.date.year / 100)
  | .yearOfCentury => writeTwoDigits padding (t.date.year % 100)
  | .isoYear => writeYear padding t.date.isoWeek.1
  | .isoYearOfCentury => writeTwoDigits padding (t.date.isoWeek.1 % 100)
  | .quarter => toString t.date.quarter
  | .month => writeTwoDigits padding t.date.month
  | .day => writeTwoDigits padding t.date.day
  | .sundayWeek => writeTwoDigits padding (t.date.weekFrom 6)
  | .mondayWeek => writeTwoDigits padding (t.date.weekFrom 0)
  | .isoWeek => writeTwoDigits padding t.date.isoWeek.2
  | .daysFromSunday => toString t.date.daysFromSunday
  | .weekday => toString (t.date.daysFromMonday + 1)
  | .ordinal => writeNumber 3 padding false t.date.ordinal
  | .hour => writeTwoDigits padding t.hour
  | .dialHour => writeTwoDigits padding t.dialHour
  | .minute => writeTwoDigits padding t.minute
  | .second => writeTwoDigits padding ((t.second + t.nanos / nanosPerSecond : Nat) : Int)
  | .nanos => writeNumber 9 padding false t.fraction
  | .unixSeconds => writeNumber 9 padding false t.unixSeconds

def writeName (t : Timestamp) : NameField → String
  | .month long =>
    let name := (monthNames[t.date.month - 1]?).getD ""
    if long then name else shortName name
  | .weekday long =>
    let name := (weekdayNames[t.date.daysFromMonday]?).getD ""
    if long then name else shortName name
  | .noon upper =>
    let name := if t.isAfternoon then "pm" else "am"
    if upper then Text.asciiUpper name else name

/-- The first digits of the fraction. -/
def fractionDigits (t : Timestamp) (digits : Nat) : String :=
  writeNumber digits .zero false (t.fraction / Nat.pow 10 (9 - digits) : Nat)

/-- The fraction to milli-, micro- or nanoseconds, whichever is exact first;
nothing for a full second. -/
def writeFraction (t : Timestamp) : String :=
  if t.fraction = 0 then ""
  else
    let digits :=
      if t.fraction % 1000000 = 0 then 3 else if t.fraction % 1000 = 0 then 6 else 9
    "." ++ t.fractionDigits digits

def writeItem? (t : Timestamp) : Item → Option String
  | .literal text | .blank text => some (String.ofList text)
  | .number field padding => some (t.writeField padding field)
  | .name field => some (t.writeName field)
  | .fraction => some t.writeFraction
  | .fixedFraction digits point => some ((if point then "." else "") ++ t.fractionDigits digits)
  | .zoneName | .zoneOffset _ | .instant | .unknown => none

/-- Writes a timestamp along a pattern. -/
def write? (t : Timestamp) (p : Pattern) : Option String :=
  (p.mapM t.writeItem?).map String.join

end Timestamp

end LabelTemplate.Time
