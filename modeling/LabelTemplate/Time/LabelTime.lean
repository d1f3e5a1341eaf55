import LabelTemplate.Time.Reader
import LabelTemplate.Time.Writer

/-!
# Timestamps of labels

A label timestamp is written back in the format that it was read in, with as
many digits of the fraction as it had or as the caller asks for.  Further
digits are cut off and not rounded.
-/

namespace LabelTemplate.Time

/-- The format of timestamps in labels. -/
def labelFormat : String := "%Y-%m-%dT%H:%M:%S%.fZ"

/-- The specifier for a fraction of any length. -/
def fractionSpecifier : String := "%.f"

/-- The specifier for a fraction with all its digits. -/
def fullFractionSpecifier : String := "%.9f"

/-- The units of shifts and how many of each make a second, as a float. -/
def shiftUnits : List (String × Float) := [("s", 1.0), ("ms", 0.001), ("microseconds", 0.000001)]

structure LabelTime where
  instant : Timestamp
  format : String
  /-- How many digits the fraction is cut to; nothing if the format has no
  fraction of any length. -/
  decimals : Option Nat
  deriving Repr

namespace LabelTime

/-- A zone mark at the end of a timestamp. -/
def isZoneMark (c : Char) : Bool := c == 'Z' || c == 'z'

/-- The format that is used for a wanted one; an empty one counts as none. -/
def chosenFormat (format : Option String) : String :=
  match format with
  | some f => if f.isEmpty then labelFormat else f
  | none => labelFormat

/-- The number of digits that a caller asks for. -/
def digitCount (decimals : Float) : Nat := Number.toWord decimals

/-- The bytes between the first point of a text and the zone marks at its
end. -/
def fractionLength (text : String) : Nat :=
  match Text.splitOnceChars '.' text.toList with
  | some (_, after) => Text.byteSize (after.reverse.dropWhile isZoneMark)
  | none => 0

/-- Reads a timestamp in a format. -/
def read (input : String) (format : Option String) (decimals : Option Float) :
    Except TimestampFault LabelTime := do
  let format := chosenFormat format
  let input := Text.trim input
  let instant ← (Pattern.ofText format).read input
  let digits := match decimals with
    | some d => digitCount d
    | none => fractionLength input
  return ⟨instant, format, if Text.contains fractionSpecifier format then some digits else none⟩

/-- The timestamp of a clock, to the microsecond unless digits are asked
for. -/
def ofClock (clock : Timestamp) (format : Option String) (decimals : Option Float) : LabelTime :=
  let format := chosenFormat format
  let digits := (decimals.map digitCount).getD 6
  ⟨clock, format, if Text.contains fractionSpecifier format then some digits else none⟩

/-- Shifts a timestamp by a number of units, rounded to nanoseconds. -/
def shift (t : LabelTime) (delta : Float) (unit : String) : Except ShiftFault LabelTime := do
  let some scale := shiftUnits.lookup unit | throw (.unknownUnit unit)
  let nanos := delta * scale * 1e9
  if !Number.isFinite nanos then throw (.notFinite delta)
  let some instant := t.instant.addNanos? (Number.nearestInt64 nanos) | throw .overflow
  return { t with instant }

/-- The first `size` bytes of a text, unless a character would be cut. -/
def takeBytes? : (size : Nat) → List Char → Option (List Char)
  | 0, _ => some []
  | _, [] => some []
  | size, c :: cs =>
    if c.utf8Size ≤ size then (takeBytes? (size - c.utf8Size) cs).map (c :: ·) else none

/-- Cuts the fraction after the first point to a number of digits; without
digits the point goes as well. -/
def cutFraction? (digits : Nat) (body : List Char) : Option (List Char) :=
  match Text.splitOnceChars '.' body with
  | none => some body
  | some (before, _) =>
    let size := (Text.byteSize before + digits + 1) % UInt64.size
    (takeBytes? size body).map fun kept => (kept.reverse.dropWhile (· == '.')).reverse

/-- Cuts the fraction of a written timestamp in front of a zone mark. -/
def cut? (digits : Nat) (written : String) : Option String :=
  let cs := written.toList
  match cs.getLast? with
  | some z =>
    if isZoneMark z then
      (cutFraction? digits cs.dropLast).map fun body => String.ofList (body ++ [z])
    else (cutFraction? digits cs).map String.ofList
  | none => some written

/-- The written form in the timestamp's own format. -/
def write (t : LabelTime) : Except ShiftFault String :=
  let written? := match t.decimals with
    | none => t.instant.write? (Pattern.ofText t.format)
    | some digits =>
      let full := fullFractionSpecifier.intercalate (Text.pieces fractionSpecifier t.format)
      (t.instant.write? (Pattern.ofText full)).bind (cut? digits)
  match written? with
  | some s => .ok s
  | none => .error .unwritable

end LabelTime

end LabelTemplate.Time
