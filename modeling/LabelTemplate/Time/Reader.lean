import LabelTemplate.Time.Fields

/-!
# Reading timestamps

A text is read item by item along a pattern, and the fields that it gives
are put together.  Blanks of the pattern stand for any blanks, and numbers
can be preceded by blanks.
-/

namespace LabelTemplate.Time

open Number (isDigit)

/-- What is known so far and the text that is left. -/
abbrev Reading := Fields × List Char

namespace Scan

/-- A value and the text after it. -/
abbrev Found (α : Type) := α × List Char

/-- A number of at least `least` digits, of which at most `most` are taken;
it must fit a signed 64-bit word. -/
def number (least : Nat) (most : Option Nat) (cs : List Char) : Except TimestampFault (Found Nat) := do
  if Text.byteSize cs < least then throw .tooShort
  let digits := match most with
    | some most => (cs.take most).takeWhile isDigit
    | none => cs.takeWhile isDigit
  let n := Number.digitsValue digits
  if n > Int64.maxValue.toInt then throw .outOfRange
  if digits.length < least then throw .invalid
  return (n, cs.drop digits.length)

/-- A number with a sign and any number of digits, or without one and with at
most four. -/
def signed (cs : List Char) : Except TimestampFault (Found Int) := do
  match cs with
  | '-' :: rest => let (n, rest) ← number 1 none rest; return (-(n : Int), rest)
  | '+' :: rest => let (n, rest) ← number 1 none rest; return (n, rest)
  | _ => let (n, rest) ← number 1 (some 4) cs; return (n, rest)

/-- The nanoseconds of exactly so many digits after a point. -/
def fixedFraction (digits : Nat) (cs : List Char) : Except TimestampFault (Found Nat) := do
  let (n, rest) ← number digits (some digits) cs
  return (n * Nat.pow 10 (9 - digits), rest)

/-- The nanoseconds of any digits after a point; those after the ninth do not
count. -/
def fraction (cs : List Char) : Except TimestampFault (Found Nat) := do
  let (n, rest) ← number 1 (some 9) cs
  let digits := cs.length - rest.length
  return (n * Nat.pow 10 (9 - digits), rest.dropWhile isDigit)

/-- The text after `name`, where case does not matter. -/
def dropName? (name : String) (cs : List Char) : Option (List Char) :=
  let length := name.length
  if (cs.take length).map Char.toLower = name.toList.map Char.toLower then some (cs.drop length)
  else none

/-- The index of the name whose first three letters come next. -/
def shortNameIndex (names : List String) (cs : List Char) : Except TimestampFault (Found Nat) :=
  if Text.byteSize cs < 3 then .error .tooShort
  else
    match names.findIdx? fun name => (dropName? (Time.shortName name) cs).isSome with
    | some i => .ok (i, cs.drop 3)
    | none => .error .invalid

/-- The index of the name that comes next, whole or cut to three letters. -/
def nameIndex (names : List String) (cs : List Char) : Except TimestampFault (Found Nat) := do
  let (i, rest) ← shortNameIndex names cs
  return (i, ((names[i]?).bind (dropName? · cs)).getD rest)

/-- Two digits, of which the first is at most `most`. -/
def twoDigits (most : Char) (cs : List Char) : Except TimestampFault (Found Nat) :=
  if Text.byteSize cs < 2 then .error .tooShort
  else
    match cs with
    | a :: b :: rest =>
      if isDigit a && isDigit b then
        if a ≤ most then .ok (Number.digitsValue [a, b], rest) else .error .outOfRange
      else .error .invalid
    | _ => .error .invalid

/-- The offset of a zone in seconds: a sign, hours and minutes with colons or
blanks between them. -/
def offset (minutesOptional : Bool) (cs : List Char) : Except TimestampFault (Found Int) := do
  let (negative, cs) ← match cs with
    | [] => throw .tooShort
    | '+' :: rest => pure (false, rest)
    | '-' :: rest | '\u2212' :: rest => pure (true, rest)
    | _ => throw .invalid
  let (hours, cs) ← twoDigits '9' cs
  let cs := cs.dropWhile fun c => c == ':' || isBlank c
  let (minutes, cs) ←
    if minutesOptional && cs.isEmpty then pure (0, cs) else twoDigits '5' cs
  let seconds : Int := hours * 3600 + minutes * 60
  return (if negative then -seconds else seconds, cs)

/-- The offset of a zone, where a Z stands for none. -/
def zuluOrOffset (minutesOptional : Bool) (cs : List Char) : Except TimestampFault (Found Int) :=
  match cs with
  | 'Z' :: rest | 'z' :: rest => .ok (0, rest)
  | _ => offset minutesOptional cs

/-- The digits that a number field takes at most; none for any number. -/
def width? : NumberField → Option Nat
  | .year | .isoYear => some 4
  | .quarter | .daysFromSunday | .weekday => some 1
  | .ordinal => some 3
  | .nanos => some 9
  | .unixSeconds => none
  | _ => some 2

end Scan

namespace Reading

open Scan

/-- Stores what was read from the rest of the text. -/
def storing {α : Type} (read : Except TimestampFault (Found α))
    (store : α → Except TimestampFault Fields) : Except TimestampFault Reading := do
  let (v, rest) ← read
  return (← store v, rest)

/-- Reads the fraction of a second. -/
def readNanos (f : Fields) (read : Except TimestampFault (Found Nat)) :
    Except TimestampFault Reading :=
  storing read fun n => f.store .nanos n

def readLiteral (text : List Char) : Reading → Except TimestampFault Reading
  | (f, cs) =>
    if Text.byteSize cs < Text.byteSize text then .error .tooShort
    else match Text.dropStart? text cs with
      | some rest => .ok (f, rest)
      | none => .error .invalid

def readNumber (field : NumberField) : Reading → Except TimestampFault Reading
  | (f, cs) =>
    let cs := cs.dropWhile isBlank
    match field with
    | .year | .isoYear => storing (signed cs) (f.store field)
    | _ => storing (number 1 (width? field) cs) fun n => f.store field n

def readName (field : NameField) : Reading → Except TimestampFault Reading
  | (f, cs) =>
    let index (long : Bool) (names : List String) : Except TimestampFault (Found Nat) :=
      if long then nameIndex names cs else shortNameIndex names cs
    match field with
    | .month long => storing (index long monthNames) fun i => f.store .month (i + 1)
    | .weekday long => storing (index long weekdayNames) fun i => f.put .weekday i
    | .noon _ =>
      if Text.byteSize cs < 2 then .error .tooShort
      else match dropName? "am" cs, dropName? "pm" cs with
        | some rest, _ => return (← f.put .halfDay 0, rest)
        | _, some rest => return (← f.put .halfDay 1, rest)
        | _, _ => .error .invalid

def readOffset (form : ZoneForm) : Reading → Except TimestampFault Reading
  | (f, cs) =>
    let cs := cs.dropWhile isBlank
    let read := match form with
      | .offset => offset false cs
      | .zuluOrOffset => zuluOrOffset false cs
      | .zuluOrHours => zuluOrOffset true cs
    storing read fun v => f.put .offset v

/-- Reads one item that does not stand for others. -/
def readSimple (r : Reading) : Item → Except TimestampFault Reading
  | .literal text => readLiteral text r
  | .blank _ => .ok (r.1, r.2.dropWhile isBlank)
  | .number field _ => readNumber field r
  | .name field => readName field r
  | .fraction =>
    match r.2 with
    | '.' :: rest => readNanos r.1 (fraction rest)
    | _ => .ok r
  | .fixedFraction digits true =>
    match r.2 with
    | '.' :: rest => readNanos r.1 (fixedFraction digits rest)
    | _ => .ok r
  | .fixedFraction digits false => readNanos r.1 (fixedFraction digits r.2)
  | .zoneName => .ok (r.1, r.2.dropWhile (!isBlank ·))
  | .zoneOffset form => readOffset form r
  | .instant | .unknown => .error .badFormat

/-- The items of the date in the form for interchange. -/
def instantDate : List Item :=
  [.zeroPadded .year, .blank [], .literal ['-'], .zeroPadded .month, .blank [], .literal ['-'],
    .zeroPadded .day]

/-- The items of the time of day in the form for interchange. -/
def instantTime : List Item :=
  [.zeroPadded .hour, .blank [], .literal [':'], .zeroPadded .minute, .blank [], .literal [':'],
    .zeroPadded .second, .fraction, .blank []]

/-- Reads date, time and offset in the form for interchange. -/
def readInstant (r : Reading) : Except TimestampFault Reading := do
  let (f, cs) ← instantDate.foldlM readSimple r
  let rest ← match cs with
    | [] => throw .tooShort
    | 't' :: rest | 'T' :: rest | ' ' :: rest => pure rest
    | _ => throw .invalid
  let (f, cs) ← instantTime.foldlM readSimple (f, rest)
  match dropName? "utc" cs with
  | some rest => return (← f.put .offset 0, rest)
  | none => readOffset .zuluOrOffset (f, cs)

def readItem (r : Reading) : Item → Except TimestampFault Reading
  | .instant => r.readInstant
  | item => r.readSimple item

end Reading

namespace Pattern

/-- Reads a timestamp; the text must end where the pattern does. -/
def read (p : Pattern) (text : String) : Except TimestampFault Timestamp := do
  let (f, rest) ← p.foldlM Reading.readItem ({}, text.toList)
  if !rest.isEmpty then throw .tooLong
  f.timestamp

end Pattern

end LabelTemplate.Time
