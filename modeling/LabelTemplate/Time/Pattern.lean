import LabelTemplate.Text.Pieces

/-!
# Patterns of timestamps

A pattern is a text with specifiers: a percent sign, a flag for the padding
and a letter.  It is read once into a list of items, which both reading and
writing go through in order.  Composite specifiers stand for several items.
-/

namespace LabelTemplate.Time

/-- What fills a number up to its width when it is written. -/
inductive Padding where
  | zero
  | space
  | none
  deriving DecidableEq, Repr

/-- The fields of a timestamp that are numbers. -/
inductive NumberField where
  | year
  | century
  | yearOfCentury
  | isoYear
  | isoYearOfCentury
  | quarter
  | month
  | day
  /-- Weeks that start on Sunday. -/
  | sundayWeek
  /-- Weeks that start on Monday. -/
  | mondayWeek
  | isoWeek
  /-- The days since Sunday. -/
  | daysFromSunday
  /-- The weekday, where Monday is 1. -/
  | weekday
  | ordinal
  | hour
  /-- The hour on a dial of twelve. -/
  | dialHour
  | minute
  | second
  | nanos
  | unixSeconds
  deriving DecidableEq, Repr

/-- The fields that are written as names. -/
inductive NameField where
  | month (long : Bool)
  | weekday (long : Bool)
  /-- Before or after noon. -/
  | noon (upper : Bool)
  deriving DecidableEq, Repr

/-- How the offset of a zone is read. -/
inductive ZoneForm where
  | offset
  | zuluOrOffset
  | zuluOrHours
  deriving DecidableEq, Repr

inductive Item where
  | literal (text : List Char)
  | blank (text : List Char)
  | number (field : NumberField) (padding : Padding)
  | name (field : NameField)
  /-- A point and as many digits of the fraction as are needed. -/
  | fraction
  /-- A fixed number of digits of the fraction, with a point before them or
  not. -/
  | fixedFraction (digits : Nat) (point : Bool)
  | zoneName
  | zoneOffset (form : ZoneForm)
  /-- Date, time and offset in the usual form for interchange. -/
  | instant
  /-- A specifier that does not exist. -/
  | unknown
  deriving DecidableEq, Repr

namespace Item

def zeroPadded (f : NumberField) : Item := number f .zero

def spacePadded (f : NumberField) : Item := number f .space

def unpadded (f : NumberField) : Item := number f .none

/-! ## Composite items -/

def monthDayYear : List Item :=
  [zeroPadded .month, literal ['/'], zeroPadded .day, literal ['/'], zeroPadded .yearOfCentury]

def yearMonthDay : List Item :=
  [zeroPadded .year, literal ['-'], zeroPadded .month, literal ['-'], zeroPadded .day]

def hourMinute : List Item := [zeroPadded .hour, literal [':'], zeroPadded .minute]

def hourMinuteSecond : List Item := hourMinute ++ [literal [':'], zeroPadded .second]

/-- The items of a specifier of one letter. -/
def ofLetter? : Char → Option (List Item)
  | 'A' => some [name (.weekday true)]
  | 'a' => some [name (.weekday false)]
  | 'B' => some [name (.month true)]
  | 'b' | 'h' => some [name (.month false)]
  | 'C' => some [zeroPadded .century]
  | 'D' | 'x' => some monthDayYear
  | 'd' => some [zeroPadded .day]
  | 'e' => some [spacePadded .day]
  | 'F' => some yearMonthDay
  | 'f' => some [zeroPadded .nanos]
  | 'G' => some [zeroPadded .isoYear]
  | 'g' => some [zeroPadded .isoYearOfCentury]
  | 'H' => some [zeroPadded .hour]
  | 'I' => some [zeroPadded .dialHour]
  | 'j' => some [zeroPadded .ordinal]
  | 'k' => some [spacePadded .hour]
  | 'l' => some [spacePadded .dialHour]
  | 'M' => some [zeroPadded .minute]
  | 'm' => some [zeroPadded .month]
  | 'n' => some [blank ['\n']]
  | 'P' => some [name (.noon false)]
  | 'p' => some [name (.noon true)]
  | 'q' => some [unpadded .quarter]
  | 'R' => some hourMinute
  | 'r' => some
    [zeroPadded .dialHour, literal [':'], zeroPadded .minute, literal [':'], zeroPadded .second,
      blank [' '], name (.noon true)]
  | 'S' => some [zeroPadded .second]
  | 's' => some [unpadded .unixSeconds]
  | 'T' | 'X' => some hourMinuteSecond
  | 't' => some [blank ['\t']]
  | 'U' => some [zeroPadded .sundayWeek]
  | 'u' => some [unpadded .weekday]
  | 'V' => some [zeroPadded .isoWeek]
  | 'v' => some
    [spacePadded .day, literal ['-'], name (.month false), literal ['-'], zeroPadded .year]
  | 'W' => some [zeroPadded .mondayWeek]
  | 'w' => some [unpadded .daysFromSunday]
  | 'Y' => some [zeroPadded .year]
  | 'y' => some [zeroPadded .yearOfCentury]
  | 'Z' => some [zoneName]
  | 'z' => some [zoneOffset .offset]
  | 'c' => some <|
    [name (.weekday false), blank [' '], name (.month false), blank [' '], spacePadded .day,
      blank [' ']] ++ hourMinuteSecond ++ [blank [' '], zeroPadded .year]
  | '+' => some [instant]
  | '%' => some [literal ['%']]
  | _ => none

/-- The items of the specifier that a list of characters starts with, and the
rest. -/
def ofSpecifier? : List Char → Option (List Item × List Char)
  | ':' :: ':' :: ':' :: 'z' :: rest | ':' :: ':' :: 'z' :: rest | ':' :: 'z' :: rest =>
    some ([zoneOffset .offset], rest)
  | '.' :: 'f' :: rest => some ([fraction], rest)
  | '.' :: '3' :: 'f' :: rest => some ([fixedFraction 3 true], rest)
  | '.' :: '6' :: 'f' :: rest => some ([fixedFraction 6 true], rest)
  | '.' :: '9' :: 'f' :: rest => some ([fixedFraction 9 true], rest)
  | '3' :: 'f' :: rest => some ([fixedFraction 3 false], rest)
  | '6' :: 'f' :: rest => some ([fixedFraction 6 false], rest)
  | '9' :: 'f' :: rest => some ([fixedFraction 9 false], rest)
  | c :: rest => (ofLetter? c).map (·, rest)
  | [] => none

/-- The padding that a flag asks for. -/
def paddingOf? : Char → Option Padding
  | '-' => some .none
  | '0' => some .zero
  | '_' => some .space
  | _ => none

/-- Gives a number another padding; nothing else can have one. -/
def withPadding (p : Padding) : List Item → List Item
  | [number f _] => [number f p]
  | _ => [unknown]

/-- The items of what follows a percent sign, and the rest.  After a
specifier that does not exist nothing more is looked at. -/
def ofEscape : List Char → List Item × List Char
  | '#' :: 'z' :: rest => ([zoneOffset .zuluOrHours], rest)
  | c :: rest =>
    match paddingOf? c with
    | some p =>
      match ofSpecifier? rest with
      | some (items, rest) => (withPadding p items, rest)
      | none => ([unknown], [])
    | none => (ofSpecifier? (c :: rest)).getD ([unknown], [])
  | [] => ([unknown], [])

end Item

/-- The items of a pattern in order. -/
abbrev Pattern := List Item

namespace Pattern

/-- Reads a pattern of at most `fuel` characters. -/
def ofChars : (fuel : Nat) → List Char → Pattern
  | 0, _ | _, [] => []
  | fuel + 1, '%' :: rest =>
    let (items, rest) := Item.ofEscape rest
    items ++ ofChars fuel rest
  | fuel + 1, c :: rest =>
    if isBlank c then
      .blank (c :: rest.takeWhile isBlank) :: ofChars fuel (rest.dropWhile isBlank)
    else
      let plain (c : Char) : Bool := c != '%' && !isBlank c
      .literal (c :: rest.takeWhile plain) :: ofChars fuel (rest.dropWhile plain)

/-- The pattern that a text spells. -/
def ofText (text : String) : Pattern := ofChars text.length text.toList

end Pattern

end LabelTemplate.Time
