/-!
# The calendar

Days are counted from 1 January 1970; years follow the Gregorian calendar in
both directions, with a year 0.  Weeks of the ISO calendar start on Monday,
and the first one of a year holds its 4 January.
-/

namespace LabelTemplate.Time

/-- The first and the last year that a date can have. -/
def leastYear : Int := -262143
def greatestYear : Int := 262142

def isLeapYear (y : Int) : Bool :=
  y % 4 == 0 && (y % 100 != 0 || y % 400 == 0)

def daysInYear (y : Int) : Nat := if isLeapYear y then 366 else 365

/-- The days of the months of a year, in order. -/
def monthLengths (y : Int) : List Nat :=
  [31, if isLeapYear y then 29 else 28, 31, 30, 31, 30, 31, 31, 30, 31, 30, 31]

/-- The number of days from 1 January 1970 to 1 January of a year. -/
def daysBeforeYear (y : Int) : Int :=
  let p := y - 1
  365 * (y - 1970) + (Int.fdiv p 4 - Int.fdiv p 100 + Int.fdiv p 400) - 477

/-- A day of the calendar. -/
structure Date where
  year : Int
  /-- The number of the day in its year, from 1. -/
  ordinal : Nat
  deriving DecidableEq, Repr

namespace Date

/-- The date of an ordinal, if the year has that many days and is in range. -/
def ofOrdinal? (y : Int) (ordinal : Nat) : Option Date :=
  if leastYear ≤ y ∧ y ≤ greatestYear ∧ 1 ≤ ordinal ∧ ordinal ≤ daysInYear y then
    some ⟨y, ordinal⟩
  else none

/-- The date of a month and a day, both counted from 1. -/
def ofMonthDay? (y : Int) (month day : Nat) : Option Date :=
  if month = 0 then none
  else
    let lengths := monthLengths y
    match lengths[month - 1]? with
    | some length =>
      if 1 ≤ day ∧ day ≤ length then ofOrdinal? y ((lengths.take (month - 1)).foldr (· + ·) day) else none
    | none => none

/-- Month and day of an ordinal, given the lengths of the months left. -/
def splitOrdinal : (month : Nat) → List Nat → Nat → Nat × Nat
  | month, [], ordinal => (month, ordinal)
  | month, length :: lengths, ordinal =>
    if ordinal ≤ length then (month, ordinal)
    else splitOrdinal (month + 1) lengths (ordinal - length)

def monthDay (d : Date) : Nat × Nat := splitOrdinal 1 (monthLengths d.year) d.ordinal

def month (d : Date) : Nat := d.monthDay.1

def day (d : Date) : Nat := d.monthDay.2

def quarter (d : Date) : Nat := (d.month - 1) / 3 + 1

/-- The number of days since 1 January 1970. -/
def dayNumber (d : Date) : Int := daysBeforeYear d.year + d.ordinal - 1

/-- The date of a day number. -/
def ofDayNumber? (n : Int) : Option Date :=
  let guess := Int.fdiv (n * 400) 146097 + 1970
  let year :=
    if daysBeforeYear (guess + 1) ≤ n then guess + 1
    else if daysBeforeYear guess ≤ n then guess
    else guess - 1
  ofOrdinal? year (n - daysBeforeYear year + 1).toNat

/-- The number of days since Monday. -/
def daysFromMonday (d : Date) : Nat := (Int.emod (d.dayNumber + 3) 7).toNat

def daysFromSunday (d : Date) : Nat := (d.daysFromMonday + 1) % 7

/-- The number of days since the last day of the week `start`, which is
counted from Monday. -/
def daysSince (d : Date) (start : Nat) : Nat := (d.daysFromMonday + 7 - start) % 7

/-- The number of the week in the year, where weeks start on `start` and the
days before the first one are in week 0. -/
def weekFrom (d : Date) (start : Nat) : Nat := (d.ordinal + 6 - d.daysSince start) / 7

end Date

/-! ## Weeks of the ISO calendar -/

/-- The day number of the Monday that starts an ISO year. -/
def isoYearStart (y : Int) : Int :=
  let fourth := daysBeforeYear y + 3
  fourth - Int.emod (fourth + 3) 7

/-- The year and week of a date in the ISO calendar. -/
def Date.isoWeek (d : Date) : Int × Nat :=
  let n := d.dayNumber
  let year :=
    if isoYearStart (d.year + 1) ≤ n then d.year + 1
    else if isoYearStart d.year ≤ n then d.year
    else d.year - 1
  (year, ((n - isoYearStart year) / 7 + 1).toNat)

/-- The number of weeks of an ISO year. -/
def isoWeeks (y : Int) : Nat := ((isoYearStart (y + 1) - isoYearStart y) / 7).toNat

/-- The date of a weekday, counted from Monday, in a week of an ISO year. -/
def Date.ofIsoWeek? (y : Int) (week weekday : Nat) : Option Date :=
  if 1 ≤ week ∧ week ≤ isoWeeks y then
    Date.ofDayNumber? (isoYearStart y + 7 * (week - 1) + weekday)
  else none

/-! ## Names -/

def monthNames : List String :=
  ["January", "February", "March", "April", "May", "June", "July", "August", "September",
    "October", "November", "December"]

/-- The days of the week from Monday. -/
def weekdayNames : List String :=
  ["Monday", "Tuesday", "Wednesday", "Thursday", "Friday", "Saturday", "Sunday"]

/-- The first three letters of a name. -/
def shortName (name : String) : String := String.ofList (name.toList.take 3)

end LabelTemplate.Time
