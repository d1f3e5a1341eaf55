import LabelTemplate.Time.Fault
import LabelTemplate.Time.Pattern
import LabelTemplate.Time.Timestamp

/-!
# Fields of a timestamp

The numbers that a text gives for the parts of a timestamp, gathered one by
one and then put together.  A field can be given more than once, and a date
in more than one way, as long as everything agrees.
-/

namespace LabelTemplate.Time

/-- The parts that a timestamp can be put together from. -/
inductive Slot where
  | year
  | century
  | yearOfCentury
  | isoYear
  | isoYearOfCentury
  | quarter
  | month
  | day
  | sundayWeek
  | mondayWeek
  | isoWeek
  /-- The days since Monday. -/
  | weekday
  | ordinal
  /-- 0 before noon and 1 after it. -/
  | halfDay
  /-- The full hours since the half day began. -/
  | dialHour
  | minute
  | second
  | nanos
  | unixSeconds
  | offset
  deriving DecidableEq, Repr

/-- What is known of each slot. -/
structure Fields where
  values : List (Slot × Int) := []
  deriving Repr

namespace Fields

def get? (f : Fields) (slot : Slot) : Option Int := f.values.lookup slot

/-- Fills a slot, which must be empty or hold the same value. -/
def put (f : Fields) (slot : Slot) (v : Int) : Except TimestampFault Fields :=
  match f.get? slot with
  | none => .ok ⟨(slot, v) :: f.values⟩
  | some old => if old = v then .ok f else .error .impossible

/-- Fills a slot with a value that must lie between two bounds. -/
def putWithin (f : Fields) (slot : Slot) (least most v : Int) : Except TimestampFault Fields :=
  if v < least ∨ most < v then .error .outOfRange else f.put slot v

/-- Stores the number that was read for a field. -/
def store (f : Fields) (field : NumberField) (v : Int) : Except TimestampFault Fields :=
  match field with
  | .year => f.putWithin .year Int32.minValue.toInt Int32.maxValue.toInt v
  | .century => f.putWithin .century 0 Int32.maxValue.toInt v
  | .yearOfCentury => f.putWithin .yearOfCentury 0 99 v
  | .isoYear => f.putWithin .isoYear Int32.minValue.toInt Int32.maxValue.toInt v
  | .isoYearOfCentury => f.putWithin .isoYearOfCentury 0 99 v
  | .quarter => f.putWithin .quarter 1 4 v
  | .month => f.putWithin .month 1 12 v
  | .day => f.putWithin .day 1 31 v
  | .sundayWeek => f.putWithin .sundayWeek 0 53 v
  | .mondayWeek => f.putWithin .mondayWeek 0 53 v
  | .isoWeek => f.putWithin .isoWeek 1 53 v
  | .daysFromSunday =>
    if v < 0 ∨ 6 < v then .error .outOfRange else f.put .weekday ((v + 6) % 7)
  | .weekday => if v < 1 ∨ 7 < v then .error .outOfRange else f.put .weekday (v - 1)
  | .ordinal => f.putWithin .ordinal 1 366 v
  | .hour => do
    if v < 0 ∨ 23 < v then throw .outOfRange
    (← f.put .halfDay (v / 12)).put .dialHour (v % 12)
  | .dialHour => if v < 1 ∨ 12 < v then .error .outOfRange else f.put .dialHour (v % 12)
  | .minute => f.putWithin .minute 0 59 v
  | .second => f.putWithin .second 0 60 v
  | .nanos => f.putWithin .nanos 0 999999999 v
  | .unixSeconds => f.put .unixSeconds v

/-- A slot says `v` or nothing. -/
def agrees (f : Fields) (slot : Slot) (v : Int) : Bool :=
  (f.get? slot).all (· == v)

/-! ## The date -/

/-- The year that a year, a century and a year of a century say together; two
digits alone stand for 1970 to 2069. -/
def resolveYear (year century ofCentury : Option Int) : Except TimestampFault (Option Int) :=
  match year, century, ofCentury with
  | y, none, none => .ok y
  | some y, q, r =>
    if 0 ≤ y ∧ q.getD (y / 100) = y / 100 ∧ r.getD (y % 100) = y % 100 then .ok (some y)
    else .error .impossible
  | none, some q, some r => .ok (some (100 * q + r))
  | none, none, some r => .ok (some (r + if r < 70 then 2000 else 1900))
  | none, some _, none => .error .notEnough

/-- The century and the year in it agree with a year; a year before 0 has
neither. -/
def agreesWithCentury (f : Fields) (year : Int) : Bool :=
  if 0 ≤ year then f.agrees .century (year / 100) && f.agrees .yearOfCentury (year % 100)
  else (f.get? .century).isNone && (f.get? .yearOfCentury).isNone

def agreesWithMonthDay (f : Fields) (d : Date) : Bool :=
  f.agrees .year d.year && f.agreesWithCentury d.year &&
    f.agrees .month d.month && f.agrees .day d.day

def agreesWithIsoWeek (f : Fields) (d : Date) : Bool :=
  let (year, week) := d.isoWeek
  let ofCentury := if 0 ≤ year then f.agrees .isoYearOfCentury (year % 100)
    else (f.get? .isoYearOfCentury).isNone
  f.agrees .isoYear year && ofCentury && f.agrees .isoWeek week &&
    f.agrees .weekday d.daysFromMonday

/-- The number of the last day of the week before Sunday, counted from
Monday. -/
def sunday : Nat := 6

def agreesWithOrdinal (f : Fields) (d : Date) : Bool :=
  f.agrees .ordinal d.ordinal && f.agrees .sundayWeek (d.weekFrom sunday) &&
    f.agrees .mondayWeek (d.weekFrom 0)

/-- The date of a weekday in a numbered week of a year, where weeks start on
`start`. -/
def dateOfWeek (year week weekday : Int) (start : Nat) : Except TimestampFault Date :=
  match Date.ofOrdinal? year 1 with
  | none => .error .outOfRange
  | some first =>
    let firstStart : Int := 1 + (start + 7 - first.daysFromMonday) % 7
    let ordinal := firstStart + (week - 1) * 7 + (weekday + 7 - start) % 7
    if ordinal ≤ 0 then .error .impossible
    else match Date.ofOrdinal? year ordinal.toNat with
      | some d => .ok d
      | none => .error .impossible

/-- The date that the slots say: from month and day, from the day of the
year, or from a weekday in a week.  What else is known must agree with it. -/
def date (f : Fields) : Except TimestampFault Date := do
  let year ← resolveYear (f.get? .year) (f.get? .century) (f.get? .yearOfCentury)
  let isoYear ← resolveYear (f.get? .isoYear) none (f.get? .isoYearOfCentury)
  let found : Option Date → Except TimestampFault Date
    | some d => .ok d
    | none => .error .outOfRange
  let (agreed, d) ←
    match year, f.get? .month, f.get? .day with
    | some y, some m, some d => do
      let date ← found (Date.ofMonthDay? y m.toNat d.toNat)
      pure (f.agreesWithIsoWeek date && f.agreesWithOrdinal date, date)
    | _, _, _ =>
      let all (date : Date) : Bool :=
        f.agreesWithMonthDay date && f.agreesWithIsoWeek date && f.agreesWithOrdinal date
      match year, f.get? .ordinal, f.get? .sundayWeek, f.get? .mondayWeek, f.get? .weekday with
      | some y, some o, _, _, _ => do
        let date ← found (Date.ofOrdinal? y o.toNat)
        pure (all date, date)
      | some y, none, some week, _, some weekday => do
        let date ← dateOfWeek y week weekday sunday
        pure (all date, date)
      | some y, none, none, some week, some weekday => do
        let date ← dateOfWeek y week weekday 0
        pure (all date, date)
      | _, _, _, _, weekday =>
        match isoYear, f.get? .isoWeek, weekday with
        | some y, some week, some weekday => do
          let date ← found (Date.ofIsoWeek? y week.toNat weekday.toNat)
          pure (f.agreesWithMonthDay date && f.agreesWithOrdinal date, date)
        | _, _, _ => throw .notEnough
  if agreed && f.agrees .quarter d.quarter then return d else throw .impossible

/-! ## The time of day -/

/-- The second of the day and the nanoseconds since; second 60 is the leap
second after second 59. -/
def timeOfDay (f : Fields) : Except TimestampFault (Nat × Nat) := do
  let required (slot : Slot) : Except TimestampFault Nat :=
    match f.get? slot with
    | some v => .ok v.toNat
    | none => .error .notEnough
  let half ← required .halfDay
  let hour ← required .dialHour
  let minute ← required .minute
  let second := ((f.get? .second).getD 0).toNat
  let nanos ← match f.get? .nanos, f.get? .second with
    | some _, none => throw .notEnough
    | some n, some _ => pure n.toNat
    | none, _ => pure 0
  let whole (second : Nat) : Nat := ((12 * half + hour) * 60 + minute) * 60 + second
  return if second = 60 then (whole 59, nanos + nanosPerSecond) else (whole second, nanos)

/-! ## Together -/

/-- Adds what a number of seconds since 1970 says; a leap second keeps its
own number. -/
def addUnixSeconds (f : Fields) (s : Int) : Except TimestampFault Fields := do
  let at? (s : Int) : Except TimestampFault Timestamp :=
    match Timestamp.ofUnixSeconds? s with
    | some t => .ok t
    | none => .error .outOfRange
  let t ← at? s
  let (t, f) ←
    if f.get? .second = some 60 then
      if t.second = 59 then pure (t, f)
      else if t.second = 0 then pure (← at? (s - 1), f)
      else throw .impossible
    else pure (t, ← f.store .second t.second)
  let f ← f.store .year t.date.year
  let f ← f.store .ordinal t.date.ordinal
  let f ← f.store .hour t.hour
  f.store .minute t.minute

/-- The timestamp that the slots say. -/
def timestamp (f : Fields) : Except TimestampFault Timestamp :=
  match f.date, f.timeOfDay, f.get? .unixSeconds with
  | .ok date, .ok (seconds, nanos), given =>
    let t : Timestamp := ⟨date, seconds, nanos⟩
    let isLate (s : Int) : Bool := nanos ≥ nanosPerSecond && s == t.unixSeconds + 1
    if given.all fun s => s == t.unixSeconds || isLate s then .ok t else .error .impossible
  | date, time, some s => do
    let causes := [date.map fun _ => (), time.map fun _ => ()]
    let arises (cause : TimestampFault) : Bool := causes.any fun
      | .error e => e = cause
      | .ok _ => false
    if arises .outOfRange then throw .outOfRange
    if arises .impossible then throw .impossible
    let f ← f.addUnixSeconds s
    let date ← f.date
    let (seconds, nanos) ← f.timeOfDay
    return ⟨date, seconds, nanos⟩
  | date, time, none => do
    let date ← date
    let (seconds, nanos) ← time
    return ⟨date, seconds, nanos⟩

end Fields

end LabelTemplate.Time
