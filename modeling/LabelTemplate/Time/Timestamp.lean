import LabelTemplate.Time.Civil

/-!
# Timestamps

A date and a time of day to the nanosecond, without a zone.  The fraction of
a leap second runs from one to two seconds after its 59th second.
-/

namespace LabelTemplate.Time

def nanosPerSecond : Nat := 1000000000

def secondsPerDay : Nat := 86400

structure Timestamp where
  date : Date
  /-- Seconds since midnight. -/
  seconds : Nat
  /-- Nanoseconds since the second; one second or more in a leap second. -/
  nanos : Nat
  deriving DecidableEq, Repr

namespace Timestamp

/-- The start of 1970. -/
def epoch : Timestamp := ⟨⟨1970, 1⟩, 0, 0⟩

def hour (t : Timestamp) : Nat := t.seconds / 3600

def minute (t : Timestamp) : Nat := t.seconds / 60 % 60

def second (t : Timestamp) : Nat := t.seconds % 60

/-- The number of seconds since 1970, leap seconds not counted. -/
def unixSeconds (t : Timestamp) : Int := t.date.dayNumber * secondsPerDay + t.seconds

/-- The timestamp of a number of seconds since 1970. -/
def ofUnixSeconds? (s : Int) : Option Timestamp :=
  (Date.ofDayNumber? (Int.fdiv s secondsPerDay)).map fun date =>
    ⟨date, (Int.emod s secondsPerDay).toNat, 0⟩

/-- The timestamp `seconds` after the midnight that starts a date. -/
def normalized? (date : Date) (seconds : Int) (nanos : Nat) : Option Timestamp :=
  (Date.ofDayNumber? (date.dayNumber + Int.fdiv seconds secondsPerDay)).map fun date =>
    ⟨date, (Int.emod seconds secondsPerDay).toNat, nanos⟩

/-- Adds nanoseconds; nothing if no date is that far.  What stays inside a
leap second is counted in its fraction, and what leaves it goes on from the
second before or after. -/
def addNanos? (t : Timestamp) (delta : Int) : Option Timestamp :=
  let whole := Int.tdiv delta nanosPerSecond
  let part := Int.tmod delta nanosPerSecond
  let move (seconds nanos : Int) : Option Timestamp :=
    let total := nanos + part
    normalized? t.date (seconds + whole + Int.fdiv total nanosPerSecond)
      (Int.emod total nanosPerSecond).toNat
  if t.nanos < nanosPerSecond then move t.seconds t.nanos
  else if whole > 0 ∨ (part > 0 ∧ t.nanos + part ≥ 2 * nanosPerSecond) then
    move t.seconds (t.nanos - nanosPerSecond)
  else if whole < 0 then move (t.seconds + 1) (t.nanos - nanosPerSecond)
  else some { t with nanos := (t.nanos + part).toNat }

end Timestamp

end LabelTemplate.Time
