import LabelTemplate.Number.Text

/-!
# Faults of timestamps

Why a text is not a timestamp, why a timestamp cannot be shifted, and the
wording of both.
-/

namespace LabelTemplate.Time

/-- Why a text is not a timestamp of a format. -/
inductive TimestampFault where
  | outOfRange
  | impossible
  | notEnough
  | invalid
  | tooShort
  | tooLong
  | badFormat
  deriving DecidableEq, Repr

def TimestampFault.message : TimestampFault → String
  | outOfRange => "input is out of range"
  | impossible => "no possible date and time matching input"
  | notEnough => "input is not enough for unique date and time"
  | invalid => "input contains invalid characters"
  | tooShort => "premature end of input"
  | tooLong => "trailing input"
  | badFormat => "bad or unsupported format string"

/-- Why a timestamp cannot be shifted, or not be written afterwards. -/
inductive ShiftFault where
  | unknownUnit (unit : String)
  | notFinite (delta : Float)
  /-- The shifted instant has no date. -/
  | overflow
  /-- The format has no written form for a timestamp without a zone. -/
  | unwritable
  deriving Repr

def ShiftFault.message : ShiftFault → String
  | unknownUnit unit => s!"unrecognised unit '{unit}', expected one of s, ms, microseconds"
  | notFinite delta => s!"invalid delta '{Number.display delta}'"
  | overflow => "date overflow"
  | unwritable => "the format cannot be written"

end LabelTemplate.Time
