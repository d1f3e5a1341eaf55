import LabelTemplate.Text.Pieces

/-!
# Faults of JSON texts

Why a text is not JSON, or not of the shape that is wanted, and the wording.
-/

namespace LabelTemplate

inductive JsonFault where
  | unfinishedList
  | unfinishedObject
  | unfinishedString
  | unfinishedValue
  | expectedColon
  | expectedListEnd
  | expectedObjectEnd
  | expectedWord
  | expectedValue
  | invalidEscape
  | invalidNumber
  | numberTooLarge
  | controlCharacter
  | keyNotString
  | loneSurrogate
  | unfinishedPair
  | trailingComma
  | trailingText
  | tooDeep
  /-- A value of another type than the wanted one. -/
  | wrongType (found expected : String)
  | unknownMember (name : String) (known : List String)
  | duplicateMember (name : String)
  /-- A value of none of the types that are possible for it. -/
  | noVariant (type : String)
  deriving DecidableEq, Repr

/-- A name between backticks. -/
def JsonFault.ticked (name : String) : String := "`" ++ name ++ "`"

def JsonFault.message : JsonFault → String
  | unfinishedList => "EOF while parsing a list"
  | unfinishedObject => "EOF while parsing an object"
  | unfinishedString => "EOF while parsing a string"
  | unfinishedValue => "EOF while parsing a value"
  | expectedColon => "expected `:`"
  | expectedListEnd => "expected `,` or `]`"
  | expectedObjectEnd => "expected `,` or `\x7d`"
  | expectedWord => "expected ident"
  | expectedValue => "expected value"
  | invalidEscape => "invalid escape"
  | invalidNumber => "invalid number"
  | numberTooLarge => "number out of range"
  | controlCharacter => "control character (\\u0000-\\u001F) found while parsing a string"
  | keyNotString => "key must be a string"
  | loneSurrogate => "lone leading surrogate in hex escape"
  | unfinishedPair => "unexpected end of hex escape"
  | trailingComma => "trailing comma"
  | trailingText => "trailing characters"
  | tooDeep => "recursion limit exceeded"
  | wrongType found expected => "invalid type: " ++ found ++ ", expected " ++ expected
  | unknownMember name known =>
    "unknown field " ++ ticked name ++ ", expected one of " ++
      ", ".intercalate (known.map ticked)
  | duplicateMember name => "duplicate field " ++ ticked name
  | noVariant type => "data did not match any variant of untagged enum " ++ type

/-- A place in a text: the line, counted from 1, and the bytes passed in it. -/
structure JsonPlace where
  line : Nat
  column : Nat
  deriving DecidableEq, Repr

structure JsonError where
  fault : JsonFault
  place : JsonPlace
  deriving DecidableEq, Repr

def JsonError.message (e : JsonError) : String :=
  e.fault.message ++ s!" at line {e.place.line} column {e.place.column}"

end LabelTemplate
