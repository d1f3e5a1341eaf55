/-!
# Lines and columns

Lines and columns of byte offsets, both counted from 1; columns are counted
in bytes.  `LineTracker` follows a text forwards: `advanceTo` passes the
bytes up to an offset and gives the position there, so a run over growing
offsets reads each byte once.  `positionAt` counts from the start.
-/

namespace LabelTemplate.Xml

structure Position where
  line : Nat
  column : Nat
  deriving DecidableEq, Repr

/-- The byte of a line feed. -/
def lineFeed : UInt8 := 10

/-- The offset just after the last line feed, or 0. -/
def lineStartOf (passed : List UInt8) : Nat :=
  passed.length - (passed.reverse.takeWhile (· != lineFeed)).length

/-- The position of an offset, an offset past the end counting as the end. -/
def positionAt (input : List UInt8) (offset : Nat) : Position :=
  let passed := input.take offset
  ⟨1 + passed.count lineFeed, 1 + passed.length - lineStartOf passed⟩

structure LineTracker where
  /-- The length of the whole input. -/
  size : Nat
  /-- The bytes not passed yet. -/
  rest : List UInt8
  offset : Nat := 0
  line : Nat := 1
  lineStart : Nat := 0

namespace LineTracker

def ofText (s : String) : LineTracker :=
  { size := s.utf8ByteSize, rest := s.toUTF8.toList }

/-- Passes at most `count` bytes. -/
def pass : (count : Nat) → LineTracker → LineTracker
  | 0, t => t
  | count + 1, t =>
    match t.rest with
    | [] => t
    | b :: rest =>
      let offset := t.offset + 1
      if b = lineFeed then
        pass count { t with rest, offset, line := t.line + 1, lineStart := offset }
      else pass count { t with rest, offset }

/-- Passes the bytes before an offset and gives the position of the offset.
An offset that was passed before moves nothing. -/
def advanceTo (t : LineTracker) (offset : Nat) : LineTracker × Position :=
  let offset := min offset t.size
  let t := pass (offset - t.offset) t
  (t, ⟨t.line, offset - t.lineStart + 1⟩)

end LineTracker

end LabelTemplate.Xml
