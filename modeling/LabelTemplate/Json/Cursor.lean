import LabelTemplate.Json.Fault

/-!
# Cursors

A cursor is the text that is left to read and the place that was reached.
-/

namespace LabelTemplate

structure Cursor where
  rest : List Char
  place : JsonPlace := ⟨1, 0⟩

namespace Cursor

def ofText (s : String) : Cursor := ⟨s.toList, ⟨1, 0⟩⟩

/-- The place after some bytes of a text, or after the text if it is shorter. -/
def placeAfter : (bytes : Nat) → JsonPlace → List Char → JsonPlace
  | 0, p, _ => p
  | _, p, [] => p
  | bytes, p, c :: cs =>
    if c = '\n' then placeAfter (bytes - 1) ⟨p.line + 1, 0⟩ cs
    else
      let size := min c.utf8Size bytes
      placeAfter (bytes - size) ⟨p.line, p.column + size⟩ cs

/-- The place one byte ahead, or the end. -/
def placeAhead (c : Cursor) : JsonPlace := placeAfter 1 c.place c.rest

/-- Passes some characters. -/
def skip (c : Cursor) (count : Nat) : Cursor :=
  ⟨c.rest.drop count, placeAfter (Text.byteSize (c.rest.take count)) c.place c.rest⟩

/-- Passes the blanks between tokens. -/
def skipBlanks (c : Cursor) : Cursor := c.skip (c.rest.takeWhile isMarkupBlank).length

/-- A fault of what was read so far. -/
def fail {α : Type} (c : Cursor) (fault : JsonFault) : Except JsonError α :=
  .error ⟨fault, c.place⟩

/-- A fault of what comes next. -/
def failAhead {α : Type} (c : Cursor) (fault : JsonFault) : Except JsonError α :=
  .error ⟨fault, c.placeAhead⟩

end Cursor

end LabelTemplate
