import LabelTemplate.Text.Blank

/-!
# Cutting and joining texts

Trimming, splitting at a character and splitting at the occurrences of a
token.  The work is done on lists of characters; the functions on `String`
only convert.
-/

namespace LabelTemplate.Text

/-- The list without the blanks at its two ends. -/
def trimChars (cs : List Char) : List Char :=
  ((cs.dropWhile isBlank).reverse.dropWhile isBlank).reverse

/-- The text without the blanks at its two ends. -/
def trim (s : String) : String :=
  String.ofList (trimChars s.toList)

/-- True when every character of the text is blank. -/
def isBlankText (s : String) : Bool :=
  s.toList.all isBlank

/-- What stands before and after the first `sep`. -/
def splitOnceChars (sep : Char) : List Char → Option (List Char × List Char)
  | [] => none
  | c :: cs =>
    if c = sep then some ([], cs)
    else (splitOnceChars sep cs).map fun (a, b) => (c :: a, b)

/-- What stands before and after the first `sep`. -/
def splitOnce (sep : Char) (s : String) : Option (String × String) :=
  (splitOnceChars sep s.toList).map fun (a, b) => (String.ofList a, String.ofList b)

/-- The rest of `cs` after `start`, if `cs` starts with it. -/
def dropStart? : (start cs : List Char) → Option (List Char)
  | [], cs => some cs
  | _ :: _, [] => none
  | p :: ps, c :: cs => if p = c then dropStart? ps cs else none

/-- What stands before and after the leftmost occurrence of `token`. -/
def cut? (token : List Char) : List Char → Option (List Char × List Char)
  | [] => if token.isEmpty then some ([], []) else none
  | c :: cs =>
    match dropStart? token (c :: cs) with
    | some rest => some ([], rest)
    | none => (cut? token cs).map fun (a, b) => (c :: a, b)

/-- True when `token` occurs in the text. -/
def contains (token s : String) : Bool :=
  (cut? token.toList s.toList).isSome

/-- The pieces between the leftmost non-overlapping occurrences of a token
`t :: ts`, first to last; there is always at least one piece. -/
def piecesChars (t : Char) (ts : List Char) : Nat → List Char → List (List Char)
  | 0, cs => [cs]
  | n + 1, cs =>
    match cut? (t :: ts) cs with
    | some (before, after) => before :: piecesChars t ts n after
    | none => [cs]

/-- The pieces of a text between the occurrences of a non-empty token.  An
empty token occurs nowhere. -/
def pieces (token s : String) : List String :=
  match token.toList with
  | [] => [s]
  | t :: ts => (piecesChars t ts s.length s.toList).map String.ofList

/-- The parts between the occurrences of a character. -/
def splitChars (sep : Char) : List Char → List (List Char)
  | [] => [[]]
  | c :: cs =>
    if c = sep then [] :: splitChars sep cs
    else match splitChars sep cs with
      | [] => [[c]]
      | p :: ps => (c :: p) :: ps

/-- The parts between the occurrences of a character. -/
def split (sep : Char) (s : String) : List String :=
  (splitChars sep s.toList).map String.ofList

/-- The text after `start`, if it starts with it. -/
def dropPrefix? (start s : String) : Option String :=
  (dropStart? start.toList s.toList).map String.ofList

/-- The number of bytes of a list of characters in UTF-8. -/
def byteSize : List Char → Nat
  | [] => 0
  | c :: cs => c.utf8Size + byteSize cs

theorem byteSize_append (as bs : List Char) : byteSize (as ++ bs) = byteSize as + byteSize bs := by
  induction as with
  | nil => simp [byteSize]
  | cons a as ih => simp [byteSize, ih, Nat.add_assoc]

/-- ASCII letters in upper case, all else unchanged. -/
def asciiUpper (s : String) : String :=
  String.ofList (s.toList.map Char.toUpper)

end LabelTemplate.Text
