import LabelTemplate.Xml.Reference

/-!
# Markup

The pieces a document text consists of: tags, texts, comments, character
data sections, instructions and declarations.  `Markup.scan` cuts a text into
pieces, each with the byte offset at which it starts, and ends with the fault
at which cutting stopped, if there was one.

Cutting checks that end tags match the start tags before them.  It does not
look into start tags and does not resolve references.
-/

namespace LabelTemplate.Xml

inductive Markup where
  /-- What stands between `<` and `>`. -/
  | start (content : List Char)
  /-- What stands between `<` and `/>`. -/
  | empty (content : List Char)
  | close
  | text (raw : List Char)
  | cdata (data : List Char)
  | comment (text : List Char)
  | instruction (content : List Char)
  /-- An XML declaration or a document type declaration. -/
  | declaration
  deriving DecidableEq, Repr

/-- Where cutting stopped and why. -/
structure Stop where
  offset : Nat
  fault : ReadFault
  deriving DecidableEq, Repr

namespace Markup

/-! ## The end of a construct -/

/-- Splits before and after the first `>` at which `stop`, given what was
read so far in reverse, holds. -/
def splitAtClose (stop : List Char → Bool) (seen : List Char) :
    List Char → Option (List Char × List Char)
  | [] => none
  | c :: cs =>
    if c = '>' ∧ stop seen = true then some (seen.reverse, cs)
    else splitAtClose stop (c :: seen) cs

theorem length_of_splitAtClose {stop : List Char → Bool} {seen cs content rest : List Char}
    (h : splitAtClose stop seen cs = some (content, rest)) : rest.length < cs.length := by
  induction cs generalizing seen with
  | nil => simp [splitAtClose] at h
  | cons c cs ih =>
    simp only [splitAtClose] at h
    split at h
    · simp_all
    · have := ih h
      simp only [List.length_cons]
      omega

/-- A comment needs two hyphens before its `>`, apart from the two it opens
with. -/
def commentStop : List Char → Bool
  | '-' :: '-' :: seen => seen.length > 2
  | _ => false

def cdataStop : List Char → Bool
  | ']' :: ']' :: _ => true
  | _ => false

/-- A document type declaration ends where its angle brackets balance. -/
def doctypeStop (seen : List Char) : Bool :=
  seen.count '<' == seen.count '>'

def instructionStop : List Char → Bool
  | '?' :: _ => true
  | _ => false

/-- The quotation that a position inside a tag is in. -/
def quoteAfter : Option Char → Char → Option Char
  | none, '"' => some '"'
  | none, '\'' => some '\''
  | none, _ => none
  | some q, c => if c = q then none else some q

/-- Splits before and after the first `>` outside quotes. -/
def splitTag (quote : Option Char) : List Char → Option (List Char × List Char)
  | [] => none
  | c :: cs =>
    if c = '>' ∧ quote = none then some ([], cs)
    else (splitTag (quoteAfter quote c) cs).map fun (content, rest) => (c :: content, rest)

theorem length_of_splitTag {quote : Option Char} {cs content rest : List Char}
    (h : splitTag quote cs = some (content, rest)) : rest.length < cs.length := by
  induction cs generalizing quote content rest with
  | nil => simp [splitTag] at h
  | cons c cs ih =>
    simp only [splitTag] at h
    split at h
    · simp_all
    · obtain ⟨⟨x, r⟩, hr, he⟩ := Option.map_eq_some_iff.1 h
      have := ih hr
      simp_all
      omega

/-! ## One construct -/

/-- What a `<` opens. -/
inductive Construct where
  | comment
  | cdata
  | doctype
  | instruction
  | endTag
  | startTag
  deriving DecidableEq, Repr

namespace Construct

/-- The construct that the text after a `<` belongs to. -/
def opened : List Char → Except ReadFault Construct
  | '!' :: '-' :: _ => .ok .comment
  | '!' :: '[' :: _ => .ok .cdata
  | '!' :: 'D' :: _ | '!' :: 'd' :: _ => .ok .doctype
  | '!' :: _ => .error .unknownMarkup
  | '?' :: _ => .ok .instruction
  | '/' :: _ => .ok .endTag
  | _ => .ok .startTag

/-- Splits the text after a `<` before and after the `>` that closes the
construct. -/
def split : Construct → List Char → Option (List Char × List Char)
  | comment => splitAtClose commentStop []
  | cdata => splitAtClose cdataStop []
  | doctype => splitAtClose doctypeStop []
  | instruction => splitAtClose instructionStop []
  | endTag | startTag => splitTag none

theorem length_of_split {k : Construct} {cs content rest : List Char}
    (h : k.split cs = some (content, rest)) : rest.length < cs.length := by
  cases k
  case endTag | startTag => exact length_of_splitTag h
  all_goals exact length_of_splitAtClose h

/-- The fault of a construct that the input ends in. -/
def unclosed : Construct → ReadFault
  | comment => .unclosedComment
  | cdata => .unclosedCData
  | doctype => .unclosedDoctype
  | instruction => .unclosedInstruction
  | endTag | startTag => .unclosedTag

end Construct

/-- The name of a start tag: all up to the first blank. -/
def tagName (content : List Char) : List Char :=
  content.takeWhile (!isMarkupBlank ·)

/-- The text without blanks at its end; a text of blanks only is kept. -/
def trimEndName (cs : List Char) : List Char :=
  match cs.reverse.dropWhile isMarkupBlank with
  | [] => cs
  | kept => kept.reverse

def dropLastTwo (cs : List Char) : List Char := cs.dropLast.dropLast

/-- What follows the word `!DOCTYPE`, written in either case. -/
def afterDoctype? (content : List Char) : Option (List Char) :=
  let word := "!DOCTYPE".toList
  if (content.take word.length).map Char.toUpper = word then some (content.drop word.length)
  else none

/-- True for `xml` alone or followed by a blank. -/
def isDeclaration : List Char → Bool
  | ['x', 'm', 'l'] => true
  | 'x' :: 'm' :: 'l' :: c :: _ => isMarkupBlank c
  | _ => false

/-- What a construct with this content is, and the names of the open tags
after it, given those before it, innermost first. -/
def ofConstruct (opened : List (List Char)) (content : List Char) :
    Construct → Except ReadFault (Markup × List (List Char))
  | .comment =>
    match Text.dropStart? "!--".toList content with
    | some body => .ok (comment (dropLastTwo body), opened)
    | none => .error .unclosedComment
  | .cdata =>
    match Text.dropStart? "![CDATA[".toList content with
    | some body => .ok (cdata (dropLastTwo body), opened)
    | none => .error .unclosedCData
  | .doctype =>
    match afterDoctype? content with
    | some name =>
      if name.all isMarkupBlank then .error .missingDoctypeName else .ok (declaration, opened)
    | none => .error .unclosedDoctype
  | .instruction =>
    match content with
    | _ :: c :: cs =>
      let body := (c :: cs).dropLast
      .ok (if isDeclaration body then declaration else instruction body, opened)
    | _ => .error .unclosedInstruction
  | .endTag =>
    let name := trimEndName content.tail
    match opened with
    | [] => .error (.unmatchedEnd (String.ofList name))
    | expected :: rest =>
      if name = expected then .ok (close, rest)
      else .error (.mismatchedEnd (String.ofList expected) (String.ofList name))
  | .startTag =>
    match content.getLast? with
    | some '/' => .ok (empty content.dropLast, opened)
    | _ => .ok (start content, tagName content :: opened)

/-! ## A whole text -/

/-- The pieces of a text with their byte offsets, and where cutting stopped
if it did not reach the end. -/
structure Pieces where
  pieces : List (Nat × Markup)
  stop : Option Stop
  deriving Repr

def Pieces.cons (offset : Nat) (piece : Markup) (ps : Pieces) : Pieces :=
  { ps with pieces := (offset, piece) :: ps.pieces }

/-- Cuts a text that starts at byte `offset`, inside the open tags `opened`. -/
def scanFrom (offset : Nat) (opened : List (List Char)) (cs : List Char) : Pieces :=
  match cs with
  | [] => ⟨[], none⟩
  | '<' :: rest =>
    match Construct.opened rest with
    | .error fault => ⟨[], some ⟨offset + 1, fault⟩⟩
    | .ok k =>
      match h : k.split rest with
      | none => ⟨[], some ⟨offset + 1 + Text.byteSize rest, k.unclosed⟩⟩
      | some (content, after) =>
        have := Construct.length_of_split h
        let past := offset + 1 + Text.byteSize content + 1
        match ofConstruct opened content k with
        | .error fault => ⟨[], some ⟨past, fault⟩⟩
        | .ok (piece, opened) => (scanFrom past opened after).cons offset piece
  | c :: rest =>
    let raw := c :: rest.takeWhile (· != '<')
    have : (rest.dropWhile (· != '<')).length ≤ rest.length :=
      (List.dropWhile_sublist _).length_le
    (scanFrom (offset + Text.byteSize raw) opened (rest.dropWhile (· != '<'))).cons offset
      (text raw)
termination_by cs.length
decreasing_by all_goals simp only [List.length_cons]; omega

/-- Cuts a text into its pieces.  A byte order mark in front is skipped and
not counted in the offsets. -/
def scan (cs : List Char) : Pieces :=
  match cs with
  | '\ufeff' :: rest => scanFrom 0 [] rest
  | _ => scanFrom 0 [] cs

end Markup
end LabelTemplate.Xml
