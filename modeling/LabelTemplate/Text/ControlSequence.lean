/-!
# Control sequences

What a terminal would obey rather than show: control characters, and the
sequences that an escape character starts.  Messages that repeat what was
typed leave it out.  Tabs, line ends and form feeds lay a text out and are
kept.

The main statements say that what is kept stands in the order of the text, and
that a text of characters to show is kept whole.
-/

namespace LabelTemplate.Text

/-- Where a terminal stands in what it reads. -/
inductive ControlState where
  /-- Outside of any sequence. -/
  | ground
  /-- After the escape character. -/
  | escape
  /-- After the escape character and some characters from space to slash. -/
  | escapeMarks
  /-- In a sequence of parameters, which a letter ends. -/
  | parameters
  /-- In a command, which a bell ends. -/
  | command
  /-- At the start of a text for a device. -/
  | device
  /-- In the parameters of a text for a device. -/
  | deviceParameters
  /-- After some characters from space to slash in a text for a device. -/
  | deviceMarks
  /-- In a text that is not shown. -/
  | hidden
  deriving DecidableEq, Repr

/-- Characters that lay a text out. -/
def isLayout (c : Char) : Bool :=
  c == '\t' || c == '\n' || c == '\x0c' || c == '\r'

/-- Characters between two others, which are in it. -/
def isBetween (first last c : Char) : Bool := first ≤ c && c ≤ last

/-- The byte that ends a hidden text. -/
def hiddenEnd : UInt8 := 0x9c

namespace ControlState

/-- What is shown from a state on: outside of sequences everything that is no
control character, and layout also where a sequence waits for its end. -/
def shows : ControlState → Char → Bool
  | ground, c => isLayout c || (' ' ≤ c && c != '\x7f')
  | escape, c | escapeMarks, c | parameters, c => isLayout c
  | _, _ => false

/-- The state after a character that is not shown. -/
def next (s : ControlState) (c : Char) : ControlState :=
  if c == '\x18' || c == '\x1a' then ground
  else if c == '\x1b' then escape
  else match s with
    | ground => ground
    | escape =>
      if c == '[' then parameters
      else if c == ']' then command
      else if c == 'P' then device
      else if c == 'X' || c == '^' || c == '_' then hidden
      else if isBetween ' ' '/' c then escapeMarks
      else if isBetween '0' '~' c then ground
      else escape
    | escapeMarks => if isBetween '0' '~' c then ground else escapeMarks
    | parameters => if isBetween '@' '~' c then ground else parameters
    | command => if c == '\x07' then ground else command
    | device =>
      if isBetween ' ' '/' c then deviceMarks
      else if isBetween '0' '?' c then deviceParameters
      else if isBetween '@' '~' c then hidden
      else device
    | deviceParameters =>
      if isBetween ' ' '/' c then deviceMarks
      else if isBetween '<' '~' c then hidden
      else deviceParameters
    | deviceMarks => if isBetween '0' '~' c then hidden else deviceMarks
    | hidden => if (String.utf8EncodeChar c).contains hiddenEnd then ground else hidden

end ControlState

/-- The characters to show of those after which a terminal stands in `s`.
Once something is `showing`, only a character that is no text ends it, also
when a sequence was left without its end. -/
def shownChars : (showing : Bool) → ControlState → List Char → List Char
  | _, _, [] => []
  | showing, s, c :: cs =>
    if (showing && ControlState.ground.shows c) || s.shows c then
      c :: shownChars true (if c.toNat < 0x80 then s else .ground) cs
    else shownChars false (s.next c) cs

/-- A text without what a terminal would obey. -/
def withoutControls (s : String) : String :=
  String.ofList (shownChars false .ground s.toList)

/-- What is shown stands in the order of the text. -/
theorem shownChars_sublist (showing : Bool) (s : ControlState) (cs : List Char) :
    (shownChars showing s cs).Sublist cs := by
  induction cs generalizing showing s with
  | nil => exact List.Sublist.refl _
  | cons c cs ih =>
    unfold shownChars
    split
    · exact (ih _ _).cons_cons c
    · exact (ih _ _).cons c

/-- A text of characters to show is kept whole. -/
theorem shownChars_eq_self (showing : Bool) {cs : List Char}
    (h : ∀ c ∈ cs, ControlState.ground.shows c = true) :
    shownChars showing .ground cs = cs := by
  induction cs generalizing showing with
  | nil => rfl
  | cons c cs ih =>
    have hc : ControlState.ground.shows c = true := h c (by simp)
    have ht := ih true fun d hd => h d (by simp [hd])
    simp [shownChars, hc, ht]

end LabelTemplate.Text
