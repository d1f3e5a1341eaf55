import LabelTemplate.Xml.Fault
import LabelTemplate.Text.Pieces

/-!
# Entity and character references

`resolve` replaces the five named entities and the numeric character
references of a text; `escapeText` and `escapeValue` write the characters
that markup reserves as entities.
-/

namespace LabelTemplate.Xml.Reference

/-- The value of a hexadecimal digit. -/
def digitValue? (c : Char) : Option Nat :=
  if '0' ≤ c ∧ c ≤ '9' then some (c.toNat - '0'.toNat)
  else if 'a' ≤ c ∧ c ≤ 'f' then some (c.toNat - 'a'.toNat + 10)
  else if 'A' ≤ c ∧ c ≤ 'F' then some (c.toNat - 'A'.toNat + 10)
  else none

/-- Reads digits in a base of at most 16 into a number of at most 32 bits. -/
def readDigits (base : Nat) : Nat → List Char → Except CharRefFault Nat
  | acc, [] => .ok acc
  | acc, c :: cs =>
    match digitValue? c with
    | none => .error .badDigit
    | some v =>
      if v ≥ base then .error .badDigit
      else if acc * base + v ≥ UInt32.size then .error .tooLarge
      else readDigits base (acc * base + v) cs

/-- Reads the number of a reference, which carries no sign. -/
def readNumber (base : Nat) (cs : List Char) : Except CharRefFault Nat :=
  match cs with
  | [] => .error .noDigits
  | '+' :: _ | '-' :: _ => .error .sign
  | _ => readDigits base 0 cs

/-- The character that stands between `&#` and `;`. -/
def readCharacter (cs : List Char) : Except CharRefFault Char := do
  let code ← match cs with
    | 'x' :: hex => readNumber 16 hex
    | _ => readNumber 10 cs
  if code = 0 then .error .zero
  else if code.isValidChar then .ok (Char.ofNat code)
  else .error (.notACharacter code)

/-- The character that a named entity stands for. -/
def namedEntity? (name : List Char) : Option Char :=
  match String.ofList name with
  | "lt" => some '<'
  | "gt" => some '>'
  | "amp" => some '&'
  | "quot" => some '"'
  | "apos" => some '\''
  | _ => none

/-- What stands between a `&` and the next `;`, and what follows, if no other
`&` comes first. -/
def splitReference? : List Char → Option (List Char × List Char)
  | [] => none
  | '&' :: _ => none
  | ';' :: rest => some ([], rest)
  | c :: rest => (splitReference? rest).map fun (name, after) => (c :: name, after)

theorem length_of_splitReference? {cs name after : List Char}
    (h : splitReference? cs = some (name, after)) : after.length < cs.length := by
  fun_induction splitReference? cs generalizing name after with
  | case1 => simp at h
  | case2 => simp at h
  | case3 rest =>
    cases h
    exact Nat.lt_succ_self _
  | case4 c rest _ _ ih =>
    obtain ⟨_, hr, he⟩ := Option.map_eq_some_iff.1 h
    cases he
    exact Nat.lt_succ_of_lt (ih hr)

/-- The character that the reference `name` stands for, where the name begins
`start` bytes into the whole. -/
def readReference (start : Nat) (name : List Char) : Except ReferenceFault Char :=
  match name with
  | '#' :: number => (readCharacter number).mapError .character
  | _ =>
    match namedEntity? name with
    | some c => .ok c
    | none => .error (.unknownEntity start (start + Text.byteSize name) (String.ofList name))

/-- Replaces the references in a text that starts `offset` bytes into the
whole. -/
def resolveFrom (total : Nat) (offset : Nat) (cs : List Char) :
    Except ReferenceFault (List Char) :=
  match cs with
  | [] => .ok []
  | '&' :: rest =>
    match h : splitReference? rest with
    | none => .error (.unterminated offset total)
    | some (name, after) =>
      match readReference (offset + 1) name with
      | .error e => .error e
      | .ok c =>
        have := length_of_splitReference? h
        (resolveFrom total (offset + Text.byteSize name + 2) after).map (c :: ·)
  | c :: rest => (resolveFrom total (offset + c.utf8Size) rest).map (c :: ·)
termination_by cs.length
decreasing_by
  · exact Nat.lt_succ_of_lt this
  · exact Nat.lt_succ_self _

/-- Replaces the references in a text. -/
def resolve (cs : List Char) : Except ReferenceFault (List Char) :=
  resolveFrom (Text.byteSize cs) 0 cs

/-- Writes the characters of a text that markup reserves as entities. -/
def escapeText (s : String) : String :=
  String.join (s.toList.map fun
    | '<' => "&lt;"
    | '>' => "&gt;"
    | '&' => "&amp;"
    | c => c.toString)

/-- Writes the characters of an attribute value that markup reserves as
entities. -/
def escapeValue (s : String) : String :=
  String.join (s.toList.map fun
    | '<' => "&lt;"
    | '>' => "&gt;"
    | '&' => "&amp;"
    | '\'' => "&apos;"
    | '"' => "&quot;"
    | c => c.toString)

end LabelTemplate.Xml.Reference
