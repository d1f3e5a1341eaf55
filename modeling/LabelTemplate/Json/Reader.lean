import LabelTemplate.Json.Number

/-!
# Reading JSON

Values are read from a cursor and leave the cursor behind them.  Lists and
objects are read by loops that take the reader of their items as an argument,
so that they also serve for texts of which the shape is known.  Nested values
are read down to a fixed depth.
-/

namespace LabelTemplate

/-- What a reader gives: a value and where it ends. -/
abbrev JsonRead (α : Type) := α × Cursor

namespace JsonReader

/-! ## Words and strings -/

/-- Reads the rest of a word whose first letter was seen. -/
def readWord (c : Cursor) : List Char → Except JsonError Cursor
  | [] => .ok c
  | w :: ws =>
    match c.rest with
    | [] => c.fail .unfinishedValue
    | x :: _ => if x = w then readWord (c.skip 1) ws else c.failAhead .expectedWord

def hexValue? (c : Char) : Option Nat :=
  if '0' ≤ c ∧ c ≤ '9' then some (c.toNat - '0'.toNat)
  else if 'a' ≤ c ∧ c ≤ 'f' then some (c.toNat - 'a'.toNat + 10)
  else if 'A' ≤ c ∧ c ≤ 'F' then some (c.toNat - 'A'.toNat + 10)
  else none

/-- Reads four hexadecimal digits. -/
def readHex (c : Cursor) : Except JsonError (JsonRead Nat) :=
  if Text.byteSize c.rest < 4 then (c.skip c.rest.length).fail .unfinishedString
  else
    match (c.rest.take 4).mapM hexValue? with
    | some digits => .ok (digits.foldl (fun n d => 16 * n + d) 0, c.skip 4)
    | none => .error ⟨.invalidEscape, Cursor.placeAfter 4 c.place c.rest⟩

def isLeadingSurrogate (n : Nat) : Bool := 0xd800 ≤ n && n ≤ 0xdbff

def isTrailingSurrogate (n : Nat) : Bool := 0xdc00 ≤ n && n ≤ 0xdfff

/-- Expects a character of an escape that must follow another one. -/
def expectPaired (c : Cursor) (wanted : Char) : Except JsonError Cursor :=
  match c.rest with
  | [] => c.fail .unfinishedString
  | x :: _ => if x = wanted then .ok (c.skip 1) else c.failAhead .unfinishedPair

/-- Reads a character that is written with its code, or with two codes if one
does not suffice. -/
def readCode (c : Cursor) : Except JsonError (JsonRead Char) := do
  let (n, c) ← readHex c
  if isTrailingSurrogate n then c.fail .loneSurrogate
  else if !isLeadingSurrogate n then return (Char.ofNat n, c)
  else
    let c ← expectPaired c '\\'
    let c ← expectPaired c 'u'
    let (m, c) ← readHex c
    if isTrailingSurrogate m then
      return (Char.ofNat ((n - 0xd800) * 0x400 + (m - 0xdc00) + 0x10000), c)
    else c.fail .loneSurrogate

/-- The character that one letter after a backslash stands for. -/
def escaped? : Char → Option Char
  | '"' => some '"'
  | '\\' => some '\\'
  | '/' => some '/'
  | 'b' => some '\x08'
  | 'f' => some '\x0c'
  | 'n' => some '\n'
  | 'r' => some '\r'
  | 't' => some '\t'
  | _ => none

/-- Reads a character after a backslash. -/
def readEscape (c : Cursor) : Except JsonError (JsonRead Char) :=
  match c.rest with
  | [] => c.fail .unfinishedString
  | 'u' :: _ => readCode (c.skip 1)
  | x :: _ =>
    match escaped? x with
    | some y => .ok (y, c.skip 1)
    | none => c.failAhead .invalidEscape

/-- Reads what is left of a string up to its closing quote, at most `fuel`
characters, after those in `passed`, which are in reverse. -/
def readCharacters : (fuel : Nat) → (passed : List Char) → Cursor →
    Except JsonError (JsonRead String)
  | 0, _, c => c.fail .unfinishedString
  | fuel + 1, passed, c =>
    match c.rest with
    | [] => c.fail .unfinishedString
    | '"' :: _ => .ok (String.ofList passed.reverse, c.skip 1)
    | '\\' :: _ => do
      let (x, c) ← readEscape (c.skip 1)
      readCharacters fuel (x :: passed) c
    | x :: _ =>
      if x.toNat < 0x20 then c.failAhead .controlCharacter
      else readCharacters fuel (x :: passed) (c.skip 1)

/-- Reads a string from its opening quote on. -/
def readString (c : Cursor) : Except JsonError (JsonRead String) :=
  readCharacters (c.rest.length + 1) [] (c.skip 1)

/-! ## Lists and objects -/

/-- Reads the next item of a list after its bracket or an item; nothing at the
end of the list, which is left to be closed. -/
def readNextItem {α : Type} (item : Cursor → Except JsonError (JsonRead α)) (first : Bool)
    (c : Cursor) : Except JsonError (JsonRead (Option α)) := do
  let c := c.skipBlanks
  let some? (c : Cursor) : Except JsonError (JsonRead (Option α)) := do
    let (v, c) ← item c
    return (some v, c)
  match c.rest with
  | [] => c.fail .unfinishedList
  | ']' :: _ => return (none, c)
  | x :: _ =>
    if first then some? c
    else if x = ',' then
      let c := (c.skip 1).skipBlanks
      match c.rest with
      | [] => c.fail .unfinishedValue
      | ']' :: _ => c.failAhead .trailingComma
      | _ => some? c
    else c.failAhead .expectedListEnd

/-- Closes a list. -/
def closeList (c : Cursor) : Except JsonError Cursor :=
  let c := c.skipBlanks
  match c.rest with
  | [] => c.fail .unfinishedList
  | ']' :: _ => .ok (c.skip 1)
  | ',' :: _ =>
    let c := (c.skip 1).skipBlanks
    match c.rest with
    | ']' :: _ => c.failAhead .trailingComma
    | _ => c.failAhead .trailingText
  | _ => c.failAhead .trailingText

/-- Reads all items of a list and closes it. -/
def readItems {α : Type} (item : Cursor → Except JsonError (JsonRead α)) :
    (fuel : Nat) → (first : Bool) → Cursor → Except JsonError (JsonRead (List α))
  | 0, _, c => c.fail .unfinishedList
  | fuel + 1, first, c => do
    match ← readNextItem item first c with
    | (none, c) => return ([], ← closeList c)
    | (some v, c) =>
      let (vs, c) ← readItems item fuel false c
      return (v :: vs, c)

/-- Reads the name of the next member of an object; nothing at the end of the
object, which is left to be closed. -/
def readNextName (first : Bool) (c : Cursor) : Except JsonError (JsonRead (Option String)) := do
  let c := c.skipBlanks
  let some? (c : Cursor) : Except JsonError (JsonRead (Option String)) := do
    let (name, c) ← readString c
    return (some name, c)
  match c.rest with
  | [] => c.fail .unfinishedObject
  | '\x7d' :: _ => return (none, c)
  | x :: _ =>
    if first then
      if x = '"' then some? c else c.failAhead .keyNotString
    else if x = ',' then
      let c := (c.skip 1).skipBlanks
      match c.rest with
      | [] => c.fail .unfinishedValue
      | '"' :: _ => some? c
      | '\x7d' :: _ => c.failAhead .trailingComma
      | _ => c.failAhead .keyNotString
    else c.failAhead .expectedObjectEnd

/-- Passes the colon after a name. -/
def readColon (c : Cursor) : Except JsonError Cursor :=
  let c := c.skipBlanks
  match c.rest with
  | [] => c.fail .unfinishedObject
  | ':' :: _ => .ok (c.skip 1)
  | _ => c.failAhead .expectedColon

/-- Closes an object. -/
def closeObject (c : Cursor) : Except JsonError Cursor :=
  let c := c.skipBlanks
  match c.rest with
  | [] => c.fail .unfinishedObject
  | '\x7d' :: _ => .ok (c.skip 1)
  | ',' :: _ => c.failAhead .trailingComma
  | _ => c.failAhead .trailingText

/-- Where an object ends as far as it can be told: a fault of a member as a
whole has this place. -/
def objectEnd (c : Cursor) : JsonPlace :=
  let c := c.skipBlanks
  match c.rest with
  | '\x7d' :: _ => (c.skip 1).place
  | _ => c.place

/-- Reads all members of an object, each with the state of those before it,
and closes the object. -/
def readMembers {σ : Type} (member : σ → String → Cursor → Except JsonError (JsonRead σ)) :
    (fuel : Nat) → (first : Bool) → σ → Cursor → Except JsonError (JsonRead σ)
  | 0, _, _, c => c.fail .unfinishedObject
  | fuel + 1, first, s, c => do
    match ← readNextName first c with
    | (none, c) => return (s, ← closeObject c)
    | (some name, c) =>
      let (s, c) ← member s name c
      readMembers member fuel false s c

/-! ## Values -/

/-- How deeply lists and objects can be nested. -/
def depthLimit : Nat := 127

/-- Reads a value of at most the given depth. -/
def readValue : (depth : Nat) → Cursor → Except JsonError (JsonRead JsonValue)
  | depth, c =>
    let c := c.skipBlanks
    match c.rest with
    | [] => c.fail .unfinishedValue
    | 'n' :: _ => do return (.null, ← readWord (c.skip 1) ['u', 'l', 'l'])
    | 't' :: _ => do return (.bool true, ← readWord (c.skip 1) ['r', 'u', 'e'])
    | 'f' :: _ => do return (.bool false, ← readWord (c.skip 1) ['a', 'l', 's', 'e'])
    | '"' :: _ => do
      let (s, c) ← readString c
      return (.string s, c)
    | '[' :: _ =>
      match depth with
      | 0 => c.failAhead .tooDeep
      | depth + 1 => do
        let (items, c) ← readItems (readValue depth) (c.rest.length + 1) true (c.skip 1)
        return (.array items, c)
    | '\x7b' :: _ =>
      match depth with
      | 0 => c.failAhead .tooDeep
      | depth + 1 => do
        let member (members : List (String × JsonValue)) (name : String) (c : Cursor) :
            Except JsonError (JsonRead (List (String × JsonValue))) := do
          let (v, c) ← readValue depth (← readColon c)
          return (Text.insertByKey name v members, c)
        let (members, c) ← readMembers member (c.rest.length + 1) true [] (c.skip 1)
        return (.object members, c)
    | '-' :: _ => do
      let (n, c) ← JsonNumber.read true (c.skip 1)
      return (.number n, c)
    | x :: _ =>
      if Number.isDigit x then do
        let (n, c) ← JsonNumber.read false c
        return (.number n, c)
      else c.failAhead .expectedValue

/-- Nothing but blanks may follow a value. -/
def expectEnd (c : Cursor) : Except JsonError Unit :=
  let c := c.skipBlanks
  if c.rest.isEmpty then .ok () else c.failAhead .trailingText

end JsonReader

/-- Reads a text as one JSON value. -/
def JsonValue.read (s : String) : Except JsonError JsonValue := do
  let (v, c) ← JsonReader.readValue JsonReader.depthLimit (.ofText s)
  JsonReader.expectEnd c
  return v

end LabelTemplate
