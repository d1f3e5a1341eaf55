import LabelTemplate.Xml.Markup

/-!
# Start tags

The name and the attributes of a start tag.  Offsets are counted in bytes
from the start of the tag's content, just after its `<`.

`readKey` and `readValue` read one attribute as written; `readFrom` reads them
all, in order, resolves the references in their values and refuses a name
that was written before in the same tag.
-/

namespace LabelTemplate.Xml.StartTag

/-- An attribute as written, with the offset of its name. -/
structure RawAttribute where
  offset : Nat
  key : List Char
  value : List Char
  deriving DecidableEq, Repr

def skipBlanks (cs : List Char) : List Char := cs.dropWhile isMarkupBlank

theorem length_skipBlanks_le (cs : List Char) : (skipBlanks cs).length ≤ cs.length :=
  (List.dropWhile_sublist _).length_le

/-- True for the characters that end an attribute name. -/
def endsKey (c : Char) : Bool := c == '=' || isMarkupBlank c

/-- Reads the name and the `=` of the next attribute of a tag of `total`
bytes, or nothing if only blanks are left. -/
def readKey (total : Nat) (cs : List Char) :
    Except AttributeFault (Option (Nat × List Char × List Char)) :=
  match skipBlanks cs with
  | [] => .ok none
  | first :: rest =>
    let key := first :: rest.takeWhile (!endsKey ·)
    match skipBlanks (rest.dropWhile (!endsKey ·)) with
    | '=' :: after => .ok (some (total - Text.byteSize (first :: rest), key, after))
    | other => .error (.missingEquals (total - Text.byteSize other))

/-- Reads a quoted value. -/
def readValue (total : Nat) (cs : List Char) :
    Except AttributeFault (List Char × List Char) :=
  match skipBlanks cs with
  | [] => .error (.missingValue total)
  | quote :: rest =>
    if quote = '"' ∨ quote = '\'' then
      match rest.dropWhile (· != quote) with
      | [] => .error (.missingQuote total quote)
      | _ :: after => .ok (rest.takeWhile (· != quote), after)
    else .error (.unquotedValue (total - Text.byteSize (quote :: rest)))

theorem length_of_readKey {total offset : Nat} {cs key after : List Char}
    (h : readKey total cs = .ok (some (offset, key, after))) : after.length < cs.length := by
  have hskip := length_skipBlanks_le cs
  unfold readKey at h
  split at h
  · simp at h
  · rename_i first rest heq
    rw [heq] at hskip
    have h1 : (rest.dropWhile (!endsKey ·)).length ≤ rest.length :=
      (List.dropWhile_sublist _).length_le
    have h2 := length_skipBlanks_le (rest.dropWhile (!endsKey ·))
    simp only at h
    split at h
    · rename_i heq2
      rw [heq2] at h2
      simp only [Except.ok.injEq, Option.some.injEq, Prod.mk.injEq] at h
      obtain ⟨-, -, rfl⟩ := h
      simp only [List.length_cons] at hskip h2
      omega
    · simp at h

theorem length_of_readValue {total : Nat} {cs value after : List Char}
    (h : readValue total cs = .ok (value, after)) : after.length < cs.length := by
  have hskip := length_skipBlanks_le cs
  unfold readValue at h
  split at h
  · simp at h
  · rename_i quote rest heq
    rw [heq] at hskip
    have h1 : (rest.dropWhile (· != quote)).length ≤ rest.length :=
      (List.dropWhile_sublist _).length_le
    split at h
    · split at h
      · simp at h
      · rename_i heq2
        rw [heq2] at h1
        simp only [Except.ok.injEq, Prod.mk.injEq] at h
        obtain ⟨-, rfl⟩ := h
        simp only [List.length_cons] at hskip h1
        omega
    · simp at h

/-- Reads the attributes of a tag of `total` bytes; `seen` holds the names
read before with their offsets. -/
def readFrom (total : Nat) (seen : List (List Char × Nat)) (cs : List Char) :
    Except ReadFault (List (String × String)) :=
  match hk : readKey total cs with
  | .error fault => .error (.badAttribute fault)
  | .ok none => .ok []
  | .ok (some (offset, key, afterKey)) =>
    match seen.find? (·.1 = key) with
    | some (_, first) => .error (.badAttribute (.duplicate offset first))
    | none =>
      match hv : readValue total afterKey with
      | .error fault => .error (.badAttribute fault)
      | .ok (value, after) =>
        match Reference.resolve value with
        | .error fault => .error (.badReference fault)
        | .ok value =>
          have := length_of_readKey hk
          have := length_of_readValue hv
          (readFrom total (seen ++ [(key, offset)]) after).map
            ((String.ofList key, String.ofList value) :: ·)
termination_by cs.length
decreasing_by omega

/-- The attributes of a start tag in order, namespace declarations included. -/
def attributes (content : List Char) : Except ReadFault (List (String × String)) :=
  readFrom (Text.byteSize content) [] (content.dropWhile (!isMarkupBlank ·))

/-- The name of a start tag. -/
def name (content : List Char) : String :=
  String.ofList (Markup.tagName content)

end LabelTemplate.Xml.StartTag
