import LabelTemplate.Json.Reader
import LabelTemplate.Template.Environment
import LabelTemplate.Text.Quoted

/-!
# Run configurations

The settings of a run as a JSON file holds them: an object with known
members, or a list of their values in the order of `ConfigField.all`.  A
member that is missing keeps its default.  Faults have the place where the
reader stood when it met them; those of a member as a whole have the end of
the object that holds it.
-/

namespace LabelTemplate.Command

open JsonReader

/-- The settings that a configuration can hold. -/
inductive ConfigField where
  | template
  | sources
  | context
  | out
  | filename
  | keepComments
  | skipStructureCheck
  | noTemplateSource
  deriving DecidableEq, Repr

namespace ConfigField

def all : List ConfigField :=
  [template, sources, context, out, filename, keepComments, skipStructureCheck, noTemplateSource]

def name : ConfigField → String
  | template => "template"
  | sources => "sources"
  | context => "context"
  | out => "out"
  | filename => "filename"
  | keepComments => "keep_comments"
  | skipStructureCheck => "skip_structure_check"
  | noTemplateSource => "no_template_source"

def ofName? (s : String) : Option ConfigField := all.find? (·.name == s)

end ConfigField

structure RunConfig where
  template : Option String := none
  /-- The paths of each moniker, sorted by moniker. -/
  sources : List (String × List String) := []
  context : ContextMap := []
  out : Option String := none
  filename : Option String := none
  keepComments : Bool := false
  skipStructureCheck : Bool := false
  noTemplateSource : Bool := false

namespace RunConfig

/-! ## Values of a known type -/

/-- What a number is called in a message. -/
def describeNumber : JsonNumber → String
  | .integer n => "integer " ++ JsonFault.ticked (toString n)
  | .float x => "floating point " ++ JsonFault.ticked (JsonNumber.writeFloat x)

/-- The fault of a value of another type.  What has one part is read for the
message; of lists and objects only the type is told. -/
def refuse {α : Type} (expected : String) (c : Cursor) : Except JsonError α := do
  let wrong {β : Type} (found : String) (c : Cursor) : Except JsonError β :=
    c.fail (.wrongType found expected)
  match c.rest with
  | 'n' :: _ => wrong "null" (← readWord (c.skip 1) ['u', 'l', 'l'])
  | 't' :: _ => wrong "boolean `true`" (← readWord (c.skip 1) ['r', 'u', 'e'])
  | 'f' :: _ => wrong "boolean `false`" (← readWord (c.skip 1) ['a', 'l', 's', 'e'])
  | '"' :: _ =>
    let (s, c) ← readString c
    wrong ("string " ++ Text.quoted s) c
  | '[' :: _ => wrong "sequence" c
  | '\x7b' :: _ => wrong "map" c
  | '-' :: _ =>
    let (n, c) ← JsonNumber.read true (c.skip 1)
    wrong (describeNumber n) c
  | x :: _ =>
    if Number.isDigit x then
      let (n, c) ← JsonNumber.read false c
      wrong (describeNumber n) c
    else c.failAhead .expectedValue
  | [] => c.fail .unfinishedValue

/-- Reads a text. -/
def readText (expected : String) (c : Cursor) : Except JsonError (JsonRead String) :=
  let c := c.skipBlanks
  match c.rest with
  | '"' :: _ => readString c
  | _ => refuse expected c

/-- Reads a value that may also be null. -/
def readOptional {α : Type} (read : Cursor → Except JsonError (JsonRead α)) (c : Cursor) :
    Except JsonError (JsonRead (Option α)) := do
  let c := c.skipBlanks
  match c.rest with
  | 'n' :: _ => return (none, ← readWord (c.skip 1) ['u', 'l', 'l'])
  | _ =>
    let (v, c) ← read c
    return (some v, c)

def readFlag (c : Cursor) : Except JsonError (JsonRead Bool) := do
  let c := c.skipBlanks
  match c.rest with
  | 't' :: _ => return (true, ← readWord (c.skip 1) ['r', 'u', 'e'])
  | 'f' :: _ => return (false, ← readWord (c.skip 1) ['a', 'l', 's', 'e'])
  | _ => refuse "a boolean" c

/-- Reads an object with any members, sorted by their names. -/
def readMap {α : Type} (value : Cursor → Except JsonError (JsonRead α)) (c : Cursor) :
    Except JsonError (JsonRead (List (String × α))) :=
  let c := c.skipBlanks
  let member (m : List (String × α)) (name : String) (c : Cursor) :
      Except JsonError (JsonRead (List (String × α))) := do
    let (v, c) ← value (← readColon c)
    return (Text.insertByKey name v m, c)
  match c.rest with
  | '\x7b' :: _ => readMembers member (c.rest.length + 1) true [] (c.skip 1)
  | _ => refuse "a map" c

/-- The paths of a moniker: one text or a list of texts. -/
def pathsOf? : JsonValue → Option (List String)
  | .string s => some [s]
  | .array items => items.mapM fun
    | .string s => some s
    | _ => none
  | _ => none

/-- How deeply the values inside a member of the configuration can be
nested. -/
def innerDepth : Nat := depthLimit - 2

def readPaths (c : Cursor) : Except JsonError (JsonRead (List String)) := do
  let (v, c) ← readValue innerDepth c
  match pathsOf? v with
  | some paths => return (paths, c)
  | none => .error ⟨.noVariant "SourceEntry", objectEnd c⟩

/-! ## The whole configuration -/

/-- Reads the value of a setting. -/
def readField (r : RunConfig) (f : ConfigField) (c : Cursor) :
    Except JsonError (JsonRead RunConfig) := do
  let path := readOptional (readText "path string")
  match f with
  | .template => let (v, c) ← path c; return ({ r with template := v }, c)
  | .sources => let (v, c) ← readMap readPaths c; return ({ r with sources := v }, c)
  | .context => let (v, c) ← readMap (readValue innerDepth) c; return ({ r with context := v }, c)
  | .out => let (v, c) ← path c; return ({ r with out := v }, c)
  | .filename =>
    let (v, c) ← readOptional (readText "a string") c
    return ({ r with filename := v }, c)
  | .keepComments => let (v, c) ← readFlag c; return ({ r with keepComments := v }, c)
  | .skipStructureCheck => let (v, c) ← readFlag c; return ({ r with skipStructureCheck := v }, c)
  | .noTemplateSource => let (v, c) ← readFlag c; return ({ r with noTemplateSource := v }, c)

/-- Reads a named setting, which must not be among those that were seen. -/
def readMember (s : RunConfig × List ConfigField) (name : String) (c : Cursor) :
    Except JsonError (JsonRead (RunConfig × List ConfigField)) := do
  let (r, seen) := s
  let some f := ConfigField.ofName? name
    | .error ⟨.unknownMember name (ConfigField.all.map (·.name)), objectEnd c⟩
  if seen.contains f then .error ⟨.duplicateMember name, objectEnd c⟩
  else
    let (r, c) ← readField r f (← readColon c)
    return ((r, f :: seen), c)

/-- Reads the first settings from a list. -/
def readListed (first : Bool) (r : RunConfig) :
    List ConfigField → Cursor → Except JsonError (JsonRead RunConfig)
  | [], c => return (r, ← closeList c)
  | f :: fs, c => do
    match ← readNextItem (readField r f) first c with
    | (none, c) => return (r, ← closeList c)
    | (some r, c) => readListed false r fs c

/-- Reads a text as a configuration. -/
def read (text : String) : Except JsonError RunConfig := do
  let c := (Cursor.ofText text).skipBlanks
  let (r, c) ← match c.rest with
    | '[' :: _ => readListed true {} ConfigField.all (c.skip 1)
    | '\x7b' :: _ => do
      let ((r, _), c) ← readMembers readMember (c.rest.length + 1) true ({}, []) (c.skip 1)
      pure (r, c)
    | _ => refuse "struct RunConfig" c
  expectEnd c
  return r

/-- Takes relative paths as relative to a directory. -/
def rebase (r : RunConfig) (directory : String) : RunConfig :=
  let join := Path.join directory
  { r with
    template := r.template.map join
    sources := r.sources.map fun (moniker, paths) => (moniker, paths.map join)
    out := r.out.map join }

end RunConfig

end LabelTemplate.Command
