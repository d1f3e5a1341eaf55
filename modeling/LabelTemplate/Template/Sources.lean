import LabelTemplate.Files
import LabelTemplate.Text.Order
import LabelTemplate.XPath.Value

/-!
# Sources

The documents of a run and the monikers they are known by.  The template has
key 0; every source document gets the next key when it is loaded.  A group
is a non-empty list of distinct documents, of which the first is the primary
one.

Loading parses each path once: two inputs with the same path share a key,
while a document given as such never does.
-/

namespace LabelTemplate

open Xml XPath

/-- The key of the template. -/
def templateKey : DocKey := 0

/-- The moniker under which the template itself is a source. -/
def templateMoniker : String := "template"

/-! ## Groups -/

structure SourceGroup where
  primary : Option DocKey := none
  secondary : List DocKey := []
  deriving DecidableEq, Repr

namespace SourceGroup

/-- The group of no documents, which every element starts from. -/
def empty : SourceGroup := {}

def single (key : DocKey) : SourceGroup := { primary := some key }

/-- The primary document, then the secondary ones in order. -/
def members (g : SourceGroup) : List DocKey := g.primary.toList ++ g.secondary

def isEmpty (g : SourceGroup) : Bool := g.primary.isNone

/-- The group of a list of documents, which must be distinct and not none. -/
def ofMembers : List DocKey → Except SourceFault SourceGroup
  | [] => .error .emptyGroup
  | key :: keys =>
    if (key :: keys).eraseDups.length = (key :: keys).length then
      .ok { primary := some key, secondary := keys }
    else .error .duplicateDocuments

end SourceGroup

/-! ## Inputs -/

/-- A document given as a file to read or as such. -/
inductive SourceInput where
  | path (p : String)
  | document (d : Document)
  deriving Repr

/-- The inputs that one moniker stands for. -/
structure SourceSpec where
  moniker : String
  inputs : List SourceInput
  deriving Repr

/-! ## The source map -/

/-- Groups by moniker. -/
abbrev SourceMap := List (String × SourceGroup)

namespace SourceMap

def group? (m : SourceMap) (moniker : String) : Option SourceGroup := m.lookup moniker

/-- Binds a moniker, replacing an earlier binding. -/
def bind (m : SourceMap) (moniker : String) (g : SourceGroup) : SourceMap :=
  (moniker, g) :: m.filter (·.1 != moniker)

/-- The monikers in order. -/
def monikers (m : SourceMap) : List String := Text.sort (m.map (·.1))

end SourceMap

/-- The documents loaded so far and the keys of the paths among them. -/
structure Loaded where
  docs : Documents
  paths : List (PathKey × DocKey) := []

namespace Loaded

def add (l : Loaded) (d : Document) : DocKey × Loaded :=
  (l.docs.size, { l with docs := l.docs.push d })

/-- Loads one input, unless its path is known. -/
def load (fs : Files) (l : Loaded) : SourceInput → Except Error (DocKey × Loaded)
  | .document d => .ok (l.add d)
  | .path p =>
    match l.paths.lookup (PathKey.of p) with
    | some key => .ok (key, l)
    | none => do
      let (key, l) := l.add (← Document.ofFile fs p)
      return (key, { l with paths := (PathKey.of p, key) :: l.paths })

/-- Loads a list of inputs. -/
def loadAll (fs : Files) : Loaded → List SourceInput → Except Error (List DocKey × Loaded)
  | l, [] => .ok ([], l)
  | l, input :: inputs => do
    let (key, l) ← l.load fs input
    let (keys, l) ← loadAll fs l inputs
    return (key :: keys, l)

/-- Loads the inputs of a moniker and binds it to their group. -/
def bindSpec (fs : Files) (state : SourceMap × Loaded) (spec : SourceSpec) :
    Except Error (SourceMap × Loaded) := do
  let (keys, l) ← state.2.loadAll fs spec.inputs
  let g ← (SourceGroup.ofMembers keys).mapError fun fault =>
    .sources (.inGroup spec.moniker fault)
  return (state.1.bind spec.moniker g, l)

end Loaded

/-- Loads all sources beside a template and builds their map.  The template
itself is bound only if asked for, and then its moniker must be free. -/
def SourceMap.build (fs : Files) (template : Document) (specs : List SourceSpec)
    (includeTemplate : Bool) : Except Error (SourceMap × Documents) := do
  let (map, l) ← specs.foldlM (Loaded.bindSpec fs) ([], { docs := #[template] })
  if includeTemplate then
    if (map.group? templateMoniker).isSome then
      throw (.sources (.monikerTaken templateMoniker))
    return (map.bind templateMoniker (.single templateKey), l.docs)
  return (map, l.docs)

end LabelTemplate
