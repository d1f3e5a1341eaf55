import LabelTemplate.Template.Population
import LabelTemplate.Template.Walk

/-!
# From a resolved template to a label

Deferred fills are written, optional elements without content are pruned, and
then the label is checked: every leaf must have content, and apart from what
was pruned the structure must be that of the template after the walk.
-/

namespace LabelTemplate

open Xml

/-! ## Comparing structures -/

/-- The elements of one tree, in document order, whose paths lead nowhere in
another. -/
def missingFrom (d other : Document) : List PathChange :=
  (d.descendantElements d.root).filterMap fun n =>
    let path := d.elementPath n
    if (other.find? path).isSome then none
    else some ⟨((d.name? n).map (·.clark)).getD "", ElementPath.display path⟩

/-- The elements that only the current tree has, and those that only the
snapshot has. -/
def structureDiff (current snapshot : Document) : List PathChange × List PathChange :=
  (missingFrom current snapshot, missingFrom snapshot current)

/-- Writes the names of changed elements with prefixes. -/
def PathChange.withPrefixes (ns : XPath.Namespaces) (c : PathChange) : PathChange :=
  ⟨ClarkNames.withPrefixes ns c.tag, ClarkNames.withPrefixes ns c.path⟩

/-! ## Steps of the export -/

/-- A template after the walk; the snapshot is what its structure must be. -/
structure Exporter where
  engine : Engine
  snapshot : Option Document

/-- Writes one deferred fill. -/
def Engine.resolveFill (e : Engine) (item : DeferredItem) : Except Error Engine := do
  match ← item.state.evalFill e.env with
  | none => return e
  | some v => return e.setTemplate (← e.template.applyFill item.node v)

/-- The leaves of a subtree: its elements without element children. -/
def leaves (d : Document) (n : NodeId) : List NodeId :=
  (d.descendantElements n).filter (!d.hasElementChildren ·)

namespace Exporter

def document (x : Exporter) : Document := x.engine.template

/-- Writes all deferred fills. -/
def resolveFills (x : Exporter) : Except Error Exporter := do
  let (items, deferred) := x.engine.deferred.takeFills
  let engine ← items.foldlM Engine.resolveFill { x.engine with deferred }
  return { x with engine }

/-- Detaches the element at a path, if there is one. -/
def detachAt (path : ElementPath) (d : Document) : Document :=
  match d.find? path with
  | some twin => d.detach twin
  | none => d

/-- Detaches an element and its counterpart in the snapshot. -/
def drop (x : Exporter) (n : NodeId) : Exporter :=
  let path := x.document.elementPath n
  { engine := x.engine.mapTemplate (·.detach n)
    snapshot := x.snapshot.map (detachAt path) }

/-- Drops an element that turns out not to be required, unless all its leaves
are populated. -/
def pruneItem (x : Exporter) (item : DeferredItem) : Except Error Exporter := do
  let (required, _) ← item.state.evalRequired x.engine.env
  let d := x.document
  let hasEmptyLeaf := (leaves d item.node).any (!d.isPopulated ·)
  if !required && hasEmptyLeaf && d.isAttached item.node then return x.drop item.node
  else return x

/-- Drops the optional elements without content, innermost first. -/
def prune (x : Exporter) : Except Error Exporter := do
  let (items, deferred) := x.engine.deferred.takeRequireds
  items.foldlM pruneItem { x with engine := { x.engine with deferred } }

/-- Every leaf must have content. -/
def checkPopulation (x : Exporter) : Except Error Unit :=
  let d := x.document
  match (leaves d d.root).find? (!d.isPopulated ·) with
  | some n => .error (.node .unpopulatedLeaf (d.location n))
  | none => .ok ()

/-- The structure must be that of the snapshot, if one was taken. -/
def checkStructure (x : Exporter) : Except Error Unit :=
  match x.snapshot with
  | none => .ok ()
  | some snapshot =>
    let (added, removed) := structureDiff x.document snapshot
    if added.isEmpty && removed.isEmpty then .ok ()
    else
      let shown := List.map (PathChange.withPrefixes x.engine.env.templateNamespaces)
      .error (.node (.structureAltered (shown added) (shown removed)) {})

/-- All steps before the label is written. -/
def finish (x : Exporter) : Except Error Exporter := do
  let x ← x.resolveFills
  let x ← x.prune
  x.checkPopulation
  x.checkStructure
  return x

/-- The name of a label's file: the last part of its identifier. -/
def filename (x : Exporter) (identifier : String) : Except Error String := do
  let env := x.engine.env
  let nothing : Except Error String := .error (.node (.noFilename identifier) {})
  match ← env.evaluateTemplate identifier env.template.root with
  | .nodes [] => nothing
  | v =>
    let text := Text.trim (v.toText env.docs)
    if text.isEmpty then nothing
    else return ((Text.split ':' text).getLast?.getD "") ++ ".xml"

/-- Writes the label into a directory and gives its path; without a file
name the name is derived from the identifier. -/
def write (x : Exporter) (directory : String) (name : Option String) (identifier : String) :
    FileTask Error String := do
  let x := { x with engine := x.engine.mapTemplate (·.cleanupNamespaces) }
  let name ← match name with
    | some name => pure name
    | none => MonadExcept.ofExcept (x.filename identifier)
  EStateM.adaptExcept .io (Files.makeDirectories directory)
  let path := Path.join directory name
  x.document.writeTo path
  return path

end Exporter

end LabelTemplate
