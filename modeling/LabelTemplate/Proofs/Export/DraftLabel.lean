import LabelTemplate.Proofs.Walk.Drafts
import LabelTemplate.Template.Population

/-!
# The label of a draft

What comes of a draft when its decisions are made (`Draft.label`): the fills are
written, then the elements that are not required and have a leaf without content
go, innermost first, and what is left must be populated.
-/

namespace LabelTemplate

open Xml
open TreeWalk (quiet)

/-- The element has content. -/
def Xml.Element.isPopulated (e : Element) : Bool :=
  e.text.any (!Text.isBlankText ·) ||
    e.attribute? (some schemaInstanceNamespace) "nil" == some "true"

/-- Some leaf of the forest has no content. -/
def Xml.Forest.hasEmptyLeaf : Forest → Bool
  | .nil => false
  | .node kind _ kids rest =>
    (!kids.hasElement && kind.element?.any (!·.isPopulated)) || kids.hasEmptyLeaf ||
      rest.hasEmptyLeaf

namespace Draft

/-- Writes a fill into a node. -/
def write (kind : NodeKind) : Option (Result (Option FillValue)) → Result NodeKind
  | none => .ok kind
  | some value => do
    match ← value with
    | none => return kind
    | some v =>
      let text ← quiet (v.applyTo ((kind.element?.bind (·.text)).getD ""))
      return kind.mapElement ({ · with text := some text })

/-- Writes all fills. -/
def filled : Draft → Result Draft
  | nil => .ok nil
  | node kind line pending kids rest => do
    let kind ← write kind pending.fill
    let kids ← kids.filled
    let rest ← rest.filled
    return node kind line { pending with fill := none } kids rest

/-- Leaves out what is not required and has a leaf without content, innermost
first. -/
def pruned : Draft → Result Forest
  | nil => .ok .nil
  | node kind line pending kids rest => do
    let kids ← kids.pruned
    let required ← pending.required.getD (.ok true)
    let rest ← rest.pruned
    if !required && (Forest.node kind line kids .nil).hasEmptyLeaf then return rest
    else return .node kind line kids rest

/-- The root stays, whether it is required or not. -/
def prunedRoot : Draft → Result Forest
  | nil => .ok .nil
  | node kind line pending kids _ => do
    let kids ← kids.pruned
    let _ ← pending.required.getD (.ok true)
    return .node kind line kids .nil

/-- What comes of the draft of a whole template. -/
def label (δ : Draft) : Result Forest := do
  let δ ← δ.filled
  let f ← δ.prunedRoot
  if f.hasEmptyLeaf then .error .failed else return f

theorem filled_append (δ ε : Draft) :
    (δ ++ ε).filled = do
      let δ ← δ.filled
      let ε ← ε.filled
      return δ ++ ε := by
  induction δ with
  | nil => exact (bind_pure _).symm
  | node kind line pending kids rest _ ih =>
    simp only [node_append, filled, ih, bind_assoc, pure_bind]

theorem pruned_append (δ ε : Draft) :
    (δ ++ ε).pruned = do
      let f ← δ.pruned
      let g ← ε.pruned
      return f ++ g := by
  induction δ with
  | nil => exact (bind_pure _).symm
  | node kind line pending kids rest _ ih =>
    simp only [node_append, pruned, ih, bind_assoc]
    refine bind_congr fun f => bind_congr fun required => bind_congr fun g => ?_
    split <;> simp only [pure_bind, Forest.node_append]

end Draft

end LabelTemplate
