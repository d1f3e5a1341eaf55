import LabelTemplate.XPath.Expr
import LabelTemplate.XPath.Value

/-!
# Axes and document order

The nodes along an axis come in proximity order: nearest first, which is
document order on forward axes and its reverse on the others.  In document
order the document node comes first; an element is followed by its
attributes, its text and its children.
-/

namespace LabelTemplate.XPath

open Xml

/-! ## Nodes along an axis -/

/-- The handle of an element or comment of the arena. -/
def treeNode (d : Document) (key : DocKey) (n : NodeId) : Handle :=
  ⟨key, if d.isComment n then .comment n else .element n⟩

def childNodes (d : Document) (h : Handle) : List Handle :=
  match h.node with
  | .document => [⟨h.doc, .element d.root⟩]
  | .element id =>
    let text := if (d.text? id).any (!·.isEmpty) then [⟨h.doc, .text id⟩] else []
    text ++ (d.children id).map (treeNode d h.doc)
  | _ => []

def parentNode? (d : Document) (h : Handle) : Option Handle :=
  match h.node with
  | .document => none
  | .element id | .comment id =>
    if id = d.root then some ⟨h.doc, .document⟩
    else (d.parent? id).map fun p => ⟨h.doc, .element p⟩
  | .attribute id _ | .text id => some ⟨h.doc, .element id⟩

/-- More levels than a document has, from the document node down to texts. -/
def levels (d : Document) : Nat := d.size + 2

/-- The nodes of at most `fuel` levels below a node. -/
def nodesBelow (d : Document) : (fuel : Nat) → Handle → List Handle
  | 0, _ => []
  | fuel + 1, h => (childNodes d h).flatMap fun c => c :: nodesBelow d fuel c

/-- The nodes of at most `fuel` levels above a node, nearest first. -/
def nodesAbove (d : Document) : (fuel : Nat) → Handle → List Handle
  | 0, _ => []
  | fuel + 1, h =>
    match parentNode? d h with
    | some p => p :: nodesAbove d fuel p
    | none => []

/-- The other children of the parent, before or after a node, nearest
first. -/
def siblings (d : Document) (h : Handle) (following : Bool) : List Handle :=
  match h.node with
  | .element id | .comment id =>
    match d.parent? id, d.indexInParent? id with
    | some p, some i =>
      let found :=
        if following then (d.children p).drop (i + 1) else ((d.children p).take i).reverse
      found.map (treeNode d h.doc)
    | _, _ => []
  | _ => []

def attributeNodes (d : Document) (h : Handle) : List Handle :=
  match h.node with
  | .element id => (List.range (d.attributes id).length).map fun i => ⟨h.doc, .attribute id i⟩
  | _ => []

/-- The nodes along an axis in proximity order. -/
def axisNodes (d : Document) (h : Handle) : Axis → List Handle
  | .child => childNodes d h
  | .descendant => nodesBelow d (levels d) h
  | .descendantOrSelf => h :: nodesBelow d (levels d) h
  | .parent => (parentNode? d h).toList
  | .ancestor => nodesAbove d (levels d) h
  | .ancestorOrSelf => h :: nodesAbove d (levels d) h
  | .followingSibling => siblings d h true
  | .precedingSibling => siblings d h false
  | .attribute => attributeNodes d h
  | .self => [h]

/-! ## Document order -/

/-- The place of a node: its document, the rank of its element, its kind and
its number.  Nodes of detached elements come last. -/
structure OrderKey where
  doc : Nat
  rank : Nat
  kind : Nat
  index : Nat
  deriving DecidableEq, Repr

def OrderKey.toList (k : OrderKey) : List Nat := [k.doc, k.rank, k.kind, k.index]

/-- `a` does not come after `b`. -/
def OrderKey.le (a b : OrderKey) : Bool :=
  a.doc < b.doc || a.doc == b.doc &&
    (a.rank < b.rank || a.rank == b.rank &&
      (a.kind < b.kind || a.kind == b.kind && a.index ≤ b.index))

/-- The place of a node, given the preorder ranks of its document. -/
def orderKey (ranks : Array (Option Nat)) (h : Handle) : OrderKey :=
  let rank (id : NodeId) : Nat :=
    match ranks.getD id none with
    | some r => r + 1
    | none => Number.wordMax
  match h.node with
  | .document => ⟨h.doc, 0, 0, 0⟩
  | .element id | .comment id => ⟨h.doc, rank id, 0, 0⟩
  | .attribute id i => ⟨h.doc, rank id, 1, i⟩
  | .text id => ⟨h.doc, rank id, 2, 0⟩

/-- The preorder ranks of every document that one of the nodes is in. -/
def ranksFor (docs : Documents) (hs : List Handle) : List (DocKey × Array (Option Nat)) :=
  (hs.map (·.doc)).eraseDups.map fun key =>
    (key, match docs[key]? with
      | some d => d.documentOrder
      | none => #[])

/-- One of each node, in document order; a single node stays as it is.  Nodes
of one place, which are the same node unless they are detached, stand together
after sorting and are told apart there. -/
def inDocumentOrder (docs : Documents) (hs : List Handle) : List Handle :=
  if hs.length < 2 then hs
  else
    let ranks := ranksFor docs hs
    let keyed := hs.map fun h => (orderKey ((ranks.lookup h.doc).getD #[]) h, h)
    let places := (keyed.mergeSort fun a b => a.1.le b.1).splitBy fun a b => a.1 == b.1
    places.flatMap fun place => (place.map (·.2)).eraseDups

end LabelTemplate.XPath
