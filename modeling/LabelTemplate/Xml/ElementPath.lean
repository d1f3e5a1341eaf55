import LabelTemplate.Xml.Document
import LabelTemplate.Text.Order

/-!
# Element paths

An element path names elements by the way from the root: one step per
element, each with its expanded name and, where the parent has several
children of that name, the number of the child among them.

`elementPath` gives the path of an element and `findAll` the elements at a
path.  A path without numbers can name several elements.
-/

namespace LabelTemplate.Xml

structure PathSegment where
  namespaceUri : Option String
  localName : String
  /-- The number among the siblings of the same name, counted from 1. -/
  index : Option Nat := none
  deriving DecidableEq, Repr, Inhabited

abbrev ElementPath := List PathSegment

def PathSegment.display (s : PathSegment) : String :=
  let uri := match s.namespaceUri with
    | some uri => "\x7b" ++ uri ++ "\x7d"
    | none => ""
  let index := match s.index with
    | some i => "[" ++ toString i ++ "]"
    | none => ""
  uri ++ s.localName ++ index

/-- The path as a text; the path of the root is a dot. -/
def ElementPath.display (path : ElementPath) : String :=
  if path.isEmpty then "." else "/".intercalate (path.map PathSegment.display)

namespace Document

/-- The element children of a node with a given expanded name. -/
def childrenNamed (d : Document) (n : NodeId) (uri : Option String) (localName : String) :
    List NodeId :=
  (d.elementChildren n).filter fun c => (d.name? c).any (·.hasName uri localName)

/-- The last step of the path of a child of `parent` named `name`. -/
def segmentOf (d : Document) (parent : NodeId) (name : QName) (child : NodeId) : PathSegment :=
  let same := d.childrenNamed parent name.namespaceUri name.localName
  { namespaceUri := name.namespaceUri
    localName := name.localName
    index := if same.length > 1 then (same.idxOf? child).map (· + 1) else none }

/-- Puts the steps from the root to `n` in front of `rest`; stops below the
root at a node without parent and at a comment. -/
def pathTo (d : Document) : (fuel : Nat) → NodeId → ElementPath → ElementPath
  | 0, _, rest => rest
  | fuel + 1, n, rest =>
    if n = d.root then rest
    else match d.parent? n, d.name? n with
      | some parent, some name => d.pathTo fuel parent (d.segmentOf parent name n :: rest)
      | _, _ => rest

/-- The path of an element from the root. -/
def elementPath (d : Document) (n : NodeId) : ElementPath :=
  d.pathTo d.size n []

/-- The children of `n` that one step of a path names. -/
def stepInto (d : Document) (segment : PathSegment) (n : NodeId) : List NodeId :=
  let matching := d.childrenNamed n segment.namespaceUri segment.localName
  match segment.index with
  | none => matching
  | some 0 => []
  | some (i + 1) => matching[i]?.toList

/-- All elements at a path, in document order. -/
def findAll (d : Document) (path : ElementPath) : List NodeId :=
  path.foldl (fun found segment => found.flatMap (d.stepInto segment)) [d.root]

def find? (d : Document) (path : ElementPath) : Option NodeId :=
  (d.findAll path).head?

/-- The paths of all elements of the tree as texts, sorted. -/
def elementPaths (d : Document) : List String :=
  Text.sortUnique ((d.descendantElements d.root).map fun n =>
    ElementPath.display (d.elementPath n))

end Document

end LabelTemplate.Xml
