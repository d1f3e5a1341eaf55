import LabelTemplate.Xml.Name
import LabelTemplate.Location

/-!
# Documents

A document keeps its nodes in an arena and names them by their index.  A
node is never freed: detaching a subtree only unlinks it from its parent, so
an id stays valid while the tree is cloned, detached and put back around it.
Parsing numbers the nodes in document order, and every node made later gets
the next free index.

`WellFormed` is what the operations keep: parent and child links agree, a
node is a child at most once, the root has no parent, only elements have
children, and following parents never returns to where it started.
-/

namespace LabelTemplate.Xml

abbrev NodeId := Nat

structure Element where
  name : QName
  attributes : List Attribute := []
  namespaces : List NamespaceDecl := []
  /-- The character data before the first child. -/
  text : Option String := none
  deriving DecidableEq, Repr, Inhabited

namespace Element

/-- The value of the first attribute with this expanded name. -/
def attribute? (e : Element) (uri : Option String) (localName : String) : Option String :=
  (e.attributes.find? (·.name.hasName uri localName)).map (·.value)

/-- Sets the first attribute with the same expanded name, or adds one at the
end. -/
def setAttribute (e : Element) (name : QName) (value : String) : Element :=
  let rec go : List Attribute → List Attribute
    | [] => [⟨name, value⟩]
    | a :: rest =>
      if a.name.sameExpanded name then { a with value } :: rest else a :: go rest
  { e with attributes := go e.attributes }

/-- Removes the first attribute with this expanded name. -/
def removeAttribute (e : Element) (uri : Option String) (localName : String) : Element :=
  { e with attributes := e.attributes.eraseP (·.name.hasName uri localName) }

end Element

inductive NodeKind where
  | element (e : Element)
  | comment (text : String)
  deriving DecidableEq, Repr, Inhabited

namespace NodeKind

def element? : NodeKind → Option Element
  | element e => some e
  | comment _ => none

def isElement (k : NodeKind) : Bool := k.element?.isSome

def isComment (k : NodeKind) : Bool := !k.isElement

/-- Applies `f` to an element and leaves a comment alone. -/
def mapElement (f : Element → Element) : NodeKind → NodeKind
  | element e => element (f e)
  | comment t => comment t

end NodeKind

structure Node where
  kind : NodeKind
  parent : Option NodeId := none
  children : List NodeId := []
  /-- The line on which the node was read; a node made later has none. -/
  line : Option Nat := none
  deriving DecidableEq, Repr, Inhabited

/-- What stands outside the root element and is written back. -/
inductive Misc where
  | comment (text : String)
  | instruction (text : String)
  deriving DecidableEq, Repr, Inhabited

/-- What prefixes are bound to, the latest binding first; the default
namespace has no prefix. -/
abbrev PrefixBindings := List (Option String × String)

namespace PrefixBindings

/-- The binding that holds everywhere. -/
def fixed : PrefixBindings := [(some "xml", xmlNamespace)]

/-- Binds a prefix, replacing an earlier binding. -/
def bind (b : PrefixBindings) (decl : NamespaceDecl) : PrefixBindings :=
  (decl.pfx, decl.uri) :: b.filter (·.1 != decl.pfx)

def uri? (b : PrefixBindings) (pfx : Option String) : Option String := b.lookup pfx

end PrefixBindings

structure Document where
  nodes : Array Node
  root : NodeId
  prolog : List Misc := []
  /-- The path that the document was read from. -/
  url : Option String := none
  deriving DecidableEq, Repr, Inhabited

namespace Document

/-- A document that holds one root element. -/
def ofRoot (name : QName) : Document :=
  { nodes := #[{ kind := .element { name } }], root := 0 }

/-- The number of nodes in the arena, detached ones included. -/
def size (d : Document) : Nat := d.nodes.size

/-! ## Looking at a node -/

def node? (d : Document) (n : NodeId) : Option Node := d.nodes[n]?

def kind? (d : Document) (n : NodeId) : Option NodeKind := (d.node? n).map (·.kind)

def parent? (d : Document) (n : NodeId) : Option NodeId := (d.node? n).bind (·.parent)

def children (d : Document) (n : NodeId) : List NodeId :=
  match d.node? n with
  | some node => node.children
  | none => []

def line? (d : Document) (n : NodeId) : Option Nat := (d.node? n).bind (·.line)

def element? (d : Document) (n : NodeId) : Option Element := (d.kind? n).bind (·.element?)

def isElement (d : Document) (n : NodeId) : Bool := (d.element? n).isSome

def isComment (d : Document) (n : NodeId) : Bool := (d.kind? n).any (·.isComment)

def name? (d : Document) (n : NodeId) : Option QName := (d.element? n).map (·.name)

def text? (d : Document) (n : NodeId) : Option String := (d.element? n).bind (·.text)

def attribute? (d : Document) (n : NodeId) (uri : Option String) (localName : String) :
    Option String :=
  (d.element? n).bind (·.attribute? uri localName)

def attributes (d : Document) (n : NodeId) : List Attribute :=
  match d.element? n with
  | some e => e.attributes
  | none => []

/-- The children that are elements. -/
def elementChildren (d : Document) (n : NodeId) : List NodeId :=
  (d.children n).filter d.isElement

def hasElementChildren (d : Document) (n : NodeId) : Bool :=
  (d.children n).any d.isElement

/-- The position of a node among its parent's children, comments included. -/
def indexInParent? (d : Document) (n : NodeId) : Option Nat :=
  (d.parent? n).bind fun p => (d.children p).idxOf? n

/-- Where a node stands, for messages: its local name and line. -/
def location (d : Document) (n : NodeId) : Location :=
  match d.kind? n with
  | some (.element e) => { tag := some e.name.localName, line := d.line? n }
  | some (.comment _) => { tag := some "<comment>", line := d.line? n }
  | none => {}

/-! ## Changing a node -/

/-- Replaces a node by its image under `f`; an unknown id changes nothing. -/
def updateNode (d : Document) (n : NodeId) (f : Node → Node) : Document :=
  { d with nodes := d.nodes.modify n f }

@[simp] theorem size_updateNode (d : Document) (n : NodeId) (f : Node → Node) :
    (d.updateNode n f).size = d.size := by
  simp [updateNode, size]

theorem node?_updateNode (d : Document) (n m : NodeId) (f : Node → Node) :
    (d.updateNode n f).node? m = if n = m then (d.node? m).map f else d.node? m := by
  simp [updateNode, node?, Array.getElem?_modify]

def updateElement (d : Document) (n : NodeId) (f : Element → Element) : Document :=
  d.updateNode n fun node => { node with kind := node.kind.mapElement f }

def setText (d : Document) (n : NodeId) (text : Option String) : Document :=
  d.updateElement n ({ · with text })

def setAttribute (d : Document) (n : NodeId) (name : QName) (value : String) : Document :=
  d.updateElement n (·.setAttribute name value)

def removeAttribute (d : Document) (n : NodeId) (uri : Option String) (localName : String) :
    Document :=
  d.updateElement n (·.removeAttribute uri localName)

/-! ## Making and moving nodes -/

/-- Adds a detached node and gives its id. -/
def push (d : Document) (node : Node) : NodeId × Document :=
  (d.nodes.size, { d with nodes := d.nodes.push node })

@[simp] theorem size_push (d : Document) (node : Node) : (d.push node).2.size = d.size + 1 := by
  simp [push, size]

theorem node?_push (d : Document) (node : Node) (m : NodeId) :
    (d.push node).2.node? m = if m = d.size then some node else d.node? m :=
  Array.getElem?_push

def createElement (d : Document) (name : QName) : NodeId × Document :=
  d.push { kind := .element { name } }

def createComment (d : Document) (text : String) : NodeId × Document :=
  d.push { kind := .comment text }

/-- Unlinks a node from its parent. -/
def detach (d : Document) (n : NodeId) : Document :=
  match d.parent? n with
  | none => d
  | some p =>
    (d.updateNode n ({ · with parent := none })).updateNode p
      fun node => { node with children := node.children.erase n }

/-- Puts `child` at position `index` among all children of `parent`, or at
their end if there are fewer.  A child that still hangs elsewhere is detached
first. -/
def insertChild (d : Document) (parent : NodeId) (index : Nat) (child : NodeId) : Document :=
  let insert (node : Node) : Node :=
    { node with
      children := node.children.insertIdx (min index node.children.length) child }
  ((d.detach child).updateNode parent insert).updateNode child
    ({ · with parent := some parent })

/-- Puts `child` after the last child of `parent`. -/
def appendChild (d : Document) (parent child : NodeId) : Document :=
  d.insertChild parent (d.children parent).length child

/-! ## The tree below a node -/

/-- The nodes below a stack of nodes in preorder, at most `fuel` of them. -/
def visit (d : Document) : (fuel : Nat) → List NodeId → List NodeId
  | 0, _ => []
  | _, [] => []
  | fuel + 1, n :: rest => n :: d.visit fuel (d.children n ++ rest)

/-- The subtree of a node in document order, the node itself first. -/
def descendants (d : Document) (n : NodeId) : List NodeId :=
  d.visit d.size [n]

/-- The elements of a subtree in document order. -/
def descendantElements (d : Document) (n : NodeId) : List NodeId :=
  (d.descendants n).filter d.isElement

/-- Walks up at most `fuel` parents from `n` looking for the root. -/
def reachesRoot (d : Document) : (fuel : Nat) → NodeId → Bool
  | 0, n => n == d.root
  | fuel + 1, n =>
    n == d.root ||
      match d.parent? n with
      | some p => d.reachesRoot fuel p
      | none => false

/-- True when the node hangs below the root or is the root. -/
def isAttached (d : Document) (n : NodeId) : Bool :=
  d.reachesRoot d.size n

/-- A node and its ancestors, nearest first, at most `fuel + 1` of them. -/
def chainUp (d : Document) : (fuel : Nat) → NodeId → List NodeId
  | 0, n => [n]
  | fuel + 1, n =>
    match d.parent? n with
    | some p => n :: d.chainUp fuel p
    | none => [n]

/-- A node and its ancestors, nearest first. -/
def selfAndAncestors (d : Document) (n : NodeId) : List NodeId :=
  d.chainUp d.size n

/-- The preorder rank of every attached node, by id. -/
def documentOrder (d : Document) : Array (Option Nat) :=
  (d.descendants d.root).zipIdx.foldl (fun ranks (n, rank) => ranks.setIfInBounds n (some rank))
    (Array.replicate d.size none)

/-- Hangs a detached node below `target`, after its other children. -/
def hang (d : Document) (target child : NodeId) : Document :=
  (d.updateNode child ({ · with parent := some target })).updateNode target
    fun node => { node with children := node.children ++ [child] }

/-- Copies a node and the `fuel - 1` levels below it.  The copy is detached;
it and its descendants get the next free ids in preorder. -/
def copyBelow : (fuel : Nat) → Document → NodeId → NodeId × Document
  | 0, d, n => (n, d)
  | fuel + 1, d, n =>
    match d.node? n with
    | none => (n, d)
    | some node =>
      let (copy, d) := d.push { kind := node.kind, line := node.line }
      let copyChild (d : Document) (c : NodeId) : Document :=
        let (child, d) := copyBelow fuel d c
        d.hang copy child
      (copy, node.children.foldl copyChild d)

/-- Copies a subtree; the copy is detached. -/
def deepClone (d : Document) (n : NodeId) : NodeId × Document :=
  copyBelow d.size d n

/-- Detaches every comment below the root. -/
def stripComments (d : Document) : Document :=
  ((d.descendants d.root).filter d.isComment).foldl detach d

/-! ## Namespaces -/

/-- The bindings in scope at a node; the nearest declaration of a prefix
wins. -/
def namespacesInScope (d : Document) (n : NodeId) : PrefixBindings :=
  (d.selfAndAncestors n).reverse.foldl
    (fun scope a =>
      match d.element? a with
      | some e => e.namespaces.foldl .bind scope
      | none => scope)
    .fixed

/-- Every namespace that a name on the elements of the tree uses. -/
def usedNamespaces (d : Document) : List String :=
  (d.descendantElements d.root).flatMap fun n =>
    match d.element? n with
    | some e => (e.name :: e.attributes.map (·.name)).filterMap (·.namespaceUri)
    | none => []

/-- Drops the declarations of namespaces that no name in the tree uses. -/
def cleanupNamespaces (d : Document) : Document :=
  let used := d.usedNamespaces
  (d.descendantElements d.root).foldl
    (fun d n => d.updateElement n fun e =>
      { e with namespaces := e.namespaces.filter (used.contains ·.uri) })
    d

/-! ## Well-formedness -/

/-- `Below d a n`: from `n` one gets to `a` by one or more parent links. -/
inductive Below (d : Document) (a : NodeId) : NodeId → Prop where
  | child {n} (h : d.parent? n = some a) : Below d a n
  | step {n p} (h : d.parent? n = some p) (up : Below d a p) : Below d a n

structure WellFormed (d : Document) : Prop where
  root_isElement : d.isElement d.root = true
  root_parent : d.parent? d.root = none
  parent_iff_child : ∀ p c, d.parent? c = some p ↔ c ∈ d.children p
  children_nodup : ∀ p, (d.children p).Nodup
  isElement_of_child : ∀ p c, c ∈ d.children p → d.isElement p = true
  acyclic : ∀ n, ¬ Below d n n

end Document

end LabelTemplate.Xml
