import LabelTemplate.Xml.Document
import LabelTemplate.Xml.Position
import LabelTemplate.Xml.StartTag

/-!
# Reading documents

`Document.parse` builds the tree from the pieces of a text, which come in
document order: every start tag and every comment inside the root becomes
the next node of the arena.  An element keeps the character data before its
first child; a blank text is dropped when children follow.  Comments and
instructions outside the root go to the prolog.

Of two faults the one found first counts: the tree is built piece by piece,
and a fault of cutting comes after the pieces before it.
-/

namespace LabelTemplate.Xml

/-- A fault and its position in the text. -/
structure ReadError where
  position : Position
  fault : ReadFault
  deriving DecidableEq, Repr

/-- What is known of a document after some of its pieces. -/
structure PartialTree where
  nodes : Array Node := #[]
  /-- The open elements, innermost first. -/
  opened : List NodeId := []
  /-- The declarations of the open elements, innermost first. -/
  scopes : List (List NamespaceDecl) := []
  root : Option NodeId := none
  prolog : List Misc := []
  lines : LineTracker

namespace PartialTree

def fail {α : Type} (t : PartialTree) (offset : Nat) (fault : ReadFault) :
    Except ReadError α :=
  .error ⟨(t.lines.advanceTo offset).2, fault⟩

/-- The namespace of a prefix: that of the innermost declaration, where an
empty one undoes those around it.  The prefix `xml` is fixed. -/
def lookup (scopes : List (List NamespaceDecl)) (pfx : Option String) : Option String :=
  if pfx = some "xml" then some xmlNamespace
  else
    match scopes.findSome? (·.find? (·.pfx == pfx)) with
    | some decl => if decl.uri.isEmpty then none else some decl.uri
    | none => none

/-- Resolves a written name.  A prefix must be bound; a name without one
takes the default namespace only if it names an element. -/
def resolveName (scopes : List (List NamespaceDecl)) (ofElement : Bool) (raw : String) :
    Except ReadFault QName :=
  match splitName raw with
  | (none, localName) =>
    .ok ⟨none, if ofElement then lookup scopes none else none, localName⟩
  | (some p, localName) =>
    match lookup scopes (some p) with
    | some uri => .ok ⟨some p, some uri, localName⟩
    | none => .error (.unboundPrefix p)

/-- The namespace declaration that an attribute makes, if it is one. -/
def declaration? (attr : String × String) : Option NamespaceDecl :=
  if attr.1 = "xmlns" then some ⟨none, attr.2⟩
  else (Text.dropPrefix? "xmlns:" attr.1).map fun p => ⟨some p, attr.2⟩

/-- The element of a start tag inside the scopes of the open elements. -/
def readElement (scopes : List (List NamespaceDecl)) (content : List Char) :
    Except ReadFault Element := do
  let attrs ← StartTag.attributes content
  let namespaces := attrs.filterMap declaration?
  let scopes := namespaces :: scopes
  let name ← resolveName scopes true (StartTag.name content)
  let attributes ← (attrs.filter (declaration? · |>.isNone)).mapM fun (key, value) => do
    return { name := ← resolveName scopes false key, value : Attribute }
  return { name, attributes, namespaces }

/-- Adds a node below the innermost open element. -/
def addNode (t : PartialTree) (kind : NodeKind) (line : Nat) : PartialTree :=
  let id := t.nodes.size
  let nodes := t.nodes.push { kind, parent := t.opened.head?, line := some line }
  match t.opened with
  | [] => { t with nodes }
  | parent :: _ =>
    { t with
      nodes := nodes.modify parent fun node => { node with children := node.children ++ [id] } }

def openElement (t : PartialTree) (offset : Nat) (content : List Char) :
    Except ReadError PartialTree :=
  if t.opened.isEmpty ∧ t.root.isSome then t.fail offset .multipleRoots
  else
    match readElement t.scopes content with
    | .error fault => t.fail offset fault
    | .ok e =>
      let (lines, position) := t.lines.advanceTo offset
      let id := t.nodes.size
      let root := if t.opened.isEmpty then some id else t.root
      let t := { t with lines }.addNode (.element e) position.line
      .ok { t with opened := id :: t.opened, scopes := e.namespaces :: t.scopes, root }

/-- An element with children keeps only a text that is not blank. -/
def dropBlankText (node : Node) : Node :=
  if node.children.isEmpty then node
  else { node with kind := node.kind.mapElement fun e =>
      { e with text := e.text.filter (!Text.isBlankText ·) } }

def closeElement (t : PartialTree) : PartialTree :=
  match t.opened with
  | [] => t
  | id :: opened =>
    { t with nodes := t.nodes.modify id dropBlankText, opened, scopes := t.scopes.tail }

/-- Adds character data to an element that has no child yet. -/
def addTextTo (data : String) (node : Node) : Node :=
  if node.children.isEmpty then
    { node with kind := node.kind.mapElement fun e =>
        { e with text := some (e.text.getD "" ++ data) } }
  else node

def addText (t : PartialTree) (data : List Char) : PartialTree :=
  match t.opened with
  | [] => t
  | id :: _ => { t with nodes := t.nodes.modify id (addTextTo (String.ofList data)) }

def addComment (t : PartialTree) (offset : Nat) (text : List Char) : PartialTree :=
  let text := String.ofList text
  if t.opened.isEmpty then { t with prolog := t.prolog ++ [.comment text] }
  else
    let (lines, position) := t.lines.advanceTo offset
    { t with lines }.addNode (.comment text) position.line

def addInstruction (t : PartialTree) (content : List Char) : PartialTree :=
  if t.opened.isEmpty then
    { t with prolog := t.prolog ++ [.instruction (String.ofList content)] }
  else t

def addPiece (t : PartialTree) : Nat × Markup → Except ReadError PartialTree
  | (offset, .start content) => t.openElement offset content
  | (offset, .empty content) => (t.openElement offset content).map closeElement
  | (_, .close) => .ok t.closeElement
  | (offset, .text raw) =>
    match Reference.resolve raw with
    | .error fault => t.fail offset (.badReference fault)
    | .ok data => .ok (t.addText data)
  | (_, .cdata data) => .ok (t.addText data)
  | (offset, .comment text) => .ok (t.addComment offset text)
  | (_, .instruction content) => .ok (t.addInstruction content)
  | (_, .declaration) => .ok t

/-- The document, if all that was opened is closed and there is a root. -/
def finish (t : PartialTree) (size : Nat) : Except ReadError Document :=
  if !t.opened.isEmpty then t.fail size .unclosedElement
  else
    match t.root with
    | none => t.fail 0 .noRoot
    | some root => .ok { nodes := t.nodes, root, prolog := t.prolog }

end PartialTree

/-- Reads a document. -/
def Document.parse (input : String) : Except ReadError Document := do
  let cut := Markup.scan input.toList
  let tree ← cut.pieces.foldlM PartialTree.addPiece { lines := LineTracker.ofText input }
  match cut.stop with
  | some stop => tree.fail stop.offset stop.fault
  | none => tree.finish input.utf8ByteSize

end LabelTemplate.Xml
