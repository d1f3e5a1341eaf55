import LabelTemplate.Number.Text
import LabelTemplate.Xml.Document

/-!
# Nodes and values

An expression can reach the nodes of several documents, each known by its
key.  Beside the elements and comments of a document there are its document
node, attributes and texts.  A value is a boolean, a number, a string or a
list of nodes; extension functions can also give sequences of values.
-/

namespace LabelTemplate.XPath

open Xml

/-- The number of a document among those an expression can reach. -/
abbrev DocKey := Nat

abbrev Documents := Array Document

/-- A node of a document, by the element it belongs to. -/
inductive NodeRef where
  /-- The node above the root element. -/
  | document
  | element (id : NodeId)
  | attribute (id : NodeId) (index : Nat)
  | text (id : NodeId)
  | comment (id : NodeId)
  deriving DecidableEq, Repr

def NodeRef.owner? : NodeRef → Option NodeId
  | .document => none
  | .element id | .attribute id _ | .text id | .comment id => some id

/-- A node of one of the documents. -/
structure Handle where
  doc : DocKey
  node : NodeRef
  deriving DecidableEq, Repr

namespace Handle

def element? (h : Handle) : Option NodeId :=
  match h.node with
  | .element id => some id
  | _ => none

/-- The qualified name of an element or attribute. -/
def nameIn? (d : Document) (h : Handle) : Option QName :=
  match h.node with
  | .element id => d.name? id
  | .attribute id i => (d.attributes id)[i]?.map (·.name)
  | _ => none

def name? (docs : Documents) (h : Handle) : Option QName :=
  docs[h.doc]?.bind (nameIn? · h)

end Handle

/-- The texts of an element and of the elements below it, joined. -/
def elementText (d : Document) (n : NodeId) : String :=
  String.join ((d.descendantElements n).filterMap d.text?)

/-- The string-value of a node; nothing for a node of no document. -/
def stringValue (docs : Documents) (h : Handle) : String :=
  match docs[h.doc]? with
  | none => ""
  | some d =>
    match h.node with
    | .document => elementText d d.root
    | .element id => elementText d id
    | .attribute id i => ((d.attributes id)[i]?.map (·.value)).getD ""
    | .text id => (d.text? id).getD ""
    | .comment id =>
      match d.kind? id with
      | some (.comment t) => t
      | _ => ""

inductive Value where
  | boolean (b : Bool)
  | number (x : Float)
  | string (s : String)
  | nodes (hs : List Handle)
  | sequence (items : List Value)
  deriving Repr, Inhabited

namespace Value

def typeName : Value → String
  | boolean _ => "boolean"
  | number _ => "number"
  | string _ => "string"
  | nodes _ => "node-set"
  | sequence _ => "sequence"

def toBoolean : Value → Bool
  | boolean b => b
  | number x => x != 0.0 && !Number.isNaN x
  | string s => !s.isEmpty
  | nodes hs => !hs.isEmpty
  | sequence items => !items.isEmpty

/-- The string form of a value; of several nodes or items the first
counts. -/
def toText (docs : Documents) : Value → String
  | boolean b => if b then "true" else "false"
  | number x => Number.formatNumber x
  | string s => s
  | nodes [] => ""
  | nodes (h :: _) => stringValue docs h
  | sequence [] => ""
  | sequence (item :: _) => item.toText docs

def toNumber (docs : Documents) : Value → Float
  | boolean b => if b then 1.0 else 0.0
  | number x => x
  | string s => Number.parseNumber s
  | v => Number.parseNumber (v.toText docs)

end Value

end LabelTemplate.XPath
