import LabelTemplate.Error

/-!
# Declared directives

The directives that an element of a template declares, in the order of their
resolution, and their removal.
-/

namespace LabelTemplate

open Xml

/-- Declared directives with their expressions, in the order of resolution. -/
abbrev Declarations := List Declared

namespace Declarations

/-- Adds a declaration at its place; a later one replaces an earlier one of
the same directive. -/
def insert (d : Declared) : Declarations → Declarations
  | [] => [d]
  | e :: rest =>
    if d.directive = e.directive then d :: rest
    else if d.directive.rank < e.directive.rank then d :: e :: rest
    else e :: insert d rest

def expression? (ds : Declarations) (d : Directive) : Option String :=
  (ds.find? (·.directive = d)).map (·.expression)

def declares (ds : Declarations) (d : Directive) : Bool :=
  (ds.expression? d).isSome

end Declarations

/-- True for the attributes that are directives or pretend to be. -/
def isDirectiveAttribute (a : Attribute) : Bool :=
  a.name.namespaceUri == some directiveNamespace

/-- Adds the declaration that an attribute makes. -/
def addDeclaration (ds : Declarations) (a : Attribute) : Except NodeFault Declarations :=
  if !isDirectiveAttribute a then .ok ds
  else
    match Directive.ofName? a.name.localName with
    | none => .error (.unknownDirective a.name.localName)
    | some d => if a.value.isEmpty then .error (.emptyExpression d) else .ok (ds.insert ⟨d, a.value⟩)

namespace Xml.Document

/-- The directives that a node declares. -/
def declarations (d : Document) (n : NodeId) : Except Error Declarations :=
  ((d.attributes n).foldlM addDeclaration []).mapError (.node · (d.location n))

/-- Removes every directive attribute of a node. -/
def stripDirectives (d : Document) (n : NodeId) : Document :=
  d.updateElement n fun e =>
    { e with attributes := e.attributes.filter (!isDirectiveAttribute ·) }

/-- Removes the first attribute that declares a directive. -/
def removeDirective (d : Document) (n : NodeId) (directive : Directive) : Document :=
  d.removeAttribute n (some directiveNamespace) directive.name

end Xml.Document

end LabelTemplate
