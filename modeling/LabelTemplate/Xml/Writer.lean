import LabelTemplate.Xml.Document
import LabelTemplate.Xml.Reference

/-!
# Writing documents

A document is written with an XML declaration, its prolog and its tree.  A
tag or comment goes on a line of its own, indented by two spaces per level,
unless it comes first or just after a text; a text is written in place.

An element is written with its own namespace declarations and those that its
names need on top of what is in scope.
-/

namespace LabelTemplate.Xml

/-- The name of the attribute that makes the declaration. -/
def NamespaceDecl.attributeName (decl : NamespaceDecl) : String :=
  match decl.pfx with
  | some p => "xmlns:" ++ p
  | none => "xmlns"

/-- A comment or instruction before the root, on a line of its own. -/
def Misc.written : Misc → String
  | .comment text => "<!--" ++ text ++ "-->\n"
  | .instruction text => "<?" ++ text ++ "?>\n"

namespace Document

/-- The declarations that names need where `scope` holds, in the order of
the names. -/
def neededDecls (scope : PrefixBindings) : List QName → List NamespaceDecl × PrefixBindings
  | [] => ([], scope)
  | name :: names =>
    match name.namespaceUri with
    | none => neededDecls scope names
    | some uri =>
      if scope.uri? name.pfx = some uri then neededDecls scope names
      else
        let decl : NamespaceDecl := ⟨name.pfx, uri⟩
        let (decls, scope) := neededDecls (scope.bind decl) names
        (decl :: decls, scope)

/-- The declarations an element needs on top of its own.  An element without
namespace and prefix undoes a default namespace around it. -/
def missingDecls (scope : PrefixBindings) (e : Element) : List NamespaceDecl :=
  let scope := e.namespaces.foldl .bind scope
  let (decls, scope) := neededDecls scope (e.name :: e.attributes.map (·.name))
  let undo : List NamespaceDecl :=
    if e.name.namespaceUri.isNone && e.name.pfx.isNone &&
        (scope.uri? none).any (!·.isEmpty)
    then [⟨none, ""⟩] else []
  decls ++ undo

/-- A blank, a name and a quoted value. -/
def writeAttribute (name value : String) : String :=
  " " ++ name ++ "=\"" ++ Reference.escapeValue value ++ "\""

/-- The text written so far and whether the next tag goes on a new line. -/
structure Written where
  text : String
  breakLine : Bool := false

namespace Written

/-- Writes a tag or comment at a level. -/
def tag (w : Written) (level : Nat) (s : String) : Written :=
  let indent := if w.breakLine then "\n" ++ "".pushn ' ' (2 * level) else ""
  ⟨w.text ++ indent ++ s, true⟩

def content (w : Written) (s : String) : Written :=
  ⟨w.text ++ Reference.escapeText s, false⟩

end Written

/-- Writes a node and the `fuel - 1` levels below it. -/
def writeNode (d : Document) : (fuel : Nat) → (level : Nat) → PrefixBindings → Written →
    NodeId → Written
  | 0, _, _, w, _ => w
  | fuel + 1, level, scope, w, n =>
    match d.kind? n with
    | none => w
    | some (.comment text) => w.tag level ("<!--" ++ text ++ "-->")
    | some (.element e) =>
      let decls := e.namespaces ++ missingDecls scope e
      let inner := decls.foldl .bind scope
      let name := e.name.written
      let attrs := decls.map fun decl => writeAttribute decl.attributeName decl.uri
      let attrs := attrs ++ e.attributes.map fun a => writeAttribute a.name.written a.value
      let head := name ++ String.join attrs
      let text := e.text.filter (!·.isEmpty)
      if text.isNone ∧ (d.children n).isEmpty then w.tag level ("<" ++ head ++ "/>")
      else
        let w := w.tag level ("<" ++ head ++ ">")
        let w := match text with
          | some text => w.content text
          | none => w
        let w := (d.children n).foldl (d.writeNode fuel (level + 1) inner) w
        w.tag level ("</" ++ name ++ ">")

/-- The first line of every written document. -/
def xmlDeclaration : String := "<?xml version='1.0' encoding='UTF-8'?>\n"

/-- The document as a text. -/
def toXml (d : Document) : String :=
  let start := xmlDeclaration ++ String.join (d.prolog.map Misc.written)
  (d.writeNode d.size 0 .fixed ⟨start, false⟩ d.root).text ++ "\n"

end Document

end LabelTemplate.Xml
