import LabelTemplate.Text.Pieces

/-!
# Qualified names

A name as written (prefix and local part) together with the namespace its
prefix resolved to.  Two names denote the same element or attribute when
their namespace and local part agree; the prefix matters only for writing.
-/

namespace LabelTemplate.Xml

/-- The namespace that the prefix `xml` is always bound to. -/
def xmlNamespace : String := "http://www.w3.org/XML/1998/namespace"

structure QName where
  pfx : Option String
  namespaceUri : Option String
  localName : String
  deriving DecidableEq, Repr, Inhabited

namespace QName

/-- A name without prefix and namespace. -/
def plain (localName : String) : QName := ⟨none, none, localName⟩

/-- True when the expanded name is the given one. -/
def hasName (q : QName) (uri : Option String) (localName : String) : Bool :=
  q.namespaceUri == uri && q.localName == localName

/-- True when two names have the same namespace and local part. -/
def sameExpanded (a b : QName) : Bool :=
  a.hasName b.namespaceUri b.localName

/-- The expanded name in Clark notation. -/
def clark (q : QName) : String :=
  match q.namespaceUri with
  | some uri => "\x7b" ++ uri ++ "\x7d" ++ q.localName
  | none => q.localName

/-- The name as it is written in markup. -/
def written (q : QName) : String :=
  match q.pfx with
  | some p => p ++ ":" ++ q.localName
  | none => q.localName

end QName

/-- Splits a written name at its first colon into prefix and local part. -/
def splitName (raw : String) : Option String × String :=
  match Text.splitOnce ':' raw with
  | some (p, l) => (some p, l)
  | none => (none, raw)

/-- A declaration `xmlns="uri"` or `xmlns:p="uri"`. -/
structure NamespaceDecl where
  pfx : Option String
  uri : String
  deriving DecidableEq, Repr, Inhabited

structure Attribute where
  name : QName
  value : String
  deriving DecidableEq, Repr, Inhabited

end LabelTemplate.Xml
