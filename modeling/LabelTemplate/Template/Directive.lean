/-!
# Directives

The attributes of the namespace `urn:passthrough` that tell how an element
of a template is resolved.  Their order is the order of resolution: the
sources are bound before anything is evaluated against them.
-/

namespace LabelTemplate

/-- The namespace of directive attributes. -/
def directiveNamespace : String := "urn:passthrough"

/-- The prefix under which directives and built-in functions are known. -/
def directivePrefix : String := "pt"

inductive Directive where
  | sources
  | fetch
  | multi
  | required
  | fill
  | defer
  | multiBranch
  | reorder
  deriving DecidableEq, Repr, Inhabited

/-- The types of value that a directive takes after coercion. -/
structure ValueTypes where
  boolean : Bool := false
  integer : Bool := false
  string : Bool := false
  deriving DecidableEq, Repr

/-- The types by name; a directive that takes none names sources. -/
def ValueTypes.display (t : ValueTypes) : String :=
  let names := (if t.boolean then ["boolean"] else []) ++
    (if t.integer then ["integer"] else []) ++ (if t.string then ["string"] else [])
  if names.isEmpty then "moniker" else " or ".intercalate names

namespace Directive

/-- All directives in the order of resolution. -/
def all : List Directive :=
  [sources, fetch, multi, required, fill, defer, multiBranch, reorder]

/-- The local name of the attribute. -/
def name : Directive → String
  | sources => "sources"
  | fetch => "fetch"
  | multi => "multi"
  | required => "required"
  | fill => "fill"
  | defer => "defer"
  | multiBranch => "multi_branch"
  | reorder => "reorder"

def ofName? (s : String) : Option Directive :=
  all.find? (·.name == s)

/-- The place of a directive in the order of resolution. -/
def rank (d : Directive) : Nat := d.ctorIdx

/-- Whether an element that does not declare the directive takes the value
of its parent. -/
def isInherited : Directive → Bool
  | sources | fetch | required | multiBranch => true
  | multi | fill | defer | reorder => false

def types : Directive → ValueTypes
  | sources => {}
  | multi => { boolean := true, integer := true }
  | fill => { string := true }
  | multiBranch => { integer := true }
  | fetch | required | defer | reorder => { boolean := true }

def display (d : Directive) : String := directivePrefix ++ ":" ++ d.name

/-- The directive as an attribute, for messages. -/
def describe (d : Directive) (expression : String) : String :=
  d.display ++ "=\"" ++ expression ++ "\""

end Directive

end LabelTemplate
