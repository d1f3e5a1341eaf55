/-!
# Expressions

The abstract syntax of expressions.  A location path is a list of steps; a
filter selects from the value of a primary expression by predicates and goes
on from there by steps.
-/

namespace LabelTemplate.XPath

inductive Axis where
  | child
  | descendant
  | descendantOrSelf
  | parent
  | ancestor
  | ancestorOrSelf
  | followingSibling
  | precedingSibling
  | attribute
  | self
  deriving DecidableEq, Repr

namespace Axis

def all : List Axis :=
  [child, descendant, descendantOrSelf, parent, ancestor, ancestorOrSelf, followingSibling,
    precedingSibling, .attribute, self]

def name : Axis → String
  | child => "child"
  | descendant => "descendant"
  | descendantOrSelf => "descendant-or-self"
  | parent => "parent"
  | ancestor => "ancestor"
  | ancestorOrSelf => "ancestor-or-self"
  | followingSibling => "following-sibling"
  | precedingSibling => "preceding-sibling"
  | .attribute => "attribute"
  | self => "self"

def ofName? (s : String) : Option Axis := all.find? (·.name == s)

/-- Axes whose nodes are counted backwards from the context node. -/
def isReverse : Axis → Bool
  | parent | ancestor | ancestorOrSelf | precedingSibling => true
  | _ => false

end Axis

inductive NodeTest where
  /-- Any node of the axis's principal kind. -/
  | any
  | name (pfx : Option String) (localName : String)
  | inNamespace (pfx : String)
  | text
  | node
  | comment
  deriving DecidableEq, Repr

inductive BinaryOp where
  | eq
  | ne
  | lt
  | le
  | gt
  | ge
  | add
  | sub
  | mul
  | div
  | mod
  deriving DecidableEq, Repr

def BinaryOp.isComparison : BinaryOp → Bool
  | eq | ne | lt | le | gt | ge => true
  | add | sub | mul | div | mod => false

mutual

inductive Expr where
  | or (left right : Expr)
  | and (left right : Expr)
  | binary (op : BinaryOp) (left right : Expr)
  | negate (e : Expr)
  | union (left right : Expr)
  | literal (s : String)
  | number (x : Float)
  | call (pfx : Option String) (name : String) (args : List Expr)
  | path (absolute : Bool) (steps : List Step)
  | filter (primary : Expr) (predicates : List Expr) (steps : List Step)

inductive Step where
  | mk (axis : Axis) (test : NodeTest) (predicates : List Expr)

end

instance : Inhabited Expr := ⟨.literal ""⟩

/-- The step that a double slash stands for. -/
def Step.descendantOrSelf : Step := .mk .descendantOrSelf .node []

end LabelTemplate.XPath
