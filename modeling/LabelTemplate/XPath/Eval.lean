import LabelTemplate.XPath.Axes
import LabelTemplate.XPath.Functions
import LabelTemplate.XPath.Grammar

/-!
# Evaluation

The value of an expression at a context node.  `Scope` holds what does not
change during an evaluation: the documents, the bindings of prefixes and the
library of functions beyond the core ones.

Each step of a path is taken from every node so far; what it reaches is put
into document order, one of each.
-/

namespace LabelTemplate.XPath

open Xml

/-- Bindings of prefixes to namespaces. -/
abbrev Namespaces := List (String × String)

/-- A call as a library sees it. -/
structure Call where
  context : CallContext
  pfx : String
  name : String
  args : List Value

/-- Functions beyond the core ones; nothing for a name it does not know. -/
abbrev Library := Call → Option (Except Error Value)

structure Scope where
  docs : Documents
  namespaces : Namespaces := []
  library : Library := fun _ => none

namespace Scope

def document (s : Scope) (key : DocKey) : Except Error Document :=
  match s.docs[key]? with
  | some d => .ok d
  | none => .error (.evaluation (.noDocument key))

def resolvePrefix (s : Scope) (p : String) : Except Error String :=
  match s.namespaces.lookup p with
  | some uri => .ok uri
  | none => .error (.evaluation (.undefinedPrefix p))

/-! ## Comparisons -/

def compareNumbers : BinaryOp → Float → Float → Bool
  | .lt, x, y => x < y
  | .le, x, y => x ≤ y
  | .gt, x, y => x > y
  | _, x, y => x ≥ y

/-- Two values are equal as booleans if one of them is a boolean, else as
numbers if one is a number, else as strings. -/
def sameValue (s : Scope) (a b : Value) : Bool :=
  match a, b with
  | .boolean _, _ | _, .boolean _ => a.toBoolean == b.toBoolean
  | .number _, _ | _, .number _ => a.toNumber s.docs == b.toNumber s.docs
  | _, _ => a.toText s.docs == b.toText s.docs

def compareAtoms (s : Scope) (op : BinaryOp) (a b : Value) : Bool :=
  match op with
  | .eq => s.sameValue a b
  | .ne => !s.sameValue a b
  | _ => compareNumbers op (a.toNumber s.docs) (b.toNumber s.docs)

/-- A node-set compared with a value of another kind, by `test`: as a boolean
with a boolean, else node by node. -/
def compareNodes (s : Scope) (hs : List Handle) (other : Value) (test : Value → Bool) : Bool :=
  match other with
  | .boolean _ => test (.boolean !hs.isEmpty)
  | .number _ => hs.any fun h => test (.number (Number.parseNumber (stringValue s.docs h)))
  | _ => hs.any fun h => test (.string (stringValue s.docs h))

def compare (s : Scope) (op : BinaryOp) (left right : Value) : Bool :=
  match left, right with
  | .nodes a, .nodes b =>
    let rights := b.map fun h => Value.string (stringValue s.docs h)
    a.any fun x =>
      let left := Value.string (stringValue s.docs x)
      rights.any (s.compareAtoms op left)
  | .nodes hs, other => s.compareNodes hs other (s.compareAtoms op · other)
  | other, .nodes hs => s.compareNodes hs other (s.compareAtoms op other ·)
  | _, _ => s.compareAtoms op left right

def arithmetic : BinaryOp → Float → Float → Float
  | .add, x, y => x + y
  | .sub, x, y => x - y
  | .mul, x, y => x * y
  | .div, x, y => x / y
  | _, x, y => Number.remainder x y

/-! ## Node tests -/

/-- True for the kind of node that an axis is about. -/
def isPrincipal : Axis → Handle → Bool
  | .attribute, ⟨_, .attribute _ _⟩ => true
  | .attribute, _ => false
  | _, ⟨_, .element _⟩ => true
  | _, _ => false

/-- Whether a node passes a test; a prefix in the test must be bound. -/
def passes (s : Scope) (d : Document) (a : Axis) (test : NodeTest) (h : Handle) :
    Except Error Bool :=
  match test with
  | .node => .ok true
  | .text => .ok (h.node matches .text _)
  | .comment => .ok (h.node matches .comment _)
  | .any => .ok (isPrincipal a h)
  | .name pfx localName => do
    let uri ← match pfx with
      | some p => some <$> s.resolvePrefix p
      | none => pure none
    return isPrincipal a h && (h.nameIn? d).any (·.hasName uri localName)
  | .inNamespace p => do
    let uri ← s.resolvePrefix p
    return isPrincipal a h && (h.nameIn? d).any (·.namespaceUri == some uri)

/-! ## Expressions -/

/-- The nodes of a value that must be a node-set. -/
def nodeSet (what : String) : Value → Except Error (List Handle)
  | .nodes hs => .ok hs
  | v => .error (.evaluation (.requiresNodeSet what v.typeName))

/-- A predicate that is a number keeps the node at that position; any other
keeps the nodes for which it is true. -/
def keeps (position : Nat) : Value → Bool
  | .number x => x == Float.ofNat position
  | v => v.toBoolean

/-- Keeps the nodes that a predicate holds of, given its value at each. -/
def filterNodes (size : Nat) (predicate : CallContext → Except Error Value) :
    (position : Nat) → List Handle → Except Error (List Handle)
  | _, [] => .ok []
  | position, h :: hs => do
    let keep := keeps position (← predicate ⟨h, position, size⟩)
    let rest ← filterNodes size predicate (position + 1) hs
    return if keep then h :: rest else rest

/-- Calls a core function, or else one of the library. -/
def callFunction (s : Scope) (ctx : CallContext) (pfx : Option String) (name : String)
    (args : List Value) : Except Error Value :=
  let core? := if pfx.isNone then CoreFunction.ofName? name else none
  match core? with
  | some f => (f.call s.docs ctx args).mapError .evaluation
  | none =>
    match s.library { context := ctx, pfx := pfx.getD "", name, args } with
    | some result => result
    | none =>
      let qualified := match pfx with
        | some p => p ++ ":" ++ name
        | none => name
      .error (.evaluation (.unknownFunction qualified))

mutual

/-- The value of an expression. -/
def eval (s : Scope) (ctx : CallContext) : Expr → Except Error Value
  | .or l r => do
    if (← eval s ctx l).toBoolean then return .boolean true
    return .boolean (← eval s ctx r).toBoolean
  | .and l r => do
    if !(← eval s ctx l).toBoolean then return .boolean false
    return .boolean (← eval s ctx r).toBoolean
  | .binary op l r => do
    let left ← eval s ctx l
    let right ← eval s ctx r
    if op.isComparison then return .boolean (s.compare op left right)
    return .number (arithmetic op (left.toNumber s.docs) (right.toNumber s.docs))
  | .negate e => do
    let v ← eval s ctx e
    return .number (-(v.toNumber s.docs))
  | .union l r => do
    let left ← nodeSet "|" (← eval s ctx l)
    let right ← nodeSet "|" (← eval s ctx r)
    return .nodes (inDocumentOrder s.docs (left ++ right))
  | .literal t => .ok (.string t)
  | .number x => .ok (.number x)
  | .call pfx name args => do
    s.callFunction ctx pfx name (← evalAll s ctx args)
  | .path absolute steps => do
    let start : Handle := if absolute then ⟨ctx.node.doc, .document⟩ else ctx.node
    return .nodes (← takeSteps s [start] steps)
  | .filter primary predicates steps => do
    let hs ← nodeSet "a predicate" (← eval s ctx primary)
    return .nodes (← takeSteps s (← applyPredicates s hs predicates) steps)

/-- The values of a list of expressions. -/
def evalAll (s : Scope) (ctx : CallContext) : List Expr → Except Error (List Value)
  | [] => .ok []
  | e :: es => do
    let v ← eval s ctx e
    return v :: (← evalAll s ctx es)

/-- The nodes that a list of predicates keeps, one predicate after the
other. -/
def applyPredicates (s : Scope) (hs : List Handle) : List Expr → Except Error (List Handle)
  | [] => .ok hs
  | p :: ps => do
    let kept ← filterNodes hs.length (fun ctx => eval s ctx p) 1 hs
    applyPredicates s kept ps

/-- The nodes that a list of steps reaches. -/
def takeSteps (s : Scope) (hs : List Handle) : List Step → Except Error (List Handle)
  | [] => .ok hs
  | step :: steps => do
    let reached ← hs.mapM fun h => takeStep s h step
    takeSteps s (inDocumentOrder s.docs reached.flatten) steps

/-- The nodes that one step reaches from a node, in proximity order. -/
def takeStep (s : Scope) (h : Handle) : Step → Except Error (List Handle)
  | .mk axis test predicates => do
    let d ← s.document h.doc
    let candidates ← (axisNodes d h axis).filterM (s.passes d axis test)
    applyPredicates s candidates predicates

end

/-- Evaluates an expression at a node. -/
def evaluate (s : Scope) (e : Expr) (node : Handle) : Except Error Value :=
  s.eval ⟨node, 1, 1⟩ e

end Scope

end LabelTemplate.XPath
