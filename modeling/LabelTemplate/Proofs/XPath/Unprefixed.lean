import Mathlib
import LabelTemplate.Proofs.Outcome
import LabelTemplate.Xml.Position
import LabelTemplate.XPath.Eval

/-!
# Evaluation does not see prefixes

`Document.unprefixed` is what is left of a document when its names lose their
prefixes and nothing is declared any more: namespaces, local names, attributes,
texts and links.  An expression that asks no function for more than that has the
same value in a document and in what is left of it, or fails with the same error
(`Scope.eval_unprefixed`).  So two documents that agree in this are the same to it,
however their prefixes were chosen (`Scope.evaluate_congr`).

The documents are looked at through few functions.  There is one lemma for each,
the nodes along the axes follow from them, and the evaluation from those by
induction over the expression.
-/

namespace LabelTemplate

namespace Xml

/-! ## Without prefixes -/

/-- The name without its prefix. -/
def QName.unprefixed (q : QName) : QName := { q with pfx := none }

/-- The element with its names unprefixed and no declarations. -/
def Element.unprefixed (e : Element) : Element where
  name := e.name.unprefixed
  attributes := e.attributes.map fun a => { a with name := a.name.unprefixed }
  text := e.text

/-- The node as it is when nobody looks at how and where it was written. -/
def Node.unprefixed (x : Node) : Node :=
  { x with kind := x.kind.mapElement (·.unprefixed), line := none }

/-- The arena as it is when nobody looks at how and where it was written. -/
def Document.unprefixed (d : Document) : Document where
  nodes := d.nodes.map (·.unprefixed)
  root := d.root

namespace Document

variable (d : Document) (n : NodeId)

@[simp] theorem root_unprefixed : d.unprefixed.root = d.root := rfl

@[simp] theorem size_unprefixed : d.unprefixed.size = d.size := by
  simp [size, unprefixed]

theorem node?_unprefixed : d.unprefixed.node? n = (d.node? n).map (·.unprefixed) := by
  simp [node?, unprefixed]

theorem kind?_unprefixed :
    d.unprefixed.kind? n = (d.kind? n).map (·.mapElement (·.unprefixed)) := by
  rw [kind?, kind?, node?_unprefixed, Option.map_map, Option.map_map]
  rfl

@[simp] theorem parent?_unprefixed : d.unprefixed.parent? n = d.parent? n := by
  rw [parent?, parent?, node?_unprefixed]
  cases d.node? n <;> rfl

@[simp] theorem children_unprefixed : d.unprefixed.children n = d.children n := by
  rw [children, children, node?_unprefixed]
  cases d.node? n <;> rfl

theorem element?_unprefixed : d.unprefixed.element? n = (d.element? n).map (·.unprefixed) := by
  rw [element?, element?, kind?_unprefixed]
  rcases d.kind? n with - | ⟨e | text⟩ <;> rfl

@[simp] theorem isElement_unprefixed : d.unprefixed.isElement n = d.isElement n := by
  rw [isElement, isElement, element?_unprefixed, Option.isSome_map]

@[simp] theorem isComment_unprefixed : d.unprefixed.isComment n = d.isComment n := by
  rw [isComment, isComment, kind?_unprefixed]
  rcases d.kind? n with - | ⟨e | text⟩ <;> rfl

theorem name?_unprefixed : d.unprefixed.name? n = (d.name? n).map (·.unprefixed) := by
  rw [name?, name?, element?_unprefixed, Option.map_map, Option.map_map]
  rfl

@[simp] theorem text?_unprefixed : d.unprefixed.text? n = d.text? n := by
  rw [text?, text?, element?_unprefixed]
  cases d.element? n <;> rfl

theorem attributes_unprefixed : d.unprefixed.attributes n =
    (d.attributes n).map fun a => { a with name := a.name.unprefixed } := by
  rw [attributes, attributes, element?_unprefixed]
  cases d.element? n <;> rfl

@[simp] theorem indexInParent?_unprefixed : d.unprefixed.indexInParent? n = d.indexInParent? n := by
  simp only [indexInParent?, parent?_unprefixed, children_unprefixed]

theorem visit_unprefixed (fuel : Nat) (ns : List NodeId) :
    d.unprefixed.visit fuel ns = d.visit fuel ns := by
  induction fuel generalizing ns with
  | zero => rfl
  | succ fuel ih =>
    cases ns with
    | nil => rfl
    | cons n ns => rw [visit, visit, children_unprefixed, ih]

@[simp] theorem descendants_unprefixed : d.unprefixed.descendants n = d.descendants n := by
  rw [descendants, descendants, size_unprefixed, visit_unprefixed]

@[simp] theorem descendantElements_unprefixed :
    d.unprefixed.descendantElements n = d.descendantElements n := by
  rw [descendantElements, descendantElements, descendants_unprefixed]
  exact List.filter_congr fun m _ => isElement_unprefixed d m

@[simp] theorem documentOrder_unprefixed : d.unprefixed.documentOrder = d.documentOrder := by
  rw [documentOrder, documentOrder, root_unprefixed, descendants_unprefixed, size_unprefixed]

end Document

end Xml

namespace XPath

open Xml Document

/-! ## Nodes and their texts -/

section Nodes

variable (d : Document) (h : Handle)

theorem elementText_unprefixed (n : NodeId) : elementText d.unprefixed n = elementText d n := by
  rw [elementText, elementText, descendantElements_unprefixed]
  exact congrArg String.join (List.filterMap_congr fun m _ => text?_unprefixed d m)

theorem nameIn?_unprefixed : h.nameIn? d.unprefixed = (h.nameIn? d).map (·.unprefixed) := by
  match h with
  | ⟨_, .element n⟩ => exact name?_unprefixed d n
  | ⟨_, .attribute n i⟩ =>
    simp only [Handle.nameIn?, attributes_unprefixed, List.getElem?_map, Option.map_map]
    rfl
  | ⟨_, .document⟩ | ⟨_, .text _⟩ | ⟨_, .comment _⟩ => rfl

theorem treeNode_unprefixed (key : DocKey) : treeNode d.unprefixed key = treeNode d key := by
  funext n
  rw [treeNode, treeNode, isComment_unprefixed]

theorem childNodes_unprefixed : childNodes d.unprefixed h = childNodes d h := by
  obtain ⟨doc, node⟩ := h
  cases node with
  | element n => simp only [childNodes, text?_unprefixed, children_unprefixed, treeNode_unprefixed]
  | _ => rfl

theorem parentNode?_unprefixed : parentNode? d.unprefixed h = parentNode? d h := by
  obtain ⟨doc, node⟩ := h
  cases node with
  | element n => simp only [parentNode?, root_unprefixed, parent?_unprefixed]
  | comment n => simp only [parentNode?, root_unprefixed, parent?_unprefixed]
  | _ => rfl

theorem nodesBelow_unprefixed (fuel : Nat) :
    nodesBelow d.unprefixed fuel h = nodesBelow d fuel h := by
  induction fuel generalizing h with
  | zero => rfl
  | succ fuel ih =>
    rw [nodesBelow, nodesBelow, childNodes_unprefixed]
    exact List.flatMap_congr fun c _ => by rw [ih]

theorem nodesAbove_unprefixed (fuel : Nat) :
    nodesAbove d.unprefixed fuel h = nodesAbove d fuel h := by
  induction fuel generalizing h with
  | zero => rfl
  | succ fuel ih =>
    rw [nodesAbove, nodesAbove, parentNode?_unprefixed]
    cases parentNode? d h with
    | none => rfl
    | some p => exact congrArg (p :: ·) (ih p)

theorem siblings_unprefixed (following : Bool) :
    siblings d.unprefixed h following = siblings d h following := by
  obtain ⟨doc, node⟩ := h
  cases node with
  | element n =>
    simp only [siblings, parent?_unprefixed, indexInParent?_unprefixed, children_unprefixed,
      treeNode_unprefixed]
  | comment n =>
    simp only [siblings, parent?_unprefixed, indexInParent?_unprefixed, children_unprefixed,
      treeNode_unprefixed]
  | _ => rfl

theorem attributeNodes_unprefixed : attributeNodes d.unprefixed h = attributeNodes d h := by
  obtain ⟨doc, node⟩ := h
  cases node with
  | element n => simp only [attributeNodes, attributes_unprefixed, List.length_map]
  | _ => rfl

/-- Every axis leads to the same nodes. -/
theorem axisNodes_unprefixed (a : Axis) : axisNodes d.unprefixed h a = axisNodes d h a := by
  match a with
  | .child => exact childNodes_unprefixed d h
  | .descendant | .descendantOrSelf =>
    simp only [axisNodes, levels, size_unprefixed, nodesBelow_unprefixed]
  | .ancestor | .ancestorOrSelf =>
    simp only [axisNodes, levels, size_unprefixed, nodesAbove_unprefixed]
  | .parent => rw [axisNodes, axisNodes, parentNode?_unprefixed]
  | .followingSibling => exact siblings_unprefixed d h true
  | .precedingSibling => exact siblings_unprefixed d h false
  | .attribute => exact attributeNodes_unprefixed d h
  | .self => rfl

end Nodes

/-! ## Several documents -/

/-- Documents of which only that is left. -/
def Documents.unprefixed (docs : Documents) : Documents := docs.map (·.unprefixed)

section Values

variable (docs : Documents)

theorem getElem?_unprefixed (k : DocKey) :
    docs.unprefixed[k]? = docs[k]?.map (·.unprefixed) := by
  simp [Documents.unprefixed]

theorem stringValue_unprefixed (h : Handle) :
    stringValue docs.unprefixed h = stringValue docs h := by
  rw [stringValue, stringValue, getElem?_unprefixed]
  cases docs[h.doc]? with
  | none => rfl
  | some d =>
    match h.node with
    | .document => exact elementText_unprefixed d d.root
    | .element n => exact elementText_unprefixed d n
    | .attribute n i =>
      simp only [Option.map_some, attributes_unprefixed, List.getElem?_map, Option.map_map]
      rfl
    | .text n => simp only [Option.map_some, text?_unprefixed]
    | .comment n =>
      simp only [Option.map_some, kind?_unprefixed]
      rcases d.kind? n with - | ⟨e | text⟩ <;> rfl

theorem name?_documents_unprefixed (h : Handle) :
    h.name? docs.unprefixed = (h.name? docs).map (·.unprefixed) := by
  rw [Handle.name?, Handle.name?, getElem?_unprefixed]
  cases docs[h.doc]? with
  | none => rfl
  | some d => exact nameIn?_unprefixed d h

theorem inDocumentOrder_unprefixed (hs : List Handle) :
    inDocumentOrder docs.unprefixed hs = inDocumentOrder docs hs := by
  have hranks : ranksFor docs.unprefixed hs = ranksFor docs hs := by
    rw [ranksFor, ranksFor]
    refine List.map_congr_left fun key _ => ?_
    rw [getElem?_unprefixed]
    cases docs[key]? with
    | none => rfl
    | some d => exact congrArg (key, ·) (documentOrder_unprefixed d)
  unfold inDocumentOrder
  rw [hranks]

theorem toText_unprefixed : (v : Value) → v.toText docs.unprefixed = v.toText docs
  | .boolean _ => by rw [Value.toText, Value.toText]
  | .number _ => by rw [Value.toText, Value.toText]
  | .string _ => by rw [Value.toText, Value.toText]
  | .nodes [] => by rw [Value.toText, Value.toText]
  | .nodes (h :: _) => by rw [Value.toText, Value.toText, stringValue_unprefixed]
  | .sequence [] => by rw [Value.toText, Value.toText]
  | .sequence (v :: _) => by rw [Value.toText, Value.toText, toText_unprefixed v]

theorem toNumber_unprefixed (v : Value) : v.toNumber docs.unprefixed = v.toNumber docs := by
  cases v with
  | nodes hs => exact congrArg Number.parseNumber (toText_unprefixed docs _)
  | sequence items => exact congrArg Number.parseNumber (toText_unprefixed docs _)
  | _ => rfl

/-- Of the core functions only `name` tells how a name is written. -/
theorem call_unprefixed (ctx : CallContext) {f : CoreFunction} (hf : f ≠ .name)
    (args : List Value) : f.call docs.unprefixed ctx args = f.call docs ctx args := by
  unfold CoreFunction.call
  simp only [toText_unprefixed, toNumber_unprefixed, stringValue_unprefixed]
  refine bind_congr fun _ => ?_
  have hname : ∀ v, firstName docs.unprefixed f v =
      (firstName docs f v).map (Option.map (·.unprefixed)) := fun v => by
    unfold firstName
    cases nodesArgument f v with
    | error e => rfl
    | ok hs =>
      cases hs with
      | nil => rfl
      | cons h hs => exact congrArg Except.ok (name?_documents_unprefixed docs h)
  cases f with
  | name => exact absurd rfl hf
  | localName =>
    simp only [hname]
    rcases firstName docs .localName (argumentOrContext ctx args) with - | ⟨- | q⟩ <;> rfl
  | namespaceUri =>
    simp only [hname]
    rcases firstName docs .namespaceUri (argumentOrContext ctx args) with - | ⟨- | q⟩ <;> rfl
  | _ => rfl

end Values

/-! ## Calls of an expression -/

mutual

/-- Every function that the expression calls, by prefix and name, is `P`. -/
def Expr.EveryCall (P : Option String → String → Prop) : Expr → Prop
  | .or l r => l.EveryCall P ∧ r.EveryCall P
  | .and l r => l.EveryCall P ∧ r.EveryCall P
  | .binary _ l r => l.EveryCall P ∧ r.EveryCall P
  | .negate e => e.EveryCall P
  | .union l r => l.EveryCall P ∧ r.EveryCall P
  | .literal _ => True
  | .number _ => True
  | .call pfx name args => P pfx name ∧ Expr.EveryCallOfAll P args
  | .path _ steps => Step.EveryCallOfAll P steps
  | .filter primary predicates steps =>
    primary.EveryCall P ∧ Expr.EveryCallOfAll P predicates ∧ Step.EveryCallOfAll P steps

def Expr.EveryCallOfAll (P : Option String → String → Prop) : List Expr → Prop
  | [] => True
  | e :: es => e.EveryCall P ∧ Expr.EveryCallOfAll P es

def Step.EveryCallOfAll (P : Option String → String → Prop) : List Step → Prop
  | [] => True
  | step :: steps => step.EveryCall P ∧ Step.EveryCallOfAll P steps

def Step.EveryCall (P : Option String → String → Prop) : Step → Prop
  | .mk _ _ predicates => Expr.EveryCallOfAll P predicates

end

namespace Scope

/-- A function that does not tell how a name is written: a core function other
than `name`, or one that is not known at all. -/
def Blind (s : Scope) (pfx : Option String) (name : String) : Prop :=
  match if pfx.isNone then CoreFunction.ofName? name else none with
  | some f => f ≠ .name
  | none => ∀ ctx args, s.library ⟨ctx, pfx.getD "", name, args⟩ = none

/-- The scope with nothing but unprefixed names to look at, and no library. -/
def unprefixed (s : Scope) : Scope where
  docs := s.docs.unprefixed
  namespaces := s.namespaces

variable (s : Scope)

theorem docs_unprefixed : s.unprefixed.docs = s.docs.unprefixed := rfl

/-! ## Comparisons, tests and calls -/

theorem sameValue_unprefixed (a b : Value) : s.unprefixed.sameValue a b = s.sameValue a b := by
  unfold sameValue
  simp only [docs_unprefixed, toText_unprefixed, toNumber_unprefixed]

theorem compareAtoms_unprefixed (op : BinaryOp) :
    s.unprefixed.compareAtoms op = s.compareAtoms op := by
  funext a b
  unfold compareAtoms
  simp only [docs_unprefixed, sameValue_unprefixed, toNumber_unprefixed]

theorem compareNodes_unprefixed (hs : List Handle) (other : Value) (test : Value → Bool) :
    s.unprefixed.compareNodes hs other test = s.compareNodes hs other test := by
  unfold compareNodes
  simp only [docs_unprefixed, stringValue_unprefixed]

theorem compare_unprefixed (op : BinaryOp) (a b : Value) :
    s.unprefixed.compare op a b = s.compare op a b := by
  unfold compare
  simp only [docs_unprefixed, stringValue_unprefixed, compareAtoms_unprefixed,
    compareNodes_unprefixed]

theorem passes_unprefixed (d : Document) (a : Axis) (test : NodeTest) (h : Handle) :
    s.unprefixed.passes d.unprefixed a test h = s.passes d a test h := by
  have hname : ∀ p : QName → Bool, (∀ q : QName, p q.unprefixed = p q) →
      (h.nameIn? d.unprefixed).any p = (h.nameIn? d).any p := fun p hp => by
    rw [nameIn?_unprefixed]
    cases h.nameIn? d with
    | none => rfl
    | some q => exact hp q
  cases test with
  | name pfx localName =>
    unfold passes
    simp only [fun uri => hname (·.hasName uri localName) fun _ => rfl]
    rfl
  | inNamespace p =>
    unfold passes
    simp only [fun uri => hname (·.namespaceUri == some uri) fun _ => rfl]
    rfl
  | _ => rfl

variable {s} in
theorem callFunction_unprefixed {pfx : Option String} {name : String} (h : s.Blind pfx name)
    (ctx : CallContext) (args : List Value) :
    s.unprefixed.callFunction ctx pfx name args = s.callFunction ctx pfx name args := by
  unfold Blind at h
  unfold callFunction
  dsimp only
  cases hcore : if pfx.isNone then CoreFunction.ofName? name else none with
  | some f =>
    rw [hcore] at h
    exact congrArg (Except.mapError Error.evaluation) (call_unprefixed s.docs ctx h args)
  | none =>
    rw [hcore] at h
    simp only [h ctx args]
    rfl

/-- What is done with a document is the same if it sees no more of it. -/
theorem bind_document_unprefixed {α : Type} (k : DocKey) {f g : Document → Except Error α}
    (hfg : ∀ d, f d.unprefixed = g d) : s.unprefixed.document k >>= f = s.document k >>= g := by
  unfold document
  rw [docs_unprefixed, getElem?_unprefixed]
  cases s.docs[k]? with
  | none => simp only [Option.map_none, bind, Except.bind]
  | some d => exact hfg d

/-! ## Expressions -/

mutual

/-- An expression that looks at nothing else comes to the same value when there
is nothing else, or fails in the same way. -/
theorem eval_unprefixed {s : Scope} (ctx : CallContext) (e : Expr) (he : e.EveryCall s.Blind) :
    s.unprefixed.eval ctx e = s.eval ctx e := by
  cases e with
  | or l r =>
    unfold Expr.EveryCall at he
    unfold Scope.eval
    rw [eval_unprefixed ctx l he.1, eval_unprefixed ctx r he.2]
  | and l r =>
    unfold Expr.EveryCall at he
    unfold Scope.eval
    rw [eval_unprefixed ctx l he.1, eval_unprefixed ctx r he.2]
  | binary op l r =>
    unfold Expr.EveryCall at he
    unfold Scope.eval
    rw [eval_unprefixed ctx l he.1, eval_unprefixed ctx r he.2]
    simp only [docs_unprefixed, compare_unprefixed, toNumber_unprefixed]
  | negate e =>
    unfold Expr.EveryCall at he
    unfold Scope.eval
    rw [eval_unprefixed ctx e he]
    simp only [docs_unprefixed, toNumber_unprefixed]
  | union l r =>
    unfold Expr.EveryCall at he
    unfold Scope.eval
    rw [eval_unprefixed ctx l he.1, eval_unprefixed ctx r he.2]
    simp only [docs_unprefixed, inDocumentOrder_unprefixed]
  | literal t =>
    unfold Scope.eval
    rfl
  | number x =>
    unfold Scope.eval
    rfl
  | call pfx name args =>
    unfold Expr.EveryCall at he
    unfold Scope.eval
    rw [evalAll_unprefixed ctx args he.2]
    exact bind_congr fun vs => callFunction_unprefixed he.1 ctx vs
  | path absolute steps =>
    unfold Expr.EveryCall at he
    unfold Scope.eval
    simp only [takeSteps_unprefixed _ steps he]
  | filter primary predicates steps =>
    unfold Expr.EveryCall at he
    unfold Scope.eval
    rw [eval_unprefixed ctx primary he.1]
    simp only [applyPredicates_unprefixed _ predicates he.2.1, takeSteps_unprefixed _ steps he.2.2]
termination_by sizeOf e

theorem evalAll_unprefixed {s : Scope} (ctx : CallContext) (es : List Expr)
    (hes : Expr.EveryCallOfAll s.Blind es) : s.unprefixed.evalAll ctx es = s.evalAll ctx es := by
  cases es with
  | nil =>
    unfold Scope.evalAll
    rfl
  | cons e es =>
    unfold Expr.EveryCallOfAll at hes
    unfold Scope.evalAll
    rw [eval_unprefixed ctx e hes.1, evalAll_unprefixed ctx es hes.2]
termination_by sizeOf es

theorem applyPredicates_unprefixed {s : Scope} (hs : List Handle) (predicates : List Expr)
    (hpredicates : Expr.EveryCallOfAll s.Blind predicates) :
    s.unprefixed.applyPredicates hs predicates = s.applyPredicates hs predicates := by
  cases predicates with
  | nil =>
    unfold Scope.applyPredicates
    rfl
  | cons p ps =>
    unfold Expr.EveryCallOfAll at hpredicates
    unfold Scope.applyPredicates
    have hp : (fun ctx => s.unprefixed.eval ctx p) = fun ctx => s.eval ctx p :=
      funext fun ctx => eval_unprefixed ctx p hpredicates.1
    rw [hp]
    exact bind_congr fun kept => applyPredicates_unprefixed kept ps hpredicates.2
termination_by sizeOf predicates

theorem takeSteps_unprefixed {s : Scope} (hs : List Handle) (steps : List Step)
    (hsteps : Step.EveryCallOfAll s.Blind steps) :
    s.unprefixed.takeSteps hs steps = s.takeSteps hs steps := by
  cases steps with
  | nil =>
    unfold Scope.takeSteps
    rfl
  | cons step steps =>
    unfold Step.EveryCallOfAll at hsteps
    unfold Scope.takeSteps
    have hstep : (fun h => s.unprefixed.takeStep h step) = fun h => s.takeStep h step :=
      funext fun h => takeStep_unprefixed h step hsteps.1
    rw [hstep, docs_unprefixed]
    refine bind_congr fun reached => ?_
    rw [inDocumentOrder_unprefixed, takeSteps_unprefixed _ steps hsteps.2]
termination_by sizeOf steps

theorem takeStep_unprefixed {s : Scope} (h : Handle) (step : Step)
    (hstep : step.EveryCall s.Blind) : s.unprefixed.takeStep h step = s.takeStep h step := by
  cases step with
  | mk a test predicates =>
    unfold Step.EveryCall at hstep
    unfold Scope.takeStep
    refine bind_document_unprefixed s h.doc fun d => ?_
    have htest : s.unprefixed.passes d.unprefixed a test = s.passes d a test :=
      funext fun x => passes_unprefixed s d a test x
    rw [htest, axisNodes_unprefixed]
    exact bind_congr fun found => applyPredicates_unprefixed found predicates hstep
termination_by sizeOf step

end

/-- Documents that differ only in their prefixes and declarations are the same to
an expression that calls neither `name` nor a function of a library. -/
theorem evaluate_congr {s s' : Scope} (hdocs : s'.docs.unprefixed = s.docs.unprefixed)
    (hnamespaces : s'.namespaces = s.namespaces) {e : Expr} (he : e.EveryCall s.Blind)
    (he' : e.EveryCall s'.Blind) (h : Handle) : s'.evaluate e h = s.evaluate e h := by
  have hsame : s'.unprefixed = s.unprefixed := by rw [unprefixed, unprefixed, hdocs, hnamespaces]
  rw [evaluate, evaluate, ← eval_unprefixed _ e he, ← eval_unprefixed _ e he', hsame]

/-- `<a xmlns="urn:u"><b k="1">text</b><b xmlns="urn:v"/></a>`, where a name of
`urn:u` or of `urn:v` is written with the prefix given for it. -/
def spelled (u v : Option String) : Document where
  nodes := #[
    { kind := .element ⟨⟨u, some "urn:u", "a"⟩, [], [⟨u, "urn:u"⟩], none⟩, children := [1, 2] },
    { kind := .element ⟨⟨u, some "urn:u", "b"⟩, [⟨.plain "k", "1"⟩], [], some "text"⟩,
      parent := some 0 },
    { kind := .element ⟨⟨v, some "urn:v", "b"⟩, [], [⟨v, "urn:v"⟩], none⟩, parent := some 0 }]
  root := 0

/-- `//n:b[local-name() = 'b'] | //*[namespace-uri() = 'urn:v']/preceding-sibling::n:*/@*` -/
def spelledSelection : Expr :=
  .union
    (.path true [.descendantOrSelf,
      .mk .child (.name (some "n") "b")
        [.binary .eq (.call none "local-name" []) (.literal "b")]])
    (.path true [.descendantOrSelf,
      .mk .child .any [.binary .eq (.call none "namespace-uri" []) (.literal "urn:v")],
      .mk .precedingSibling (.inNamespace "n") [], .mk .attribute .any []])

/-- The documents with the names spelled in one way. -/
def spelledScope (u v : Option String) : Scope where
  docs := #[spelled u v]
  namespaces := [("n", "urn:u")]

theorem evaluate_congr_spelled :
    (spelledScope (some "p") none).docs ≠ (spelledScope none (some "v")).docs ∧
      (spelledScope none (some "v")).evaluate spelledSelection ⟨0, .element 2⟩ =
        .ok (.nodes [⟨0, .element 1⟩, ⟨0, .attribute 1 0⟩]) ∧
      (spelledScope (some "p") none).evaluate spelledSelection ⟨0, .element 2⟩ =
        (spelledScope none (some "v")).evaluate spelledSelection ⟨0, .element 2⟩ := by
  have hdocs : (spelledScope (some "p") none).docs.unprefixed =
      (spelledScope none (some "v")).docs.unprefixed := by
    simp [spelledScope, Documents.unprefixed, spelled, Document.unprefixed, Node.unprefixed,
      NodeKind.mapElement, Element.unprefixed, QName.unprefixed]
  have hlocal : CoreFunction.ofName? "local-name" = some .localName := by decide +kernel
  have huri : CoreFunction.ofName? "namespace-uri" = some .namespaceUri := by decide +kernel
  have hblind : ∀ s : Scope, spelledSelection.EveryCall s.Blind := fun s => by
    simp [spelledSelection, Step.descendantOrSelf, Expr.EveryCall, Step.EveryCallOfAll,
      Step.EveryCall, Expr.EveryCallOfAll, Blind, hlocal, huri]
  refine ⟨fun h => ?_, ?_, evaluate_congr hdocs rfl (hblind _) (hblind _) _⟩
  · have := congrArg (fun docs : Documents => (docs[0]?.bind (·.name? 0)).bind (·.pfx)) h
    exact absurd this (by decide +kernel)
  · cbv

end Scope

end XPath

end LabelTemplate
