import LabelTemplate.Proofs.Reading.Frames
import LabelTemplate.Template.Walk

/-!
# The walk on trees

The walk changes an arena in place.  What it leaves in the place of one
element can be said without the arena: it is a function of the element's
tree, of the state above it and of where it stands, as far as element paths
tell.  `TreeWalk.process` is that function, and `TreeWalk.readsAs_process`
says that the walk computes it.

The function follows the walk step by step; only the reasons of failures are
left out, and the template itself, which no expression may read then.
-/

namespace LabelTemplate

open Xml

namespace Xml

/-! ## Trees -/

/-- An element and what is below it. -/
structure Tree where
  element : Element
  line : Option Nat
  kids : Forest
  deriving DecidableEq, Repr

namespace Forest

/-- The number of roots that are elements with the expanded name of `name`. -/
def named (name : QName) : Forest → Nat
  | nil => 0
  | node kind _ _ rest =>
    (if kind.element?.any (·.name.hasName name.namespaceUri name.localName) then 1 else 0) +
      rest.named name

/-- True when some root is an element. -/
def hasElement : Forest → Bool
  | nil => false
  | node kind _ _ rest => kind.isElement || rest.hasElement

@[simp] theorem named_nil (name : QName) : nil.named name = 0 := rfl

@[simp] theorem named_append (name : QName) (f g : Forest) :
    (f ++ g).named name = f.named name + g.named name := by
  induction f with
  | nil => simp
  | node kind line kids rest _ ih =>
    simp only [node_append, named, ih]
    omega

@[simp] theorem hasElement_append (f g : Forest) :
    (f ++ g).hasElement = (f.hasElement || g.hasElement) := by
  induction f with
  | nil => simp [hasElement]
  | node kind line kids rest _ ih => simp only [node_append, hasElement, ih, Bool.or_assoc]

end Forest

namespace Element

/-- The element without the first attribute that declares a directive. -/
def removeDirective (e : Element) (directive : Directive) : Element :=
  e.removeAttribute (some directiveNamespace) directive.name

/-- The element without directive attributes. -/
def stripDirectives (e : Element) : Element :=
  { e with attributes := e.attributes.filter (!isDirectiveAttribute ·) }

/-- The element with the attributes of another one set, one after the other,
and with a given text. -/
def takeContent (e : Element) (attributes : List Attribute) (text : Option String) : Element :=
  { attributes.foldl (fun e a => e.setAttribute a.name a.value) e with text }

theorem name_takeContent (e : Element) (as : List Attribute) (text : Option String) :
    (e.takeContent as text).name = e.name := by
  have hname : (as.foldl (fun e a => e.setAttribute a.name a.value) e).name = e.name := by
    induction as generalizing e with
    | nil => rfl
    | cons a as ih => exact ih _
  exact hname

end Element

namespace Tree

def forest (t : Tree) : Forest := .node (.element t.element) t.line t.kids .nil

/-- The document of a tree alone. -/
def document (t : Tree) : Document := .ofForest t.forest

def mapElement (f : Element → Element) (t : Tree) : Tree := { t with element := f t.element }

/-- Where the element on top of a tree stands, for messages. -/
def location (t : Tree) : Location := ⟨some t.element.name.localName, t.line⟩

end Tree

end Xml

namespace TreeWalk

/-- Why a walk ends early, without the reason of a failure. -/
inductive Stop where
  | failed
  /-- An element that is required is not in its source.  Only drafts tell this
  apart from other failures. -/
  | missing (at_ : Location)
  | exhausted
  deriving DecidableEq, Repr

/-- Where a tree stands: the path of its parent, and how many siblings of its
name stand in front of it and after it. -/
structure Place where
  above : ElementPath
  before : Nat
  after : Nat

/-- The path of an element with a given name that stands there. -/
def Place.path (p : Place) (name : QName) : ElementPath :=
  p.above ++
    [{ namespaceUri := name.namespaceUri
       localName := name.localName
       index := if p.before + p.after = 0 then none else some (p.before + 1) }]

/-- What is left in the place of a tree that is walked below a given state. -/
abbrev Visit := ElementState → Place → Tree → Except Stop Forest

/-- Forgets why something fails. -/
def quiet {ε α : Type} (x : Except ε α) : Except Stop α := x.mapError fun _ => .failed

/-- Walks the children of an element in order, after what has been left of
those in front. -/
def walkKids (visit : Visit) (state : ElementState) (above : ElementPath) :
    (done : Forest) → Forest → Except Stop Forest
  | done, .nil => .ok done
  | done, .node (.comment text) line kids rest =>
    walkKids visit state above (done ++ .node (.comment text) line kids .nil) rest
  | done, .node (.element e) line kids rest => do
    let left ← visit state ⟨above, done.named e.name, rest.named e.name⟩ ⟨e, line, kids⟩
    walkKids visit state above (done ++ left) rest

/-- Walks copies of a tree as branches, numbered from `i`. -/
def walkCopies (visit : Visit) (parent : ElementState) (place : Place) (t : Tree) :
    (i copies : Nat) → (done : Forest) → Except Stop Forest
  | _, 0, done => .ok done
  | i, copies + 1, done => do
    let left ← visit { parent with multiBranch := some i }
      { place with before := place.before + done.named t.element.name
                   after := copies + place.after } t
    walkCopies visit parent place t (i + 1) copies (done ++ left)

/-- Walks a tree and some copies of it as branches. -/
def replicate (visit : Visit) (parent : ElementState) (place : Place) (t : Tree)
    (copies : Nat) : Except Stop Forest :=
  walkCopies visit parent place (t.mapElement (·.removeDirective .multi)) 0 (copies + 1) .nil

variable (env : Environment)

/-- Walks one copy of a tree per source, each in front of those before it. -/
def walkSources (visit : Visit) (state : ElementState) (place : Place) (t : Tree) :
    List XPath.DocKey → (done : Forest) → Except Stop Forest
  | [], done => .ok done
  | key :: keys, done => do
    let left ← visit (state.rebindSource key env)
      { place with after := done.named t.element.name + place.after } t
    walkSources visit state place t keys (left ++ done)

/-- Walks one copy of a tree per source of a group. -/
def expandSources (visit : Visit) (state : ElementState) (place : Place) (t : Tree) :
    Except Stop Forest :=
  walkSources env visit state place (t.mapElement (·.removeDirective .sources))
    state.sources.members.reverse .nil

/-- The state of the element on top of a tree. -/
def state (parent : ElementState) (t : Tree) : Except Stop ElementState :=
  quiet (ElementState.resolve (env.setTemplate t.document) parent 0)

/-- Looks an element up in its source.  Gives either the tree that is still to
be walked or what is left of it. -/
def fetch (visit : Visit) (parent state : ElementState) (place : Place) (t : Tree) :
    Except Stop (Tree ⊕ Forest) := do
  let some key := state.sources.primary | .error .failed
  let some source := env.docs[key]? | .error .failed
  match source.findAll (place.path t.element.name) with
  | [] => if state.required = some true then .error .failed else return .inr .nil
  | [m] =>
    if t.kids.hasElement then return .inl t
    else return .inl (t.mapElement (·.takeContent (source.attributes m) (source.text? m)))
  | found =>
    if state.multi.expected?.any (· ≠ found.length) then .error .failed
    else return .inr (← replicate visit parent place t (found.length - 1))

/-- What is below an element, or its fill. -/
def walkContent (visit : Visit) (state : ElementState) (place : Place) (t : Tree) :
    Except Stop Tree := do
  if t.kids.hasElement then
    return { t with kids := ← walkKids visit state (place.path t.element.name) .nil t.kids }
  else if !state.declares .fill || state.defer then return t
  else
    match ← quiet (state.evalFill (env.setTemplate t.document)) with
    | none => return t
    | some v =>
      let text ← quiet (v.applyTo (t.element.text.getD ""))
      return t.mapElement ({ · with text := some text })

/-- An element that stays where it is. -/
def finishElement (visit : Visit) (state : ElementState) (place : Place) (t : Tree) :
    Except Stop Forest := do
  return ((← walkContent env visit state place t).mapElement (·.stripDirectives)).forest

/-- An element that is bound to at most one source. -/
def walkElement (visit : Visit) (parent state : ElementState) (place : Place) (t : Tree) :
    Except Stop Forest := do
  if state.fetch then
    match ← fetch env visit parent state place t with
    | .inl t => finishElement env visit state place t
    | .inr left => return left
  else
    let copies := match state.multi with
      | .count k => k - 1
      | .flag _ => 0
    if copies > 0 then replicate visit parent place t copies
    else finishElement env visit state place t

/-- Walks a tree below a given state, at most `fuel` levels deep. -/
def process : (fuel : Nat) → Visit
  | 0, _, _, _ => .error .exhausted
  | fuel + 1, parent, place, t => do
    let s ← state env parent t
    if s.sources.secondary.isEmpty then walkElement env (process fuel) parent s place t
    else expandSources env (process fuel) s place t

end TreeWalk

end LabelTemplate
