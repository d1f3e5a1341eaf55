import LabelTemplate.Template.Deferred
import LabelTemplate.Template.Fill
import LabelTemplate.Xml.ElementPath

/-!
# The walk over a template

The walk resolves a template in place, element by element from the root.  An
element that is bound to several sources is copied once per source; one that
is fetched takes attributes and text of its counterpart in the source, is
copied when there are several counterparts and dropped when there may be
none; one with a count is repeated.  What cannot be decided yet is deferred.

Every copy is made after a directive attribute was removed, so the walk goes
no deeper than the template has nodes and attributes: `depthBound` is enough
fuel for it.
-/

namespace LabelTemplate

open Xml

/-- What a run owns while a template is resolved. -/
structure Engine where
  env : Environment
  deferred : Deferred := {}

/-- Why a walk ends early. -/
inductive WalkFault where
  | failed (e : Error)
  /-- The fuel was spent. -/
  | exhausted

namespace Engine

def template (e : Engine) : Document := e.env.template

def setTemplate (e : Engine) (d : Document) : Engine :=
  { e with env := e.env.setTemplate d }

def mapTemplate (e : Engine) (f : Document → Document) : Engine :=
  e.setTemplate (f e.template)

def fail {α : Type} (fault : NodeFault) (at_ : Location) : Except WalkFault α :=
  .error (.failed (.node fault at_))

/-- How an element below a given state is walked. -/
abbrev Visit := ElementState → NodeId → Engine → Except WalkFault Engine

/-! ## Copies -/

/-- Makes detached copies of a node. -/
def clones (d : Document) (n : NodeId) : (count : Nat) → List NodeId × Document
  | 0 => ([], d)
  | count + 1 =>
    let (copy, d) := d.deepClone n
    let (copies, d) := clones d n count
    (copy :: copies, d)

/-- Inserts nodes one after the other from a position on. -/
def insertAll (d : Document) (parent : NodeId) : (index : Nat) → List NodeId → Document
  | _, [] => d
  | index, n :: ns => insertAll (d.insertChild parent index n) parent (index + 1) ns

/-- Walks the branches of an element, numbered from `i`. -/
def walkBranches (visit : Visit) (parent : ElementState) :
    (i : Nat) → List NodeId → Engine → Except WalkFault Engine
  | _, [], e => .ok e
  | i, n :: ns, e => do
    let e ← visit { parent with multiBranch := some i } n e
    walkBranches visit parent (i + 1) ns e

/-- Puts copies of an element after it and walks all of them as branches,
without the directive that asked for them. -/
def replicate (visit : Visit) (parent : ElementState) (n : NodeId) (copies : Nat) (e : Engine) :
    Except WalkFault Engine :=
  let d := e.template.removeDirective n .multi
  match d.parent? n with
  | none => fail .rootReplicated (d.location n)
  | some container =>
    let index := (d.indexInParent? n).getD 0 + 1
    let (siblings, d) := clones d n copies
    let d := insertAll d container index siblings
    walkBranches visit parent 0 (n :: siblings) (e.setTemplate d)

/-- Inserts an element for each source in turn, each in front of those before
it, and walks it bound to that source.  The primary source gets the element
itself, every other one a copy. -/
def walkSources (visit : Visit) (state : ElementState) (n parent : NodeId) (index : Nat) :
    List XPath.DocKey → Engine → Except WalkFault Engine
  | [], e => .ok e
  | key :: keys, e => do
    let (elem, d) :=
      if some key = state.sources.primary then (n, e.template) else e.template.deepClone n
    let e := e.setTemplate (d.insertChild parent index elem)
    let e ← visit (state.rebindSource key e.env) elem e
    walkSources visit state n parent index keys e

/-- Puts one element per source in place of an element bound to several; the
last source comes first, so that the others go in front of it. -/
def expandSources (visit : Visit) (state : ElementState) (n : NodeId) (e : Engine) :
    Except WalkFault Engine :=
  let d := e.template.removeDirective n .sources
  match d.parent? n with
  | none => fail .rootWithManySources (d.location n)
  | some parent =>
    let index := (d.indexInParent? n).getD 0
    walkSources visit state n parent index state.sources.members.reverse
      (e.setTemplate (d.detach n))

/-! ## Fetching -/

/-- Gives a template element the attributes and the text of an element of
another document. -/
def copyContent (d : Document) (n : NodeId) (source : Document) (m : NodeId) : Document :=
  let d := (source.attributes m).foldl (fun d a => d.setAttribute n a.name a.value) d
  d.setText n (source.text? m)

/-- How a document is called in messages. -/
def sourceFile (d : Document) : String :=
  (d.url.bind Path.fileName?).getD "<unresolved filename>"

/-- The fault of an element that its source lacks. -/
def missingFault (e : Engine) (state : ElementState) (n : NodeId) (source : Document) :
    NodeFault :=
  let t := e.template
  .notInSource ((t.location n).tag.getD "")
    (ClarkNames.withPrefixes e.env.templateNamespaces (ElementPath.display (t.elementPath n)))
    (state.moniker.getD "<unnamed>") (sourceFile source)

/-- Looks an element up in its source.  Gives the engine and whether the
element itself is still to be walked. -/
def fetch (visit : Visit) (parent state : ElementState) (n : NodeId) (e : Engine) :
    Except WalkFault (Bool × Engine) := do
  let t := e.template
  let at_ := t.location n
  let some key := state.sources.primary | fail .noSource at_
  let some source := e.env.docs[key]? | fail .sourceNotLoaded at_
  match source.findAll (t.elementPath n) with
  | [] =>
    if state.required = some true then fail (missingFault e state n source) at_
    else return (false, e.mapTemplate (·.detach n))
  | [m] =>
    if t.hasElementChildren n then return (true, e)
    else return (true, e.mapTemplate (copyContent · n source m))
  | found =>
    match state.multi.expected? with
    | some expected =>
      if expected ≠ found.length then fail (.matchCount found.length expected) at_
    | none => pure ()
    return (false, ← replicate visit parent n (found.length - 1) e)

/-! ## One element -/

/-- What is below an element, or its fill. -/
def walkContent (visit : Visit) (state : ElementState) (n : NodeId) (e : Engine) :
    Except WalkFault Engine := do
  if e.template.hasElementChildren n then
    (e.template.children n).foldlM (fun e c => visit state c e) e
  else if !state.declares .fill then return e
  else if state.defer then return { e with deferred := e.deferred.addFill ⟨state, n⟩ }
  else
    match ← (state.evalFill e.env).mapError .failed with
    | none => return e
    | some v => return e.setTemplate (← (e.template.applyFill n v).mapError .failed)

/-- An element that stays where it is: its content, and then its directives
go. -/
def finishElement (visit : Visit) (state : ElementState) (n : NodeId) (e : Engine) :
    Except WalkFault Engine := do
  let e ← walkContent visit state n e
  return e.mapTemplate (·.stripDirectives n)

/-- An element that is bound to at most one source. -/
def walkElement (visit : Visit) (parent state : ElementState) (n : NodeId) (e : Engine) :
    Except WalkFault Engine := do
  if state.fetch then
    let (stays, e) ← fetch visit parent state n e
    if stays then finishElement visit state n e else return e
  else
    let copies := match state.multi with
      | .count k => k - 1
      | .flag _ => 0
    if copies > 0 then replicate visit parent n copies e
    else if state.declares .required then
      finishElement visit state n { e with deferred := e.deferred.addRequired ⟨state, n⟩ }
    else finishElement visit state n e

/-- Walks a node below a given state, at most `fuel` levels deep. -/
def process : (fuel : Nat) → Visit
  | 0, _, _, _ => .error .exhausted
  | fuel + 1, parent, n, e => do
    if e.template.isComment n then return e
    let state ← (ElementState.resolve e.env parent n).mapError .failed
    if state.sources.secondary.isEmpty then walkElement (process fuel) parent state n e
    else expandSources (process fuel) state n e

/-- More than the number of elements that can be walked inside one another:
each step down goes to a child or removes an attribute. -/
def depthBound (d : Document) : Nat :=
  (List.range d.size).foldr (fun n total => (d.attributes n).length + total) (d.size + 1)

/-- Resolves the whole template. -/
def walk (e : Engine) : Except Error Engine :=
  match process (depthBound e.template) .root e.template.root e with
  | .ok e => .ok e
  | .error (.failed err) => .error err
  | .error .exhausted => .error .unfinished

end Engine

end LabelTemplate
