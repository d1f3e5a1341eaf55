import LabelTemplate.Proofs.Walk.Trees

/-!
# The walk with what it leaves open

A `Draft` is a forest with decisions that are still open: fills that were
deferred, and elements of which it is not settled whether they are required.
An open decision is kept as what it will come to, which is known at once where
no expression reads the template.

`DraftWalk.process` says which draft the walk makes of a tree.  It goes the way
of `TreeWalk.process`, whose results are forests and tell nothing of what was
queued.  The state of an element is resolved on an outline of its tree: nothing
but the element, and whether there are elements inside it, has a part in it.
-/

namespace LabelTemplate

open Xml

/-! ## Drafts -/

/-- What something comes to, without the reason of a failure. -/
abbrev Result (α : Type) := Except TreeWalk.Stop α

/-- What the open decisions about an element will come to: the value of its
fill, and whether it is required. -/
structure Pending where
  fill : Option (Result (Option FillValue)) := none
  required : Option (Result Bool) := none

inductive Draft where
  | nil
  | node (kind : NodeKind) (line : Option Nat) (pending : Pending) (kids rest : Draft)

namespace Draft

def append : Draft → Draft → Draft
  | nil, δ => δ
  | node kind line pending kids rest, δ => node kind line pending kids (rest.append δ)

instance : Append Draft := ⟨append⟩

/-- The forest without what is open. -/
def forest : Draft → Forest
  | nil => .nil
  | node kind line _ kids rest => .node kind line kids.forest rest.forest

/-- A forest with nothing open. -/
def ofForest : Forest → Draft
  | .nil => nil
  | .node kind line kids rest => node kind line {} (ofForest kids) (ofForest rest)

@[simp] theorem nil_append (δ : Draft) : nil ++ δ = δ := rfl

@[simp] theorem node_append (kind : NodeKind) (line : Option Nat) (pending : Pending)
    (kids rest δ : Draft) :
    node kind line pending kids rest ++ δ = node kind line pending kids (rest ++ δ) := rfl

@[simp] theorem append_nil (δ : Draft) : δ ++ nil = δ := by
  induction δ with
  | nil => rfl
  | node kind line pending kids rest _ ih => rw [node_append, ih]

theorem append_assoc (δ ε ζ : Draft) : δ ++ ε ++ ζ = δ ++ (ε ++ ζ) := by
  induction δ with
  | nil => rfl
  | node kind line pending kids rest _ ih => rw [node_append, node_append, node_append, ih]

@[simp] theorem forest_nil : nil.forest = .nil := rfl

@[simp] theorem forest_append (δ ε : Draft) : (δ ++ ε).forest = δ.forest ++ ε.forest := by
  induction δ with
  | nil => rfl
  | node kind line pending kids rest _ ih => rw [node_append, forest, forest, ih, Forest.node_append]

@[simp] theorem forest_ofForest (f : Forest) : (ofForest f).forest = f := by
  induction f with
  | nil => rfl
  | node kind line kids rest ihkids ihrest => rw [ofForest, forest, ihkids, ihrest]

end Draft

namespace Xml

/-- The trees of a forest, each as a forest of its own. -/
def Forest.singles : Forest → List Forest
  | nil => []
  | node kind line kids rest => node kind line kids nil :: rest.singles

/-- The element of a tree with one element inside it, if there was some. -/
def Tree.outline (t : Tree) : Tree :=
  { element := t.element
    line := none
    kids := if t.kids.hasElement then .node (.element { name := .plain "" }) none .nil .nil else .nil }

end Xml

/-! ## The walk -/

namespace DraftWalk

open TreeWalk (quiet)

/-- Where a tree stands: the path of its parent, and how many siblings of each
name stand in front of it and after it. -/
structure Site where
  above : ElementPath
  before : QName → Nat
  after : QName → Nat

/-- The path of an element with a given name that stands there. -/
def Site.path (site : Site) (name : QName) : ElementPath :=
  (TreeWalk.Place.mk site.above (site.before name) (site.after name)).path name

/-- What is left in the place of a tree that is walked below a given state. -/
abbrev Visit := ElementState → Site → Forest → Result Draft

/-- Trees side by side, each with the state above it. -/
abbrev Row := List (ElementState × Forest)

/-- The number of trees in a row whose root is an element of a given name. -/
def Row.named : Row → QName → Nat
  | [], _ => 0
  | (_, f) :: row, name => f.named name + named row name

/-- Walks a row of trees in order, after what has been left of those in front. -/
def walkRow (visit : Visit) (site : Site) : (done : Draft) → Row → Result Draft
  | done, [] => .ok done
  | done, (s, f) :: row => do
    let left ← visit s
      { site with before := fun name => site.before name + done.forest.named name
                  after := fun name => Row.named row name + site.after name } f
    walkRow visit site (done ++ left) row

/-- Copies of a tree as branches, numbered from `i`. -/
def branches (parent : ElementState) (f : Forest) : (i copies : Nat) → Row
  | _, 0 => []
  | i, copies + 1 => ({ parent with multiBranch := some i }, f) :: branches parent f (i + 1) copies

/-- Walks a tree and some copies of it as branches. -/
def replicate (visit : Visit) (parent : ElementState) (site : Site) (t : Tree) (copies : Nat) :
    Result Draft :=
  walkRow visit site .nil
    (branches parent (t.mapElement (·.removeDirective .multi)).forest 0 (copies + 1))

variable (env : Environment)

/-- Walks one copy of a tree per source, each in front of those before it. -/
def walkSources (visit : Visit) (state : ElementState) (site : Site) (f : Forest) :
    List XPath.DocKey → (done : Draft) → Result Draft
  | [], done => .ok done
  | key :: keys, done => do
    let left ← visit (state.rebindSource key env)
      { site with after := fun name => done.forest.named name + site.after name } f
    walkSources visit state site f keys (left ++ done)

/-- Walks one copy of a tree per source of a group. -/
def expandSources (visit : Visit) (state : ElementState) (site : Site) (t : Tree) :
    Result Draft :=
  walkSources env visit state site (t.mapElement (·.removeDirective .sources)).forest
    state.sources.members.reverse .nil

/-- The state of the element on top of a tree. -/
def state (parent : ElementState) (t : Tree) : Result ElementState :=
  quiet (ElementState.resolve (env.setTemplate t.outline.document) parent 0)

/-- Looks an element up in its source, with `again` to walk it and a number of
copies.  Gives either the tree that is still to be walked or what is left of
it. -/
def fetch (path : ElementPath) (again : Nat → Result Draft) (state : ElementState)
    (t : Tree) : Result (Tree ⊕ Draft) := do
  let some key := state.sources.primary | .error .failed
  let some source := env.docs[key]? | .error .failed
  match source.findAll path with
  | [] => if state.required = some true then .error (.missing t.location) else return .inr .nil
  | [m] =>
    if t.kids.hasElement then return .inl t
    else return .inl (t.mapElement (·.takeContent (source.attributes m) (source.text? m)))
  | found =>
    if state.multi.expected?.any (· ≠ found.length) then .error .failed
    else return .inr (← again (found.length - 1))

/-- The text of a leaf after its fill, and its fill if that is deferred. -/
def fill (state : ElementState) (text : Option String) :
    Result (Option String × Option (Result (Option FillValue))) := do
  if !state.declares .fill then return (text, none)
  else if state.defer then return (text, some (quiet (state.evalFill env)))
  else
    match ← quiet (state.evalFill env) with
    | none => return (text, none)
    | some v => return (some (← quiet (v.applyTo (text.getD ""))), none)

/-- An element that stays where it is. -/
def finishElement (visit : Visit) (state : ElementState) (path : ElementPath) (t : Tree)
    (required : Option (Result Bool)) : Result Draft := do
  if t.kids.hasElement then
    let kids ← walkRow visit ⟨path, fun _ => 0, fun _ => 0⟩ .nil (t.kids.singles.map (state, ·))
    return .node (.element t.element.stripDirectives) t.line { required } kids .nil
  else
    let (text, fill) ← fill env state t.element.text
    return .node (.element { t.element.stripDirectives with text }) t.line { fill, required }
      (.ofForest t.kids) .nil

/-- Whether an element is required, where that is left to the export. -/
def required (state : ElementState) : Option (Result Bool) :=
  if state.declares .required then some (quiet ((state.evalRequired env).map (·.1))) else none

/-- An element that is bound to at most one source, with `again` to walk it and
a number of copies. -/
def walkElement (visit : Visit) (path : ElementPath) (again : Nat → Result Draft)
    (state : ElementState) (t : Tree) : Result Draft := do
  if state.fetch then
    match ← fetch env path again state t with
    | .inl t => finishElement env visit state path t none
    | .inr left => return left
  else
    let copies := match state.multi with
      | .count k => k - 1
      | .flag _ => 0
    if copies > 0 then again copies
    else finishElement env visit state path t (required env state)

/-- Walks the tree of a forest of one if it is an element. -/
def onElement (walk : Tree → Result Draft) : Forest → Result Draft
  | .node (.element e) line kids _ => walk ⟨e, line, kids⟩
  | f => .ok (.ofForest f)

/-- Walks a tree below a given state, at most `fuel` levels deep. -/
def process : (fuel : Nat) → Visit
  | 0, _, _ => onElement fun _ => .error .exhausted
  | fuel + 1, parent, site => onElement fun t => do
    let s ← state env parent t
    if s.sources.secondary.isEmpty then
      walkElement env (process fuel) (site.path t.element.name)
        (replicate (process fuel) parent site t) s t
    else expandSources env (process fuel) s site t

/-- Walks the tree of a whole document, of which there can be no copies. -/
def root (fuel : Nat) (t : Tree) : Result Draft := do
  let s ← state env .root t
  if s.sources.secondary.isEmpty then
    walkElement env (process env fuel) [] (fun _ => .error .failed) s t
  else .error .failed

/-! ## Two walks of an element -/

section Related

variable {env} {R : Result Draft → Result Draft → Prop} {visit visit' : Visit} {path : ElementPath}
  {again again' : Nat → Result Draft} {s s' : ElementState} {t t' : Tree}

theorem left_bind {next : Tree ⊕ Draft → Result Draft} (h : ∀ δ, next (.inr δ) = .ok δ)
    (x : Result Draft) : (do let left ← x; return .inr left) >>= next = x := by
  cases x with
  | error stop => rfl
  | ok δ => exact h δ

/-- What is left of an element that its source lacks. -/
def lacking (state : ElementState) (t : Tree) : Result Draft :=
  if state.required = some true then .error (.missing t.location) else .ok .nil

/-- Two walks that see an element alike go the same way from there: what they
leave is related if it is when the element stays, when it is repeated and when
its source lacks it. -/
theorem walkElement_related (herror : ∀ stop stop', R (.error stop) (.error stop'))
    (hlacking : s.fetch = true → R (lacking s t) (lacking s' t')) (hfetch : s'.fetch = s.fetch)
    (hmulti : s'.multi = s.multi) (hprimary : s'.sources.primary = s.sources.primary)
    (hleaf : t'.kids.hasElement = t.kids.hasElement)
    (hagain : ∀ copies, R (again copies) (again' copies))
    (hstays : R (finishElement env visit s path t (required env s))
      (finishElement env visit' s' path t' (required env s')))
    (hfetched : R (finishElement env visit s path t none) (finishElement env visit' s' path t' none))
    (htaken : ∀ attributes text, t.kids.hasElement = false →
      R (finishElement env visit s path (t.mapElement (·.takeContent attributes text)) none)
        (finishElement env visit' s' path (t'.mapElement (·.takeContent attributes text)) none)) :
    R (walkElement env visit path again s t) (walkElement env visit' path again' s' t') := by
  unfold walkElement
  rw [hfetch, hmulti]
  cases hfetches : s.fetch with
  | false =>
    simp only [Bool.false_eq_true, if_false]
    cases s.multi with
    | flag b => exact hstays
    | count k =>
      by_cases hk : k - 1 > 0
      · simp only [hk, if_true]
        exact hagain (k - 1)
      · simp only [hk, if_false]
        exact hstays
  | true =>
    simp only [if_true]
    unfold fetch
    rw [hprimary, hmulti, hleaf]
    cases s.sources.primary with
    | none => exact herror _ _
    | some key =>
      dsimp only
      cases env.docs[key]? with
      | none => exact herror _ _
      | some source =>
        dsimp only
        rcases source.findAll path with - | ⟨m, - | ⟨m', found⟩⟩
        · have hlacking := hlacking hfetches
          unfold lacking at hlacking
          by_cases hneeded : s.required = some true <;>
            by_cases hneeded' : s'.required = some true <;>
              simp only [hneeded, hneeded', if_true, if_false] at hlacking ⊢ <;> exact hlacking
        · dsimp only
          cases hkids : t.kids.hasElement with
          | true => exact hfetched
          | false => exact htaken _ _ hkids
        · dsimp only
          split
          · exact herror _ _
          · rw [left_bind (fun _ => rfl), left_bind (fun _ => rfl)]
            exact hagain _

end Related

end DraftWalk

end LabelTemplate
