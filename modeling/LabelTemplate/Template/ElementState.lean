import LabelTemplate.Template.Declarations
import LabelTemplate.Template.Environment
import LabelTemplate.Text.Quoted

/-!
# The state of an element

What the directives of an element and of its ancestors come to.  A state is
resolved from that of the parent: some directives are inherited, the declared
ones are evaluated in order against the primary source, and the result is
checked.

The value of an expression is conformed to the types that its directive
takes.  A node gives its text where a string is wanted; several values are
wanted only by `fill`, which takes one of them if a branch is set and else
all.
-/

namespace LabelTemplate

open Xml XPath

/-- How often an element may occur in its source, or how often it is
repeated. -/
inductive Multi where
  | flag (b : Bool)
  | count (n : Nat)
  deriving DecidableEq, Repr

namespace Multi

/-- The number of matches that is wanted; none for any number. -/
def expected? : Multi → Option Nat
  | flag true => none
  | flag false => some 0
  | count n => some n

def display : Multi → String
  | flag b => if b then "true" else "false"
  | count n => toString n

end Multi

/-- What `fill` writes into a text. -/
inductive FillValue where
  | single (s : String)
  | many (values : List String)
  deriving DecidableEq, Repr

/-- A value of a type that a directive takes. -/
inductive Conformed where
  | boolean (b : Bool)
  | integer (n : Nat)
  | text (s : String)
  | texts (values : List String)
  deriving DecidableEq, Repr

structure ElementState where
  sources : SourceGroup := .empty
  /-- The moniker that the sources were bound under. -/
  moniker : Option String := none
  fetch : Bool := false
  multi : Multi := .flag false
  /-- Nothing while the decision is left to the export. -/
  required : Option Bool := some true
  defer : Bool := false
  multiBranch : Option Nat := none
  reorder : Bool := false
  declared : Declarations := []
  namespaces : Namespaces := []
  node : Option NodeId := none
  deriving Repr

namespace ElementState

/-- The state above the root of a template. -/
def root : ElementState := {}

def declares (s : ElementState) (d : Directive) : Bool := s.declared.declares d

/-- A directive as declared on the element, for messages. -/
def declaration (s : ElementState) (d : Directive) : Declared :=
  ⟨d, (s.declared.expression? d).getD ""⟩

def location (s : ElementState) (env : Environment) : Location :=
  match s.node with
  | some n => env.template.location n
  | none => {}

def fail {α : Type} (s : ElementState) (env : Environment) (fault : NodeFault) :
    Except Error α :=
  .error (.node fault (s.location env))

/-- Binds the prefixes of a document's root. -/
def bindNamespaces (s : ElementState) (env : Environment) (key : Option DocKey) :
    ElementState :=
  match key.bind (env.docs[·]?) with
  | some d => { s with namespaces := expressionNamespaces d env.defaultPrefix }
  | none => s

/-- Points the state at one document; the moniker stays. -/
def rebindSource (s : ElementState) (key : DocKey) (env : Environment) : ElementState :=
  { s with sources := .single key }.bindNamespaces env (some key)

/-! ## Conforming values -/

/-- A list of texts as it is shown in messages. -/
def showTexts (values : List String) : String :=
  "Texts([" ++ ", ".intercalate (values.map Text.quoted) ++ "])"

def showConformed : Conformed → String
  | .boolean b => "Boolean(" ++ (if b then "true" else "false") ++ ")"
  | .integer n => s!"Integer({n})"
  | .text s => "Text(" ++ Text.quoted s ++ ")"
  | .texts values => showTexts values

variable (s : ElementState) (env : Environment) (d : Directive)

def notCastable {α : Type} (shown : String) : Except Error α :=
  s.fail env (.notCastable (s.declaration d) shown)

/-- A node gives its own text if it is an element, else its string-value. -/
def conformNode (h : Handle) : Except Error Conformed :=
  if !d.types.string then s.notCastable env d s!"node '{stringValue env.docs h}'"
  else
    match h.node with
    | .element id => .ok (.text ((env.docs[h.doc]?.bind (·.text? id)).getD ""))
    | _ => .ok (.text (stringValue env.docs h))

/-- A value that is neither a node-set nor a sequence. -/
def conformScalar (v : Value) : Except Error Conformed :=
  let refuse : Except Error Conformed :=
    s.notCastable env d s!"'{v.toText env.docs}' of type {v.typeName}"
  match v with
  | .boolean b =>
    if d.types.boolean then .ok (.boolean b)
    else if d.types.string then .ok (.text (v.toText env.docs))
    else refuse
  | .number x =>
    if d.types.integer then
      if Number.isNaN x || x < 0.0 then s.fail env (.negativeNumber (s.declaration d) x)
      else .ok (.integer (Number.toWord x))
    else if d.types.string then .ok (.text (Number.formatNumber x))
    else refuse
  | .string t => if d.types.string then .ok (.text t) else refuse
  | _ => refuse

/-- The texts of a list of conformed values. -/
def allTexts : List (Except Error Conformed) → Except Error (List String)
  | [] => .ok []
  | item :: items => do
    match ← item with
    | .text t => return t :: (← allTexts items)
    | other => s.notCastable env d (showConformed other)

/-- Conforms several values, given what each conforms to. -/
def conformItems (items : List (Except Error Conformed)) : Except Error Conformed :=
  match items with
  | [] => s.fail env (.emptyNodeSet (s.declaration d))
  | [item] => item
  | _ =>
    if d ≠ .fill then s.fail env (.multipleResults (s.declaration d) items.length)
    else
      match s.multiBranch with
      | some branch =>
        match items[branch]? with
        | some item => item
        | none => s.fail env (.noBranchResult (s.declaration d) items.length branch)
      | none => (s.allTexts env d items).map .texts

mutual

/-- Conforms a value to the types that a directive takes. -/
def conform : Value → Except Error Conformed
  | .nodes hs => s.conformItems env d (hs.map (s.conformNode env d))
  | .sequence items => s.conformItems env d (conformAll items)
  | v => s.conformScalar env d v

def conformAll : List Value → List (Except Error Conformed)
  | [] => []
  | v :: vs => conform v :: conformAll vs

end

/-! ## Evaluating directives -/

/-- Gives an error of an expression the place of the element, unless it has
one. -/
def placeError (e : Error) : Error :=
  match e.location? with
  | some _ => e
  | none => .inExpression (s.declaration d) e (s.location env)

/-- Evaluates a declared expression at the document node of the primary
source and conforms its value. -/
def evaluateExpression : Except Error Conformed := do
  let some source := s.sources.primary | s.fail env .noSource
  let place := s.placeError env d
  let e ← ((Expr.parse (s.declaration d).expression).mapError .expression).mapError place
  let element := s.node.getD env.template.root
  let v ← (env.evaluate e s.namespaces ⟨source, .document⟩ element (some source)).mapError place
  s.conform env d v

/-- Binds the group of the declared moniker. -/
def bindSources : Except Error ElementState :=
  let moniker := (s.declaration .sources).expression
  match env.sources.group? moniker with
  | none => s.fail env (.unknownMoniker moniker)
  | some g => .ok { s.bindNamespaces env g.primary with sources := g, moniker := some moniker }

/-- Evaluates a directive and stores its value. -/
def store : Except Error ElementState := do
  let v ← s.evaluateExpression env d
  match d, v with
  | .fetch, .boolean b => return { s with fetch := b }
  | .required, .boolean b => return { s with required := some b }
  | .defer, .boolean b => return { s with defer := b }
  | .reorder, .boolean b => return { s with reorder := b }
  | .multi, .boolean b => return { s with multi := .flag b }
  | .multi, .integer n => return { s with multi := .count n }
  | .multiBranch, .integer n => return { s with multiBranch := some n }
  | _, other => s.notCastable env d (showConformed other)

/-- Resolves one declared directive.  A fill waits until the element is
processed, and whether an element is required waits until the export where
nothing is fetched. -/
def resolveDirective : Except Error ElementState :=
  match d with
  | .sources => s.bindSources env
  | .fill => .ok s
  | .required => if s.fetch then s.store env .required else .ok { s with required := none }
  | _ => s.store env d

/-- Evaluates the declared fill. -/
def evalFill : Except Error (Option FillValue) := do
  if !s.declares .fill then return none
  match ← s.evaluateExpression env .fill with
  | .text t => return some (.single t)
  | .texts values => return some (.many values)
  | other => s.notCastable env .fill (showConformed other)

/-- Evaluates whether the element is required, and gives the state that
knows. -/
def evalRequired : Except Error (Bool × ElementState) := do
  let s ← if s.declares .required then s.store env .required else pure s
  return (s.required.getD false, s)

/-! ## Resolving a state -/

/-- True when an element's name starts with a capital letter. -/
def isClassName (name : QName) : Bool :=
  match name.localName.toList with
  | c :: _ => isUppercase c
  | [] => false

/-- Refuses combinations of directives that make no sense. -/
def validate (parent : ElementState) (n : NodeId) : Except Error Unit := do
  let t := env.template
  let refuse (fault : NodeFault) : Except Error Unit := .error (.node fault (t.location n))
  if s.required = some true ∧ parent.required = some false then refuse .requiredBelowUnrequired
  if s.defer && !s.declares .fill then refuse .deferWithoutFill
  if s.declares .fill && t.hasElementChildren n then refuse .fillOnClass
  if !s.fetch then
    if s.reorder then refuse .reorderOutsideFetch
    match s.multi with
    | .flag true => refuse .multiOutsideFetch
    | .flag false => pure ()
    | .count k => if !s.sources.secondary.isEmpty then refuse (.multiWithManySources k)
  if (t.name? n).any isClassName && !t.hasElementChildren n && s.declared.isEmpty then
    refuse .stub

/-- What an element takes from its parent before its own directives count. -/
def inherit (parent : ElementState) (n : NodeId) (declared : Declarations) : ElementState :=
  { sources := parent.sources
    moniker := parent.moniker
    fetch := parent.fetch
    required := parent.required
    multiBranch := parent.multiBranch
    namespaces := parent.namespaces
    declared
    node := some n }

/-- Resolves the state of a template element below a parent state. -/
def resolve (parent : ElementState) (n : NodeId) : Except Error ElementState := do
  let declared ← env.template.declarations n
  let s := inherit parent n declared
  if !declared.isEmpty && !declared.declares .sources && s.sources.isEmpty then
    s.fail env .noSource
  let s ← declared.foldlM (fun s d => s.resolveDirective env d.directive) s
  s.validate env parent n
  return s

end ElementState

end LabelTemplate
