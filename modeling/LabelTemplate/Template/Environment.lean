import LabelTemplate.Json.Value
import LabelTemplate.Template.Names
import LabelTemplate.Template.Sources
import LabelTemplate.Time.Timestamp

/-!
# What expressions can see

An environment holds what every expression of a run can reach: the documents,
the groups of sources, the values that the client supplied and the extension
functions.  An extension function is also told the template element whose
directive is evaluated and the source it is bound to, and it can evaluate
further expressions against either.
-/

namespace LabelTemplate

open Xml XPath

/-- Client values by key. -/
abbrev ContextMap := List (String × JsonValue)

/-- What an extension function sees of the resolution in progress. -/
structure ExtensionCall where
  docs : Documents
  context : ContextMap
  clock : Time.Timestamp
  /-- The template element whose directive is evaluated. -/
  element : NodeId
  /-- The primary source that the element is bound to. -/
  source : Option DocKey
  /-- Where in an expression the function is called. -/
  site : CallContext
  args : List Value
  /-- Evaluates an expression against the template. -/
  evalTemplate : String → Except Error Value
  /-- Evaluates an expression against the primary source. -/
  evalSource : String → Except Error Value

namespace ExtensionCall

def template (c : ExtensionCall) : Document := c.docs.getD templateKey (.ofRoot (.plain ""))

/-- Where the current template element stands, for messages. -/
def location (c : ExtensionCall) : Location := c.template.location c.element

def fail {α : Type} (c : ExtensionCall) (fault : NodeFault) : Except Error α :=
  .error (.node fault c.location)

end ExtensionCall

abbrev Extension := ExtensionCall → Except Error Value

/-- Extension functions by prefix and name. -/
abbrev Registry := List ((String × String) × Extension)

namespace Registry

/-- Adds a function, replacing an earlier one of the same name. -/
def register (r : Registry) (pfx name : String) (f : Extension) : Registry :=
  ((pfx, name), f) :: r.filter (·.1 != (pfx, name))

/-- The names of the functions with their prefixes, sorted. -/
def names (r : Registry) : List String :=
  Text.sort (r.map fun ((p, n), _) => p ++ ":" ++ n)

end Registry

structure Environment where
  docs : Documents
  sources : SourceMap := []
  registry : Registry := []
  context : ContextMap := []
  /-- The time at which the run takes place. -/
  clock : Time.Timestamp := .epoch
  /-- The prefixes bound in expressions on the template. -/
  templateNamespaces : Namespaces := []
  /-- The prefix that the default namespace of a document is bound to. -/
  defaultPrefix : String := "pds"

namespace Environment

def template (env : Environment) : Document :=
  env.docs.getD templateKey (.ofRoot (.plain ""))

def setTemplate (env : Environment) (d : Document) : Environment :=
  { env with docs := env.docs.setIfInBounds templateKey d }

/-- How deeply extension functions can be nested in expressions that other
extension functions evaluate.  The bound lets the recursion end; only texts
that evaluate one another in a circle come to it. -/
def nestingLimit : Nat := 100000

/-- The library of registered functions as seen from a template element; the
functions can evaluate further expressions down to `depth` levels. -/
def library (env : Environment) (element : NodeId) (source : Option DocKey) :
    (depth : Nat) → Library
  | 0 => fun _ => some (.error (.evaluation (.other "extension calls are nested too deeply")))
  | depth + 1 => fun call =>
    (env.registry.lookup (call.pfx, call.name)).map fun f =>
      let evalIn (namespaces : Namespaces) (key : DocKey) (text : String) :
          Except Error Value := do
        let e ← (Expr.parse text).mapError .expression
        let library := env.library element source depth
        let scope : XPath.Scope := { docs := env.docs, namespaces, library }
        scope.evaluate e ⟨key, .document⟩
      f { docs := env.docs
          context := env.context
          clock := env.clock
          element, source
          site := call.context
          args := call.args
          evalTemplate := evalIn env.templateNamespaces templateKey
          evalSource := fun text => do
            let key := source.getD templateKey
            match env.docs[key]? with
            | none => .error (.evaluation (.noDocument key))
            | some d => evalIn (expressionNamespaces d env.defaultPrefix) key text }

/-- Evaluates an expression at a node, on behalf of a template element that
is bound to a source. -/
def evaluate (env : Environment) (e : Expr) (namespaces : Namespaces) (node : Handle)
    (element : NodeId) (source : Option DocKey) : Except Error Value :=
  let scope : XPath.Scope :=
    { docs := env.docs, namespaces, library := env.library element source nestingLimit }
  scope.evaluate e node

/-- Evaluates an expression against the template. -/
def evaluateTemplate (env : Environment) (text : String) (element : NodeId) :
    Except Error Value := do
  let e ← (Expr.parse text).mapError .expression
  env.evaluate e env.templateNamespaces ⟨templateKey, .document⟩ element none

/-- The document node of a document. -/
def sourceRoot (env : Environment) (key : DocKey) : Except Error Handle :=
  if key < env.docs.size then .ok ⟨key, .document⟩
  else .error (.evaluation (.noDocument key))

end Environment

end LabelTemplate
