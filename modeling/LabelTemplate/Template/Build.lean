import LabelTemplate.Template.Builtins
import LabelTemplate.Template.Export

/-!
# Templates

`Template.build` loads a template document and its sources and walks it; what
comes out can be looked at and edited before `finalize` makes a label of it
or `exportTo` writes one.
-/

namespace LabelTemplate

open Xml

/-- The field that an exported file is named after. -/
def identifierExpression : String := "//pds:Identification_Area/pds:logical_identifier"

structure TemplateOptions where
  /-- Whether the template itself can be a source. -/
  includeTemplateSource : Bool := true
  keepTemplateComments : Bool := false
  skipStructureCheck : Bool := false
  /-- The prefix of a document's default namespace in expressions. -/
  defaultPrefix : String := "pds"
  identifier : String := identifierExpression
  deriving DecidableEq, Repr

/-- What a template is built from. -/
structure TemplateInput where
  template : Option SourceInput := none
  sources : List SourceSpec := []
  context : ContextMap := []
  registry : Registry := Builtins.registry
  clock : Time.Timestamp := .epoch
  options : TemplateOptions := {}

/-- A resolved template that waits to be exported. -/
structure Template where
  exporter : Exporter
  options : TemplateOptions

namespace Template

def document (t : Template) : Document := t.exporter.document

def environment (t : Template) : Environment := t.exporter.engine.env

def mapDocument (t : Template) (f : Document → Document) : Template :=
  { t with exporter.engine := t.exporter.engine.mapTemplate f }

/-- The template document of an input. -/
def loadTemplate (fs : Files) (input : TemplateInput) : Except Error Document := do
  let d ← match input.template with
    | some (.path p) => Document.ofFile fs p
    | some (.document d) => pure d
    | none => throw (.sources .noTemplate)
  return if input.options.keepTemplateComments then d else d.stripComments

/-- Loads everything and walks the template. -/
def build (fs : Files) (input : TemplateInput) : Except Error Template := do
  let options := input.options
  let d ← loadTemplate fs input
  let (sources, docs) ← SourceMap.build fs d input.sources options.includeTemplateSource
  let env : Environment :=
    { docs, sources
      registry := input.registry
      context := input.context
      clock := input.clock
      templateNamespaces := expressionNamespaces d options.defaultPrefix
      defaultPrefix := options.defaultPrefix }
  let engine ← Engine.walk { env }
  let snapshot := if options.skipStructureCheck then none else some engine.template
  return { exporter := { engine, snapshot }, options }

/-- The elements of the template that an expression selects. -/
def select (t : Template) (text : String) : Except Error (List NodeId) := do
  match ← t.environment.evaluateTemplate text t.document.root with
  | .nodes hs => return hs.filterMap fun h => if h.doc = templateKey then h.element? else none
  | v => throw (.evaluation (.selectsNonNodes text v.typeName))

/-- The label of a template, if it passes the checks. -/
def finalize (t : Template) : Except Error Document := do
  let x ← t.exporter.finish
  return x.document.cleanupNamespaces

/-- Writes the label of a template into a directory, if it passes the checks,
and gives its path. -/
def exportTo (t : Template) (directory : String) (name : Option String) :
    FileTask Error String := do
  let x ← MonadExcept.ofExcept t.exporter.finish
  x.write directory name t.options.identifier

end Template

end LabelTemplate
