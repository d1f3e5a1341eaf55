import LabelTemplate.Command.Config
import LabelTemplate.Template.Build

/-!
# Runs

A run is what the command line asks for, laid over a configuration file if
one is named.  Given values of a moniker or of a context key replace those of
the file.
-/

namespace LabelTemplate.Command

/-- The inputs that both commands take. -/
structure InputArgs where
  template : Option String := none
  /-- Pairs of a moniker and a path. -/
  sources : List String := []
  /-- Pairs of a key and a value. -/
  context : List String := []
  keepComments : Bool := false
  skipStructureCheck : Bool := false
  noTemplateSource : Bool := false
  config : Option String := none
  deriving DecidableEq, Repr

structure Run where
  template : String
  sources : List (String × List String)
  context : ContextMap
  out : Option String := none
  filename : Option String := none
  keepComments : Bool := false
  skipStructureCheck : Bool := false
  noTemplateSource : Bool := false

/-! ## Failures -/

inductive Failure where
  | noTemplate
  | badPair (option pair : String)
  | unreadableConfig (path : String) (fault : IoFault)
  | badConfig (path : String) (e : JsonError)
  | unresolved (template : String) (e : Error)
  | notExported (e : Error)
  | notValid (e : Error)

/-- What lies behind an error and has a message of its own. -/
def causes : Error → List String
  | .io fault => [fault.message]
  | _ => []

/-- The messages of a failure, each the cause of the one before. -/
def Failure.messages : Failure → List String
  | noTemplate => ["no template given; pass --template or set \"template\" in the run config"]
  | badPair option pair => [s!"{option} expects KEY=VALUE, got '{pair}'"]
  | unreadableConfig path fault => [s!"failed to read run config {path}", fault.message]
  | badConfig path e => [s!"invalid run config {path}", e.message]
  | unresolved template e => s!"failed to resolve {template}" :: e.message :: causes e
  | notExported e => "label export failed" :: e.message :: causes e
  | notValid e => "label check failed" :: e.message :: causes e

namespace Run

/-! ## Pairs -/

/-- A pair around the first equals sign; the key must not be blank. -/
def splitPair (option pair : String) : Except Failure (String × String) :=
  match Text.splitOnce '=' pair with
  | some (key, value) =>
    let key := Text.trim key
    if key.isEmpty then .error (.badPair option pair) else .ok (key, value)
  | none => .error (.badPair option pair)

/-- Adds a path to the group of a moniker. -/
def addPath (moniker path : String) : List (String × List String) → List (String × List String)
  | [] => [(moniker, [path])]
  | (m, paths) :: rest =>
    if m = moniker then (m, paths ++ [path]) :: rest else (m, paths) :: addPath moniker path rest

/-- The sources of a configuration without the given monikers, and then the
given ones in the order in which they first occur. -/
def mergeSources (configured : List (String × List String)) (given : List (String × String)) :
    List (String × List String) :=
  let kept := configured.filter fun (m, _) => !(given.any fun (g, _) => g == m)
  kept ++ given.foldl (fun groups (moniker, path) => addPath moniker path groups) []

/-- A value of the context: JSON if it can be read as such, else a text. -/
def contextEntry (text : String) : JsonValue :=
  match JsonValue.read text with
  | .ok v => v
  | .error _ => .string text

/-! ## Merging -/

/-- The configuration file that the arguments name. -/
def loadConfig (fs : Files) (args : InputArgs) : Except Failure RunConfig := do
  match args.config with
  | none => return {}
  | some path =>
    let text ← (fs.readText path).mapError (.unreadableConfig path)
    let config ← (RunConfig.read text).mapError (.badConfig path)
    return match Path.parent? path with
      | some directory => config.rebase directory
      | none => config

/-- Lays arguments over a configuration. -/
def merge (config : RunConfig) (args : InputArgs) : Except Failure Run := do
  let some template := args.template <|> config.template | throw .noTemplate
  let sources ← args.sources.mapM (splitPair "--source")
  let context ← args.context.mapM (splitPair "--context")
  return {
    template
    sources := mergeSources config.sources sources
    context := context.foldl (fun m (key, v) => Text.insertByKey key (contextEntry v) m)
      config.context
    out := config.out
    filename := config.filename
    keepComments := args.keepComments || config.keepComments
    skipStructureCheck := args.skipStructureCheck || config.skipStructureCheck
    noTemplateSource := args.noTemplateSource || config.noTemplateSource }

/-- The run that arguments ask for. -/
def ofArgs (fs : Files) (args : InputArgs) : Except Failure Run := do
  merge (← loadConfig fs args) args

/-- What the template of a run is built from. -/
def input (r : Run) (clock : Time.Timestamp) : TemplateInput :=
  { template := some (.path r.template)
    sources := r.sources.map fun (moniker, paths) => ⟨moniker, paths.map .path⟩
    context := r.context
    clock
    options :=
      { includeTemplateSource := !r.noTemplateSource
        keepTemplateComments := r.keepComments
        skipStructureCheck := r.skipStructureCheck } }

def build (r : Run) (fs : Files) (clock : Time.Timestamp) : Except Failure Template :=
  (Template.build fs (r.input clock)).mapError (.unresolved r.template)

end Run

end LabelTemplate.Command
