import LabelTemplate.Command.Help

/-!
# Carrying out a request

What a command line comes to: an exit code, the lines for both outputs, the
entries of the log and the files afterwards.
-/

namespace LabelTemplate.Command

structure Outcome where
  exitCode : Nat
  /-- What was done on the way; it is told before the output. -/
  log : List String := []
  output : List String := []
  errors : List String := []
  files : Files

/-- The version that the program reports. -/
def programVersion : String := "0.5.0"

/-! ## Reports -/

/-- The lines of a text. -/
def linesOf (text : String) : List String := Text.split '\n' text

/-- The lines of a message, the later ones indented. -/
def indented (first rest : String) (message : String) : List String :=
  match linesOf message with
  | [] => []
  | line :: lines => (first ++ line) :: lines.map (rest ++ ·)

/-- Causes with their numbers, from `n` on. -/
def numbered : (n : Nat) → List String → List String
  | _, [] => []
  | n, message :: messages =>
    indented ("".pushn ' ' (5 - (toString n).length) ++ toString n ++ ": ") "       " message ++
      numbered (n + 1) messages

/-- The report of a failure: its message and under it the causes, which are
numbered if there are several. -/
def Failure.report (f : Failure) : List String :=
  match f.messages with
  | [] => []
  | [message] => linesOf ("Error: " ++ message)
  | [message, cause] =>
    linesOf ("Error: " ++ message) ++ ["", "Caused by:"] ++ indented "    " "    " cause
  | message :: causes => linesOf ("Error: " ++ message) ++ ["", "Caused by:"] ++ numbered 0 causes

/-! ## Requests -/

def Request.inputs : Request → InputArgs
  | .render inputs _ _ => inputs
  | .check inputs => inputs

/-- The run of a request. -/
def Request.run (fs : Files) : Request → Except Failure Run
  | .render inputs out filename => do
    let r ← Run.ofArgs fs inputs
    return { r with out := out <|> r.out, filename := filename <|> r.filename }
  | .check inputs => Run.ofArgs fs inputs

/-- The directory that a run writes into. -/
def Run.directory (r : Run) : String := r.out.getD "."

/-- The paths that a run reads or writes, as far as they are known before. -/
def Run.paths (r : Run) : List String :=
  r.template :: r.directory :: (r.filename.map (Path.join r.directory)).toList ++
    r.sources.flatMap (·.2)

/-- Writes the label of a run and tells where. -/
def Run.writeLabel (r : Run) (clock : Time.Timestamp) : FileTask Failure String := do
  let t ← MonadExcept.ofExcept (r.build (← get) clock)
  EStateM.adaptExcept .notExported (t.exportTo r.directory r.filename)

/-- Checks the label of a run. -/
def Run.checkLabel (r : Run) (fs : Files) (clock : Time.Timestamp) : Except Failure Unit := do
  let t ← r.build fs clock
  discard (t.finalize.mapError .notValid)

/-- What became of a request. -/
inductive Result where
  /-- A label was written to a path. -/
  | written (path : String)
  | valid
  deriving DecidableEq, Repr

namespace Result

def message : Result → String
  | written path => "Wrote " ++ path
  | valid => "Label is valid"

/-- The entries of the log. -/
def log : Result → List String
  | written path => ["label written path=" ++ path]
  | valid => []

end Result

/-- Carries out a request. -/
def Request.perform (request : Request) (clock : Time.Timestamp) : FileTask Failure Result := do
  let r ← MonadExcept.ofExcept (request.run (← get))
  match request with
  | .render _ _ _ => return .written (← r.writeLabel clock)
  | .check _ =>
    MonadExcept.ofExcept (r.checkLabel (← get) clock)
    return .valid

/-- What the program does for its arguments. -/
def execute (fs : Files) (clock : Time.Timestamp) (args : List String) : Outcome :=
  match Request.ofArgs args with
  | .error (.fault f) =>
    { exitCode := 2, files := fs
      errors := linesOf ("error: " ++ f.message) ++
        ["", "For more information, try '--help'."] }
  | .error .nothing => { exitCode := 2, files := fs, errors := helpLines none }
  | .error (.help topic) => { exitCode := 0, files := fs, output := helpLines topic }
  | .error .version => { exitCode := 0, files := fs, output := [s!"pt {programVersion}"] }
  | .ok request =>
    match (request.perform clock).run fs with
    | .ok result files =>
      { exitCode := 0, log := result.log, output := linesOf result.message, files }
    | .error f files => { exitCode := 1, errors := f.report, files }

end LabelTemplate.Command
