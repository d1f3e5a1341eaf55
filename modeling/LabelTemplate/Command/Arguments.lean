import LabelTemplate.Command.Run
import LabelTemplate.Text.ControlSequence

/-!
# Command-line arguments

The two commands, their options and the faults of their use.  An option's
value can be attached to it or be the next argument; short options without a
value can share one dash.  An option that still waits for its value is settled
when the next known option or the end of the line comes, so that an unknown
argument is reported before a missing value in front of it.
-/

namespace LabelTemplate.Command

/-! ## Options -/

inductive Flag where
  | template
  | source
  | context
  | keepComments
  | skipStructureCheck
  | noTemplateSource
  | config
  | out
  | filename
  | verbose
  | help
  | version
  deriving DecidableEq, Repr

namespace Flag

def long : Flag → String
  | template => "template"
  | source => "source"
  | context => "context"
  | keepComments => "keep-comments"
  | skipStructureCheck => "skip-structure-check"
  | noTemplateSource => "no-template-source"
  | config => "config"
  | out => "out"
  | filename => "filename"
  | verbose => "verbose"
  | help => "help"
  | version => "version"

def short? : Flag → Option Char
  | template => some 't'
  | source => some 's'
  | context => some 'c'
  | out => some 'o'
  | verbose => some 'v'
  | help => some 'h'
  | version => some 'V'
  | _ => none

/-- What the value of an option is called; nothing for one without a value. -/
def valueName? : Flag → Option String
  | template => some "TEMPLATE"
  | source => some "MONIKER=PATH"
  | context => some "KEY=VALUE"
  | config => some "CONFIG"
  | out => some "OUT"
  | filename => some "FILENAME"
  | _ => none

def takesValue (f : Flag) : Bool := f.valueName?.isSome

/-- Options that can be given more than once. -/
def isRepeatable : Flag → Bool
  | source | context => true
  | _ => false

/-- Options whose value is a path, which is never empty. -/
def takesPath : Flag → Bool
  | template | config | out => true
  | _ => false

/-- An option as it is shown in messages. -/
def display (f : Flag) : String :=
  match f.valueName? with
  | some name => s!"--{f.long} <{name}>"
  | none => "--" ++ f.long

/-- What an option is for. -/
def about : Flag → String
  | template => "Type template to resolve"
  | source => "Source document as MONIKER=PATH; repeat a moniker to build a group"
  | context => "Context entry as KEY=VALUE; VALUE is read as JSON when it parses"
  | keepComments => "Keep template comments in the output label"
  | skipStructureCheck => "Skip the export structure check"
  | noTemplateSource => "Do not expose the template under the `template` moniker"
  | config => "JSON run configuration; flags override its values"
  | out => "Output directory (default: current directory)"
  | filename => "Output filename (default: derived from the logical identifier)"
  | verbose => "Enable verbose logging"
  | help => "Print help"
  | version => "Print version"

end Flag

/-! ## Commands -/

inductive Verb where
  /-- Writes a label. -/
  | render
  /-- Only checks that a label could be written. -/
  | check
  /-- Explains a command. -/
  | help
  deriving DecidableEq, Repr

namespace Verb

def all : List Verb := [render, check, help]

def name : Verb → String
  | render => "render"
  | check => "check"
  | help => "help"

def ofName? (name : String) : Option Verb := all.find? (·.name == name)

/-- What a command does. -/
def about : Verb → String
  | render => "Resolve a template against its sources and write the label"
  | check => "Run every export check without writing anything"
  | help => "Print this message or the help of the given subcommand(s)"

/-- The options of a command, in the order in which they are explained; none
names those in front of a command. -/
def options : Option Verb → List Flag
  | none => [.verbose, .help, .version]
  | some render =>
    [.template, .source, .context, .verbose, .keepComments, .skipStructureCheck,
      .noTemplateSource, .config, .out, .filename, .help]
  | some check =>
    [.template, .source, .context, .verbose, .keepComments, .skipStructureCheck,
      .noTemplateSource, .config, .help]
  | some help => []

end Verb

/-! ## Faults -/

inductive UsageFault where
  | noCommand
  | unknownCommand (name : String)
  | unexpectedArgument (arg : String)
  | unexpectedValue (value : String) (option : Flag)
  | missingValue (option : Flag)
  | repeated (option : Flag)
  deriving DecidableEq, Repr

/-- The wording of a fault; of what was typed it repeats what can be shown. -/
def UsageFault.message : UsageFault → String
  | noCommand => "'pt' requires a subcommand but one was not provided"
  | unknownCommand name => s!"unrecognized subcommand '{Text.withoutControls name}'"
  | unexpectedArgument arg => s!"unexpected argument '{Text.withoutControls arg}' found"
  | unexpectedValue value option =>
    s!"unexpected value '{Text.withoutControls value}' for '{option.display}' found; " ++
      "no more were expected"
  | missingValue option =>
    s!"a value is required for '{option.display}' but none was supplied"
  | repeated option => s!"the argument '{option.display}' cannot be used multiple times"

/-- Why arguments do not lead to a run. -/
inductive Halt where
  | fault (f : UsageFault)
  /-- Help on a command, or on all of them. -/
  | help (topic : Option Verb)
  /-- Nothing at all was asked for. -/
  | nothing
  | version
  deriving DecidableEq, Repr

/-! ## Reading options -/

/-- An option that was met and is not settled yet. -/
inductive Pending where
  | none
  | waiting (f : Flag)
  | holding (f : Flag) (value : String)
  deriving DecidableEq, Repr

structure ArgState where
  /-- The command whose options are read. -/
  verb : Option Verb := none
  /-- The settled options in order, with their values. -/
  given : List (Flag × String) := []
  pending : Pending := .none
  deriving DecidableEq, Repr

namespace ArgState

/-- The options that can be given. -/
def known (s : ArgState) : List Flag := Verb.options s.verb

def fail {α : Type} (f : UsageFault) : Except Halt α := .error (.fault f)

/-- Settles an option with a value; an option without one has an empty text. -/
def accept (s : ArgState) (f : Flag) (value : String) : Except Halt ArgState :=
  if !f.isRepeatable && s.given.any (·.1 == f) then fail (.repeated f)
  else if f.takesPath && value.isEmpty then fail (.missingValue f)
  else .ok { s with given := s.given ++ [(f, value)], pending := .none }

/-- Settles the pending option. -/
def settle (s : ArgState) : Except Halt ArgState :=
  match s.pending with
  | .none => .ok s
  | .waiting f => fail (.missingValue f)
  | .holding f value => s.accept f value

/-- An option without a value. -/
def switch (s : ArgState) (f : Flag) : Except Halt ArgState := do
  let s ← s.settle
  match f with
  | .help => throw (.help s.verb)
  | .version => throw .version
  | f => s.accept f ""

/-- An option with its value attached. -/
def attach (s : ArgState) (f : Flag) (value : String) : Except Halt ArgState := do
  (← s.settle).accept f value

/-- An option that waits for its value. -/
def await (s : ArgState) (f : Flag) : Except Halt ArgState := do
  return { ← s.settle with pending := .waiting f }

/-- Reads an option by its long name, given what follows the dashes. -/
def readLong (s : ArgState) (text : String) : Except Halt ArgState :=
  let (name, value?) := match Text.splitOnce '=' text with
    | some (name, value) => (name, some value)
    | none => (text, none)
  match s.known.find? (·.long == name), value? with
  | none, _ => fail (.unexpectedArgument ("--" ++ name))
  | some f, some value =>
    if f.takesValue then s.attach f value else fail (.unexpectedValue value f)
  | some f, none => if f.takesValue then s.await f else s.switch f

/-- Reads options by their short names, given what follows the dash. -/
def readShort : List Char → ArgState → Except Halt ArgState
  | [], s => .ok s
  | c :: cs, s =>
    match s.known.find? (·.short? == some c) with
    | none => fail (.unexpectedArgument ("-" ++ c.toString))
    | some f =>
      if f.takesValue then
        match cs with
        | [] => s.await f
        | '=' :: value => s.attach f (String.ofList value)
        | value => s.attach f (String.ofList value)
      else do readShort cs (← s.switch f)

/-- What an argument looks like. -/
inductive Shape where
  | escape
  | long (text : String)
  | short (text : List Char)
  | plain

def shapeOf (arg : String) : Shape :=
  match arg.toList with
  | ['-', '-'] => .escape
  | '-' :: '-' :: cs => .long (String.ofList cs)
  | '-' :: c :: cs => .short (c :: cs)
  | _ => .plain

/-- Reads the arguments of a command that takes options only. -/
def readAll : (escaped : Bool) → List String → ArgState → Except Halt ArgState
  | _, [], s => s.settle
  | true, arg :: _, _ => fail (.unexpectedArgument arg)
  | false, arg :: args, s => do
    match shapeOf arg with
    | .escape => readAll true args s
    | .long text => readAll false args (← s.readLong text)
    | .short text => readAll false args (← readShort text s)
    | .plain =>
      match s.pending with
      | .waiting f => readAll false args { s with pending := .holding f arg }
      | _ => fail (.unexpectedArgument arg)

/-! ## What was given -/

def value? (s : ArgState) (f : Flag) : Option String := s.given.lookup f

def values (s : ArgState) (f : Flag) : List String :=
  (s.given.filter (·.1 == f)).map (·.2)

def has (s : ArgState) (f : Flag) : Bool := s.given.any (·.1 == f)

def inputs (s : ArgState) : InputArgs :=
  { template := s.value? .template
    sources := s.values .source
    context := s.values .context
    keepComments := s.has .keepComments
    skipStructureCheck := s.has .skipStructureCheck
    noTemplateSource := s.has .noTemplateSource
    config := s.value? .config }

end ArgState

/-! ## Requests -/

inductive Request where
  /-- Writes a label. -/
  | render (inputs : InputArgs) (out filename : Option String)
  /-- Only checks that a label could be written. -/
  | check (inputs : InputArgs)
  deriving DecidableEq, Repr

namespace Request

/-- The request for help on a command. -/
def helpOn : List String → Halt
  | [] => .help none
  | name :: rest =>
    match Verb.ofName? name, rest with
    | none, _ => .fault (.unknownCommand name)
    | some verb, [] => .help verb
    | some _, inner :: _ => .fault (.unknownCommand inner)

/-- Reads the arguments after the name of a command. -/
def ofCommand (verb : Verb) (args : List String) : Except Halt Request :=
  let given := ArgState.readAll false args { verb }
  match verb with
  | .render => do
    let s ← given
    return .render s.inputs (s.value? .out) (s.value? .filename)
  | .check => return .check (← given).inputs
  | .help => throw (helpOn args)

/-- Reads the arguments in front of the command and then the command. -/
def ofArgsFrom : (escaped : Bool) → List String → ArgState → Except Halt Request
  | _, [], s => .error (if s.given.isEmpty then .nothing else .fault .noCommand)
  | true, arg :: _, _ =>
    .error <| .fault <|
      if (Verb.ofName? arg).isSome then .unexpectedArgument arg else .unknownCommand arg
  | false, arg :: args, s =>
    match Verb.ofName? arg with
    | some verb => ofCommand verb args
    | none => do
      match ArgState.shapeOf arg with
      | .escape => ofArgsFrom true args s
      | .long text => ofArgsFrom false args (← s.readLong text)
      | .short text => ofArgsFrom false args (← ArgState.readShort text s)
      | .plain => throw (.fault (.unknownCommand arg))

/-- The request of a command line without the name of the program. -/
def ofArgs (args : List String) : Except Halt Request := ofArgsFrom false args {}

end Request

end LabelTemplate.Command
