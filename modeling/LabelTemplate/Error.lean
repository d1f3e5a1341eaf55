import LabelTemplate.Location
import LabelTemplate.Template.Directive
import LabelTemplate.Time.Fault
import LabelTemplate.Xml.Reader

/-!
# Errors

Everything that can go wrong, by cause, and its wording.  A fault of a
template element (`NodeFault`) belongs to one of five categories and carries
the place of the element; the faults of the readers, of expression
evaluation, of source maps and of files stand beside it.
-/

namespace LabelTemplate

/-! ## Files -/

inductive IoFault where
  | notFound
  | alreadyExists
  | notADirectory
  | isADirectory
  | nameTooLong
  | invalidUtf8
  | nulInPath
  | other (message : String)
  deriving DecidableEq, Repr

def IoFault.message : IoFault → String
  | notFound => "No such file or directory (os error 2)"
  | alreadyExists => "File exists (os error 17)"
  | notADirectory => "Not a directory (os error 20)"
  | isADirectory => "Is a directory (os error 21)"
  | nameTooLong => "File name too long (os error 36)"
  | invalidUtf8 => "stream did not contain valid UTF-8"
  | nulInPath => "file name contained an unexpected NUL byte"
  | other message => message

/-! ## Expressions -/

/-- Why a text is not an expression. -/
inductive SyntaxFault where
  | empty
  | unterminatedLiteral
  | unexpectedCharacter (c : Char)
  | expected (what : String)
  | unknownAxis (name : String)
  | noInstructionTest
  | trailingInput
  | other (message : String)
  deriving DecidableEq, Repr

def SyntaxFault.message : SyntaxFault → String
  | empty => "empty expression"
  | unterminatedLiteral => "unterminated string literal"
  | unexpectedCharacter c => "unexpected character '" ++ c.toString ++ "'"
  | expected what => s!"expected {what}"
  | unknownAxis name => s!"unknown axis '{name}'"
  | noInstructionTest => "processing-instruction() is not supported"
  | trailingInput => "unexpected trailing input"
  | other message => message

/-- A fault of an expression's syntax and its byte offset. -/
structure SyntaxError where
  expression : String
  offset : Nat
  fault : SyntaxFault
  deriving DecidableEq, Repr

def SyntaxError.message (e : SyntaxError) : String :=
  s!"invalid XPath expression '{e.expression}' at offset {e.offset}: {e.fault.message}"

/-- Why an expression has no value. -/
inductive EvalFault where
  | noDocument (key : Nat)
  | undefinedPrefix (pfx : String)
  | unknownFunction (name : String)
  /-- An operation on node-sets met a value of another type. -/
  | requiresNodeSet (what : String) (found : String)
  /-- A function on node-sets was given a value of another type. -/
  | expectsNodeSet (function : String) (found : String)
  /-- A selection gave a value that is not a node-set. -/
  | selectsNonNodes (expression : String) (found : String)
  | argumentCount (function : String) (expected : String) (found : Nat)
  | timestamp (fault : Time.TimestampFault)
  | shift (fault : Time.ShiftFault)
  | other (message : String)
  deriving Repr

def EvalFault.message : EvalFault → String
  | noDocument key => s!"no document bound to key {key}"
  | undefinedPrefix p => s!"undefined namespace prefix '{p}'"
  | unknownFunction name => s!"unknown function '{name}'"
  | requiresNodeSet what found => s!"{what} requires a node-set, got {found}"
  | expectsNodeSet function found => s!"{function}() expects a node-set, got {found}"
  | selectsNonNodes expression found => s!"'{expression}' selects a {found}, not a node-set"
  | argumentCount function expected found =>
    s!"{function}() takes {expected} argument(s), got {found}"
  | timestamp fault => s!"unable to parse datetime: {fault.message}"
  | shift fault => fault.message
  | other message => message

/-! ## Sources -/

inductive SourceFault where
  | noTemplate
  | emptyGroup
  | duplicateDocuments
  | inGroup (moniker : String) (cause : SourceFault)
  | monikerTaken (moniker : String)
  | other (message : String)
  deriving DecidableEq, Repr

def SourceFault.message : SourceFault → String
  | noTemplate => "no template document was given"
  | emptyGroup => "group is empty"
  | duplicateDocuments => "group contains duplicate documents"
  | inGroup moniker cause => s!"error encountered in source group {moniker}: {cause.message}"
  | monikerTaken moniker => s!"source map already contains a mapping for the key '{moniker}'"
  | other message => message

/-! ## Template elements -/

/-- What a fault of a template element is about. -/
inductive Category where
  | syntactic
  | eval
  | fetch
  | state
  | template
  deriving DecidableEq, Repr

/-- A directive as it is declared. -/
structure Declared where
  directive : Directive
  expression : String
  deriving DecidableEq, Repr

def Declared.describe (d : Declared) : String := d.directive.describe d.expression

/-- Why `pt:datetime.add` has no delta. -/
inductive DeltaFault where
  | notNodes (found : String)
  | noNode
  | noUnit
  | notANumber (text : String)
  | shift (fault : Time.ShiftFault)
  deriving Repr

def DeltaFault.message : DeltaFault → String
  | notNodes found => s!"expected a node-set, got {found}"
  | noNode => "empty node-set"
  | noUnit => "delta element has no unit attribute"
  | notANumber text => s!"could not convert '{text}' to a number"
  | shift fault => fault.message

/-- An element that only one of two trees has, with the names written as
they are shown. -/
structure PathChange where
  tag : String
  path : String
  deriving DecidableEq, Repr

inductive NodeFault where
  -- directives
  | unknownDirective (name : String)
  | emptyExpression (directive : Directive)
  | noSource
  | unknownMoniker (moniker : String)
  | emptyNodeSet (d : Declared)
  | multipleResults (d : Declared) (count : Nat)
  | noBranchResult (d : Declared) (count branch : Nat)
  | negativeNumber (d : Declared) (number : Float)
  | notCastable (d : Declared) (shown : String)
  -- states
  | requiredBelowUnrequired
  | deferWithoutFill
  | fillOnClass
  | reorderOutsideFetch
  | multiOutsideFetch
  | multiWithManySources (count : Nat)
  | stub
  -- the walk
  | rootWithManySources
  | rootReplicated
  | sourceNotLoaded
  | matchCount (found expected : Nat)
  | notInSource (tag path moniker file : String)
  | fillWithoutToken (values : Nat)
  | fillCount (values tokens : Nat)
  -- functions
  | argumentCount (function : String) (least most found : Nat)
  | noContextEntry (key : String)
  | emptySequenceItem (argument : Nat)
  | nestedNodeSet (argument count : Nat)
  | badTimestamp (fault : Time.TimestampFault)
  | badDelta (fault : DeltaFault)
  | unwritableTimestamp (fault : Time.ShiftFault)
  -- export
  | unpopulatedLeaf
  | structureAltered (added removed : List PathChange)
  | noFilename (expression : String)
  /-- A fault that a client function reports. -/
  | other (category : Category) (message : String)
  deriving Repr

namespace NodeFault

def category : NodeFault → Category
  | unknownDirective _ => .syntactic
  | requiredBelowUnrequired | deferWithoutFill | fillOnClass | reorderOutsideFetch
  | multiOutsideFetch | multiWithManySources _ => .state
  | stub | rootWithManySources | rootReplicated | unpopulatedLeaf | structureAltered _ _
  | noFilename _ => .template
  | matchCount _ _ | notInSource _ _ _ _ => .fetch
  | other c _ => c
  | _ => .eval

/-- The lines that list elements under a heading; none for no elements. -/
def changeLines (heading : String) (changes : List PathChange) : List String :=
  if changes.isEmpty then []
  else s!"\n{heading} elements:" :: changes.map fun c => s!"{c.tag} @ {c.path}"

def message : NodeFault → String
  | unknownDirective name => s!"unrecognised {directivePrefix} attribute: {name}"
  | emptyExpression d => d.describe "" ++ " - directive expression is empty"
  | noSource => "no source has been set"
  | unknownMoniker moniker =>
    s!"{Directive.sources.describe moniker} did not match any source (group)"
  | emptyNodeSet d => s!"{d.describe} evaluation yielded an empty node-set"
  | multipleResults d n => s!"{d.describe} evaluation yielded multiple results ({n})"
  | noBranchResult d n branch =>
    s!"{d.describe} yielded {n} results, none for multi-branch index {branch}"
  | negativeNumber d x =>
    s!"{d.describe} evaluation yielded a negative number: {Number.formatNumber x}"
  | notCastable d shown =>
    s!"{d.describe} yielded {shown}, which cannot be safely cast to {d.directive.types.display}"
  | requiredBelowUnrequired =>
    "declaring a child of an unrequired element as required is nonsensical"
  | deferWithoutFill => "pt:defer is only valid when pt:fill is defined"
  | fillOnClass => "pt:fill defined on a class (an element with children)"
  | reorderOutsideFetch => "pt:reorder=\"true()\" outside a pt:fetch context is not allowed"
  | multiOutsideFetch => "pt:multi=\"true()\" outside a pt:fetch context is nonsensical"
  | multiWithManySources n =>
    s!"cannot combine pt:multi ({n}) and multiple sources when pt:fetch is not active"
  | stub => "class is a stub"
  | rootWithManySources => "the root element cannot be bound to a multi-document source group"
  | rootReplicated => "the root element cannot be replicated"
  | sourceNotLoaded => "source document is not loaded"
  | matchCount found expected =>
    s!"{found} source elements found but pt:multi is set to expect {expected}"
  | notInSource tag path moniker file =>
    s!"{tag} could not be located at path {path} in source {moniker} from {file}"
  | fillWithoutToken n =>
    s!"pt:fill yielded {n} values but the text has no \x7b\x7d substitution token"
  | fillCount values tokens =>
    let quantity := if values < tokens then "too few" else "too many"
    s!"pt:fill yielded {quantity} values ({values}) for {tokens} substitution tokens"
  | argumentCount function least most found =>
    s!"pt:{function}() takes {least} to {most} argument(s), got {found}"
  | noContextEntry key => s!"context entry '{key}' has not been registered"
  | emptySequenceItem n => s!"pt:sequence, argument {n}: empty node-set encountered"
  | nestedNodeSet n count =>
    s!"pt:sequence, argument {n}: node-set with {count} members cannot be added " ++
      "to sequence as XPath does not permit nested node-sets"
  | badTimestamp fault => s!"unable to parse datetime: {fault.message}"
  | badDelta fault => s!"unable to add delta: {fault.message}"
  | unwritableTimestamp fault => s!"unable to write datetime: {fault.message}"
  | unpopulatedLeaf => "unpopulated leaf node encountered at export"
  | structureAltered added removed =>
    "\n".intercalate
      ("the label structure has been altered after template parsing and population." ::
        changeLines "Added" added ++ changeLines "Removed" removed)
  | noFilename expression =>
    s!"cannot derive an export filename: {expression} selected nothing"
  | other _ message => message

end NodeFault

/-! ## All errors -/

inductive Error where
  | node (fault : NodeFault) (at_ : Location)
  /-- The expression of a directive failed for a cause without a place. -/
  | inExpression (d : Declared) (cause : Error) (at_ : Location)
  | xml (e : Xml.ReadError)
  | expression (e : SyntaxError)
  | evaluation (fault : EvalFault)
  | sources (fault : SourceFault)
  | io (fault : IoFault)
  /-- A walk went deeper than any template needs. -/
  | unfinished
  deriving Repr

def Xml.ReadError.message (e : Xml.ReadError) : String :=
  s!"XML parse error at line {e.position.line}, col {e.position.column}: {e.fault.message}"

namespace Error

/-- The place in the template that an error is about. -/
def location? : Error → Option Location
  | node _ l | inExpression _ _ l => some l
  | xml _ | expression _ | evaluation _ | sources _ | io _ | unfinished => none

def message : Error → String
  | node fault l => fault.message ++ l.display
  | inExpression d cause l => s!"{d.describe} resulted in {cause.message}" ++ l.display
  | xml e => e.message
  | expression e => e.message
  | evaluation fault => "XPath error: " ++ fault.message
  | sources fault => "source map error: " ++ fault.message
  | io fault => "IO error: " ++ fault.message
  | unfinished => "the template walk did not end"

/-- The short name of the kind of error. -/
def category : Error → String
  | node fault _ => match fault.category with
    | .syntactic => "syntax"
    | .eval => "eval"
    | .fetch => "fetch"
    | .state => "state"
    | .template => "template"
  | inExpression _ _ _ => "eval"
  | xml _ => "parse"
  | expression _ | evaluation _ => "xpath"
  | sources _ => "source-map"
  | io _ => "io"
  | unfinished => "template"

end Error

end LabelTemplate
