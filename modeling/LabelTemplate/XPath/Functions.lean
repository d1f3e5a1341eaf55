import LabelTemplate.Error
import LabelTemplate.XPath.Value

/-!
# Core functions

The functions that every expression can call without a prefix.  Arguments
are values already; `CallContext` holds what a function sees of the place it
is called from.
-/

namespace LabelTemplate.XPath

/-- The context node of a call, its position and the number of nodes it is
one of. -/
structure CallContext where
  node : Handle
  position : Nat := 1
  size : Nat := 1
  deriving Repr

inductive CoreFunction where
  | true_
  | false_
  | not
  | boolean
  | number
  | string
  | concat
  | contains
  | startsWith
  | substring
  | substringBefore
  | substringAfter
  | stringLength
  | normalizeSpace
  | translate
  | count
  | sum
  | position
  | last
  | name
  | localName
  | namespaceUri
  | floor
  | ceiling
  | round
  deriving DecidableEq, Repr

namespace CoreFunction

def all : List CoreFunction :=
  [true_, false_, not, boolean, number, string, concat, contains, startsWith, substring,
    substringBefore, substringAfter, stringLength, normalizeSpace, translate, count, sum,
    position, last, name, localName, namespaceUri, floor, ceiling, round]

/-- The name under which a function is called. -/
def called : CoreFunction → String
  | true_ => "true"
  | false_ => "false"
  | not => "not"
  | boolean => "boolean"
  | number => "number"
  | string => "string"
  | concat => "concat"
  | contains => "contains"
  | startsWith => "starts-with"
  | substring => "substring"
  | substringBefore => "substring-before"
  | substringAfter => "substring-after"
  | stringLength => "string-length"
  | normalizeSpace => "normalize-space"
  | translate => "translate"
  | count => "count"
  | sum => "sum"
  | position => "position"
  | last => "last"
  | name => "name"
  | localName => "local-name"
  | namespaceUri => "namespace-uri"
  | floor => "floor"
  | ceiling => "ceiling"
  | round => "round"

def ofName? (s : String) : Option CoreFunction := all.find? (·.called == s)

/-- The least and the greatest number of arguments. -/
def arity : CoreFunction → Nat × Option Nat
  | true_ | false_ | position | last => (0, some 0)
  | not | boolean | count | sum | floor | ceiling | round => (1, some 1)
  | number | string | stringLength | normalizeSpace | name | localName | namespaceUri =>
    (0, some 1)
  | concat => (2, none)
  | contains | startsWith | substringBefore | substringAfter => (2, some 2)
  | substring => (2, some 3)
  | translate => (3, some 3)

/-- How a number of arguments is named in messages. -/
def describeArity : Nat × Option Nat → String
  | (least, none) => s!"at least {least}"
  | (least, some most) => if least = most then toString least else s!"{least} to {most}"

def checkArity (f : CoreFunction) (count : Nat) : Except EvalFault Unit :=
  let (least, most) := f.arity
  if count < least || most.any (count > ·) then
    .error (.argumentCount f.called (describeArity (least, most)) count)
  else .ok ()

end CoreFunction

/-! ## Functions on numbers and texts -/

/-- Rounds to the nearest integer, a half upwards. -/
def roundHalfUp (x : Float) : Float :=
  if Number.isFinite x then (x + 0.5).floor else x

/-- The characters whose positions, counted from 1, lie between two rounded
numbers. -/
def substringOf (s : String) (start : Float) (length : Option Float) : String :=
  let start := roundHalfUp start
  let stop := match length with
    | some l => start + roundHalfUp l
    | none => 1.0 / 0.0
  let chars := s.toList.zipIdx.filter fun (_, i) =>
    let p := Float.ofNat (i + 1)
    start ≤ p && p < stop
  String.ofList (chars.map (·.1))

/-- Replaces each character of `source` by its counterpart in `target`, or drops it
where `target` is shorter. -/
def translateChars (s source target : String) : String :=
  String.ofList <| s.toList.filterMap fun c =>
    match source.toList.idxOf? c with
    | some i => target.toList[i]?
    | none => some c

/-- The words between blanks. -/
def wordsOf : List Char → List (List Char)
  | [] => []
  | c :: cs =>
    if isBlank c then wordsOf cs
    else
      match cs with
      | [] => [[c]]
      | d :: _ =>
        if isBlank d then [c] :: wordsOf cs
        else match wordsOf cs with
          | [] => [[c]]
          | w :: ws => (c :: w) :: ws

/-- The words of a text with one space between them. -/
def normalizeBlanks (s : String) : String :=
  " ".intercalate ((wordsOf s.toList).map String.ofList)

/-! ## Calls -/

/-- The value that a function takes when it is called without argument. -/
def argumentOrContext (ctx : CallContext) : List Value → Value
  | [] => .nodes [ctx.node]
  | v :: _ => v

/-- The nodes of an argument that must be a node-set. -/
def nodesArgument (f : CoreFunction) : Value → Except EvalFault (List Handle)
  | .nodes hs => .ok hs
  | v => .error (.expectsNodeSet f.called v.typeName)

/-- The name of the first node of an argument. -/
def firstName (docs : Documents) (f : CoreFunction) (v : Value) :
    Except EvalFault (Option Xml.QName) := do
  return (← nodesArgument f v).head?.bind (·.name? docs)

/-- Calls a core function.  The sum of no numbers is the negative zero, which
adds nothing to any number. -/
def CoreFunction.call (docs : Documents) (ctx : CallContext) (f : CoreFunction)
    (args : List Value) : Except EvalFault Value := do
  f.checkArity args.length
  let text (i : Nat) : String := (args.getD i (.string "")).toText docs
  let num (i : Nat) : Float := (args.getD i (.string "")).toNumber docs
  let self := argumentOrContext ctx args
  match f with
  | true_ => return .boolean true
  | false_ => return .boolean false
  | not => return .boolean !self.toBoolean
  | boolean => return .boolean self.toBoolean
  | number => return .number (self.toNumber docs)
  | string => return .string (self.toText docs)
  | concat => return .string (String.join (args.map (·.toText docs)))
  | contains => return .boolean (Text.contains (text 1) (text 0))
  | startsWith => return .boolean (Text.dropPrefix? (text 1) (text 0)).isSome
  | substring =>
    return .string (substringOf (text 0) (num 1) (args[2]?.map (·.toNumber docs)))
  | substringBefore =>
    return .string <| match Text.cut? (text 1).toList (text 0).toList with
      | some (before, _) => String.ofList before
      | none => ""
  | substringAfter =>
    return .string <| match Text.cut? (text 1).toList (text 0).toList with
      | some (_, after) => String.ofList after
      | none => ""
  | stringLength => return .number (Float.ofNat (self.toText docs).length)
  | normalizeSpace => return .string (normalizeBlanks (self.toText docs))
  | translate => return .string (translateChars (text 0) (text 1) (text 2))
  | count => return .number (Float.ofNat (← nodesArgument f self).length)
  | sum =>
    let hs ← nodesArgument f self
    return .number (hs.foldl (fun x h => x + Number.parseNumber (stringValue docs h)) (-0.0))
  | position => return .number (Float.ofNat ctx.position)
  | last => return .number (Float.ofNat ctx.size)
  | name => return .string (((← firstName docs f self).map (·.written)).getD "")
  | localName => return .string (((← firstName docs f self).map (·.localName)).getD "")
  | namespaceUri =>
    return .string (((← firstName docs f self).bind (·.namespaceUri)).getD "")
  | floor => return .number (num 0).floor
  | ceiling => return .number (num 0).ceil
  | round => return .number (roundHalfUp (num 0))

end LabelTemplate.XPath
