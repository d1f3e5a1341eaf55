import LabelTemplate.Template.Environment
import LabelTemplate.Time.LabelTime

/-!
# Built-in functions

The functions with the prefix `pt` that every directive expression can call:
values of the client, the current template element, sequences of values and
shifted timestamps.
-/

namespace LabelTemplate.Builtins

open Xml XPath

/-- Refuses a wrong number of arguments. -/
def checkCount (c : ExtensionCall) (name : String) (least most : Nat) : Except Error Unit :=
  let n := c.args.length
  if n < least || n > most then c.fail (.argumentCount name least most n) else .ok ()

/-- A value that the client supplied; what is not a string is written as
JSON. -/
def contextValue (c : ExtensionCall) : Except Error Value := do
  checkCount c "context" 1 1
  let key := (c.args.headD (.string "")).toText c.docs
  match c.context.lookup key with
  | some (.string s) => return .string s
  | some v => return .string v.write
  | none => c.fail (.noContextEntry key)

/-- The template element whose directive is evaluated. -/
def selfNode (c : ExtensionCall) : Except Error Value := do
  checkCount c "self" 0 0
  return .nodes [⟨templateKey, .element c.element⟩]

/-- Checks the arguments of a sequence, numbered from `i`: each stands for one
value. -/
def checkItems (c : ExtensionCall) : (i : Nat) → List Value → Except Error Unit
  | _, [] => .ok ()
  | i, .nodes [] :: _ => c.fail (.emptySequenceItem i)
  | i, .nodes (_ :: _ :: hs) :: _ => c.fail (.nestedNodeSet i (hs.length + 2))
  | i, _ :: vs => checkItems c (i + 1) vs

/-- The arguments as independent values. -/
def sequence (c : ExtensionCall) : Except Error Value := do
  checkItems c 1 c.args
  return .sequence c.args

/-! ## Timestamps -/

/-- The format and the digits of a fraction, where they are given; digits that
are not a number count as not given. -/
def writtenForm (c : ExtensionCall) (args : List Value) : Option String × Option Float :=
  (args[0]?.map (·.toText c.docs),
    (args[1]?.map (·.toNumber c.docs)).filter (!Number.isNaN ·))

def writeTime (c : ExtensionCall) (t : Time.LabelTime) : Except Error Value :=
  match t.write with
  | .ok s => .ok (.string s)
  | .error fault => c.fail (.unwritableTimestamp fault)

/-- The `unit` attribute of an element. -/
def unit? (docs : Documents) (h : Handle) : Option String := do
  let id ← h.element?
  (← docs[h.doc]?).attribute? id none "unit"

/-- The delta and the unit that the first node of a set says. -/
def delta (docs : Documents) : Value → Except DeltaFault (Float × String)
  | .nodes [] => .error .noNode
  | .nodes (h :: _) =>
    match unit? docs h with
    | none => .error .noUnit
    | some unit =>
      let text := stringValue docs h
      match Number.parseFloat? (Text.trim text) with
      | some x => .ok (x, unit)
      | none => .error (.notANumber text)
  | v => .error (.notNodes v.typeName)

/-- A timestamp shifted by an element that holds a delta. -/
def datetimeAdd (c : ExtensionCall) : Except Error Value := do
  checkCount c "datetime.add" 2 4
  match c.args with
  | timestamp :: by_ :: form =>
    let (format, decimals) := writtenForm c form
    let t ← match Time.LabelTime.read (timestamp.toText c.docs) format decimals with
      | .ok t => pure t
      | .error fault => c.fail (.badTimestamp fault)
    let shifted := do
      let (x, unit) ← delta c.docs by_
      (t.shift x unit).mapError DeltaFault.shift
    match shifted with
    | .ok t => writeTime c t
    | .error fault => c.fail (.badDelta fault)
  | _ => return .string ""

/-- The time of the run. -/
def datetimeNow (c : ExtensionCall) : Except Error Value := do
  checkCount c "datetime.now" 0 2
  let (format, decimals) := writtenForm c c.args
  writeTime c (Time.LabelTime.ofClock c.clock format decimals)

/-- All built-in functions. -/
def registry : Registry :=
  [("context", contextValue), ("context.get", contextValue), ("self", selfNode),
    ("sequence", sequence), ("datetime.add", datetimeAdd), ("datetime.now", datetimeNow)].map
    fun (name, f) => ((directivePrefix, name), f)

end LabelTemplate.Builtins
