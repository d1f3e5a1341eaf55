import LabelTemplate.XPath.Expr
import LabelTemplate.XPath.Token

/-!
# The grammar of expressions

Reading tokens into an expression.  Binary operators bind by level, loosest
first, and group to the left; below them come the minus sign, unions and
paths.  Fuel is spent at every rule of the grammar: `sufficientFuel` is more
than any expression with that many tokens needs.
-/

namespace LabelTemplate.XPath

/-- Where reading stopped, as the offset of a token or the end, and why. -/
structure GrammarFault where
  offset : Option Nat
  fault : SyntaxFault
  deriving Repr

namespace Grammar

def fail {α : Type} (ts : List Lexeme) (fault : SyntaxFault) : Except GrammarFault α :=
  .error ⟨ts.head?.map (·.offset), fault⟩

/-- The levels of binary operators, loosest first. -/
inductive Level where
  | disjunction
  | conjunction
  | equality
  | relation
  | sum
  | product
  deriving DecidableEq, Repr

/-- The level that binds more tightly, unless it is the tightest. -/
def Level.next? : Level → Option Level
  | disjunction => some conjunction
  | conjunction => some equality
  | equality => some relation
  | relation => some sum
  | sum => some product
  | product => none

/-- What a token joins on a level, if it is an operator of the level. -/
def Level.operator? : Level → Token → Option (Expr → Expr → Expr)
  | disjunction, .name "or" => some .or
  | conjunction, .name "and" => some .and
  | equality, .equal => some (.binary .eq)
  | equality, .notEqual => some (.binary .ne)
  | relation, .less => some (.binary .lt)
  | relation, .lessEqual => some (.binary .le)
  | relation, .greater => some (.binary .gt)
  | relation, .greaterEqual => some (.binary .ge)
  | sum, .plus => some (.binary .add)
  | sum, .minus => some (.binary .sub)
  | product, .star => some (.binary .mul)
  | product, .name "div" => some (.binary .div)
  | product, .name "mod" => some (.binary .mod)
  | _, _ => none

/-- The names that make a node test when a parenthesis follows. -/
def isNodeType (name : String) : Bool :=
  name == "text" || name == "node" || name == "comment" || name == "processing-instruction"

/-- True where a primary expression begins rather than a path. -/
def startsPrimary : List Lexeme → Bool
  | ⟨.literal _, _, _⟩ :: _ | ⟨.number _, _, _⟩ :: _ | ⟨.leftParen, _, _⟩ :: _ => true
  | ⟨.name n, _, _⟩ :: ⟨.leftParen, _, _⟩ :: _ => !isNodeType n
  | _ => false

/-- True where a step can begin. -/
def startsStep : List Lexeme → Bool
  | ⟨.dot, _, _⟩ :: _ | ⟨.doubleDot, _, _⟩ :: _ | ⟨.at_, _, _⟩ :: _ | ⟨.star, _, _⟩ :: _
  | ⟨.name _, _, _⟩ :: _ | ⟨.anyWithPrefix _, _, _⟩ :: _ => true
  | _ => false

/-- The axis in front of a node test; without one it is `child`. -/
def axis : List Lexeme → Except GrammarFault (Axis × List Lexeme)
  | ⟨.at_, _, _⟩ :: ts => .ok (.attribute, ts)
  | ⟨.name n, text, offset⟩ :: ⟨.doubleColon, colons, colonsAt⟩ :: ts =>
    match Axis.ofName? n with
    | some a => .ok (a, ts)
    | none =>
      fail (⟨.name n, text, offset⟩ :: ⟨.doubleColon, colons, colonsAt⟩ :: ts) (.unknownAxis n)
  | ts => .ok (.child, ts)

def nodeTest : List Lexeme → Except GrammarFault (NodeTest × List Lexeme)
  | ⟨.star, _, _⟩ :: ts => .ok (.any, ts)
  | ⟨.anyWithPrefix p, _, _⟩ :: ts => .ok (.inNamespace p, ts)
  | ⟨.name n, _, _⟩ :: ts =>
    let byName : Except GrammarFault (NodeTest × List Lexeme) :=
      let (pfx, localName) := Xml.splitName n
      .ok (.name pfx localName, ts)
    match ts with
    | ⟨.leftParen, _, _⟩ :: inside =>
      if isNodeType n then
        match inside with
        | ⟨.rightParen, _, _⟩ :: after =>
          match n with
          | "text" => .ok (.text, after)
          | "node" => .ok (.node, after)
          | "comment" => .ok (.comment, after)
          | _ => fail after .noInstructionTest
        | _ => fail inside (.expected "')' after node type test")
      else byName
    | _ => byName
  | ts => fail ts (.expected "a node test")

mutual

/-- An operand of a level and the operators after it. -/
def level : (fuel : Nat) → Level → List Lexeme → Except GrammarFault (Expr × List Lexeme)
  | 0, _, ts => fail ts .empty
  | fuel + 1, l, ts => do
    let (left, ts) ← match l.next? with
      | some tighter => level fuel tighter ts
      | none => unary fuel ts
    operands fuel l left ts

/-- The operators of a level after a first operand, with their right
operands. -/
def operands : (fuel : Nat) → Level → Expr → List Lexeme → Except GrammarFault (Expr × List Lexeme)
  | 0, _, _, ts => fail ts .empty
  | fuel + 1, l, left, ts =>
    match ts with
    | [] => .ok (left, [])
    | t :: rest =>
      match l.operator? t.token with
      | none => .ok (left, t :: rest)
      | some join => do
        let (right, rest) ← match l.next? with
          | some tighter => level fuel tighter rest
          | none => unary fuel rest
        operands fuel l (join left right) rest

/-- Minus signs in front of a union. -/
def unary : (fuel : Nat) → List Lexeme → Except GrammarFault (Expr × List Lexeme)
  | 0, ts => fail ts .empty
  | fuel + 1, ⟨.minus, _, _⟩ :: ts => do
    let (e, ts) ← unary fuel ts
    return (.negate e, ts)
  | fuel + 1, ts => do
    let (left, ts) ← pathExpr fuel ts
    unions fuel left ts

def unions : (fuel : Nat) → Expr → List Lexeme → Except GrammarFault (Expr × List Lexeme)
  | 0, _, ts => fail ts .empty
  | fuel + 1, left, ⟨.pipe, _, _⟩ :: ts => do
    let (right, ts) ← pathExpr fuel ts
    unions fuel (.union left right) ts
  | _ + 1, left, ts => .ok (left, ts)

/-- A primary expression with what selects from it, or a location path. -/
def pathExpr : (fuel : Nat) → List Lexeme → Except GrammarFault (Expr × List Lexeme)
  | 0, ts => fail ts .empty
  | fuel + 1, ts =>
    if startsPrimary ts then do
      let (e, ts) ← primary fuel ts
      let (preds, ts) ← predicates fuel ts
      let (steps, ts) ← moreSteps fuel ts
      return (if preds.isEmpty && steps.isEmpty then e else .filter e preds steps, ts)
    else
      match ts with
      | ⟨.slash, _, _⟩ :: ts =>
        if startsStep ts then do
          let (s, ts) ← step fuel ts
          let (steps, ts) ← moreSteps fuel ts
          return (.path true (s :: steps), ts)
        else .ok (.path true [], ts)
      | ⟨.doubleSlash, _, _⟩ :: ts => do
        let (s, ts) ← step fuel ts
        let (steps, ts) ← moreSteps fuel ts
        return (.path true (.descendantOrSelf :: s :: steps), ts)
      | ts => do
        let (s, ts) ← step fuel ts
        let (steps, ts) ← moreSteps fuel ts
        return (.path false (s :: steps), ts)

/-- Slashes with the steps after them. -/
def moreSteps : (fuel : Nat) → List Lexeme → Except GrammarFault (List Step × List Lexeme)
  | 0, ts => fail ts .empty
  | fuel + 1, ⟨.slash, _, _⟩ :: ts => do
    let (s, ts) ← step fuel ts
    let (steps, ts) ← moreSteps fuel ts
    return (s :: steps, ts)
  | fuel + 1, ⟨.doubleSlash, _, _⟩ :: ts => do
    let (s, ts) ← step fuel ts
    let (steps, ts) ← moreSteps fuel ts
    return (Step.descendantOrSelf :: s :: steps, ts)
  | _ + 1, ts => .ok ([], ts)

/-- One step; the abbreviations of one and two dots take no predicates. -/
def step : (fuel : Nat) → List Lexeme → Except GrammarFault (Step × List Lexeme)
  | 0, ts => fail ts .empty
  | _ + 1, ⟨.dot, _, _⟩ :: ts => .ok (.mk .self .node [], ts)
  | _ + 1, ⟨.doubleDot, _, _⟩ :: ts => .ok (.mk .parent .node [], ts)
  | fuel + 1, ts => do
    let (a, ts) ← axis ts
    let (test, ts) ← nodeTest ts
    let (preds, ts) ← predicates fuel ts
    return (.mk a test preds, ts)

def predicates : (fuel : Nat) → List Lexeme → Except GrammarFault (List Expr × List Lexeme)
  | 0, ts => fail ts .empty
  | fuel + 1, ⟨.leftBracket, _, _⟩ :: ts => do
    let (e, ts) ← level fuel .disjunction ts
    match ts with
    | ⟨.rightBracket, _, _⟩ :: ts =>
      let (rest, ts) ← predicates fuel ts
      return (e :: rest, ts)
    | ts => fail ts (.expected "']'")
  | _ + 1, ts => .ok ([], ts)

/-- A literal, a number, an expression in parentheses or a call. -/
def primary : (fuel : Nat) → List Lexeme → Except GrammarFault (Expr × List Lexeme)
  | 0, ts => fail ts .empty
  | _ + 1, ⟨.literal s, _, _⟩ :: ts => .ok (.literal s, ts)
  | _ + 1, ⟨.number x, _, _⟩ :: ts => .ok (.number x, ts)
  | fuel + 1, ⟨.leftParen, _, _⟩ :: ts => do
    let (e, ts) ← level fuel .disjunction ts
    match ts with
    | ⟨.rightParen, _, _⟩ :: ts => return (e, ts)
    | ts => fail ts (.expected "')'")
  | fuel + 1, ⟨.name n, _, _⟩ :: ts => do
    let (pfx, localName) := Xml.splitName n
    match ts with
    | ⟨.leftParen, _, _⟩ :: ⟨.rightParen, _, _⟩ :: ts => return (.call pfx localName [], ts)
    | ⟨.leftParen, _, _⟩ :: ts =>
      let (args, ts) ← arguments fuel ts
      return (.call pfx localName args, ts)
    | ts => fail ts (.expected "'('")
  | _ + 1, ts => fail ts (.expected "an expression")

/-- Arguments separated by commas, and the parenthesis after them. -/
def arguments : (fuel : Nat) → List Lexeme → Except GrammarFault (List Expr × List Lexeme)
  | 0, ts => fail ts .empty
  | fuel + 1, ts => do
    let (e, ts) ← level fuel .disjunction ts
    match ts with
    | ⟨.comma, _, _⟩ :: ts =>
      let (args, ts) ← arguments fuel ts
      return (e :: args, ts)
    | ⟨.rightParen, _, _⟩ :: ts => return ([e], ts)
    | ts => fail ts (.expected "',' or ')' in argument list")

end

/-- Every token is read below at most a dozen rules that read none. -/
def sufficientFuel (ts : List Lexeme) : Nat := 16 * (ts.length + 2)

/-- Reads a whole list of tokens. -/
def expression (ts : List Lexeme) : Except GrammarFault Expr := do
  if ts.isEmpty then .error ⟨some 0, .empty⟩
  let (e, rest) ← level (sufficientFuel ts) .disjunction ts
  if rest.isEmpty then return e else fail rest .trailingInput

end Grammar

/-- Reads an expression. -/
def Expr.parse (expression : String) : Except SyntaxError Expr := do
  let ts ← tokenize expression
  (Grammar.expression ts).mapError fun e =>
    ⟨expression, e.offset.getD expression.utf8ByteSize, e.fault⟩

end LabelTemplate.XPath
