import LabelTemplate.XPath.Grammar
import Mathlib.Tactic.SplitIfs

/-!
# Derivations of expressions

The grammar as a type: a `Tree s` is a derivation of the symbol `s`, one
constructor for each production, with the tokens it derives (`tokens`) and
the syntax it stands for (`value`).  Repetitions are lists that are folded to
the left, so binary operators and unions group to the left.

One production depends on what comes after it: a slash that stands alone must
not be followed by a token that can start a step.  `Fits t rest` says this
for all of a tree in front of the tokens `rest`.

A token that can continue what stands before it has a `grip`: an operator
that of its level, and a vertical bar, slashes, an opening bracket, an opening
parenthesis and a double colon ever tighter ones.  What follows a derivation
of a symbol holds it less tightly than the symbol's own productions do
(`Loose`).  With this every list of tokens has at most one derivation
(`Tree.unique`).
-/

namespace LabelTemplate.XPath

/-! ## Tokens -/

/-- True for the tokens that an axis or a node test can start with. -/
def Token.startsTest : Token → Bool
  | .at_ | .star | .name _ | .anyWithPrefix _ => true
  | _ => false

/-- True for the tokens that a step can start with. -/
def Token.startsStep : Token → Bool
  | .dot | .doubleDot => true
  | t => t.startsTest

/-- True for the tokens that a path can start with. -/
def Token.startsPath : Token → Bool
  | .literal _ | .number _ | .leftParen | .slash | .doubleSlash => true
  | t => t.startsStep

/-- True for the tokens that an expression can start with. -/
def Token.startsPhrase : Token → Bool
  | .minus => true
  | t => t.startsPath

/-- How tightly a token holds on to what stands before it; nothing for a token
that never continues anything. -/
def Token.grip : Token → Nat
  | .name s => if s = "or" then 1 else if s = "and" then 2
    else if s = "div" then 6 else if s = "mod" then 6 else 0
  | .equal | .notEqual => 3
  | .less | .lessEqual | .greater | .greaterEqual => 4
  | .plus | .minus => 5
  | .star => 6
  | .pipe => 7
  | .slash | .doubleSlash => 8
  | .leftBracket => 9
  | .leftParen | .doubleColon => 10
  | _ => 0

namespace Grammar

/-- True where a primary expression begins: a literal, a number, a parenthesis
or a call. -/
def opensPrimary : List Token → Bool
  | .literal _ :: _ | .number _ :: _ | .leftParen :: _ => true
  | .name n :: .leftParen :: _ => !isNodeType n
  | _ => false

/-- What follows does not hold on to what stands before it as tightly as
`k`. -/
def Loose (k : Nat) (ts : List Token) : Prop := ∀ t ∈ ts.head?, t.grip < k

/-- The place of a level among the grips; below the tightest come unions. -/
def rank : Option Level → Nat
  | some .disjunction => 1
  | some .conjunction => 2
  | some .equality => 3
  | some .relation => 4
  | some .sum => 5
  | some .product => 6
  | none => 7

theorem rank_next (l : Level) : rank l.next? = rank (some l) + 1 := by
  cases l <;> rfl

/-- The operators of a level are the tokens with its grip. -/
theorem isSome_operator? (l : Level) (t : Token) :
    (l.operator? t).isSome = (t.grip == rank (some l)) := by
  cases t with
  | name s =>
    by_cases hor : s = "or"
    · subst hor; cases l <;> rfl
    by_cases hand : s = "and"
    · subst hand; cases l <;> rfl
    by_cases hdiv : s = "div"
    · subst hdiv; cases l <;> rfl
    by_cases hmod : s = "mod"
    · subst hmod; cases l <;> rfl
    cases l <;> simp [Level.operator?, Token.grip, rank, hor, hand, hdiv, hmod]
  | _ => cases l <;> rfl

/-! ## Derivations -/

/-- What can be derived: an expression of a level or, below the tightest, a
union with its minus signs; the operators after a first operand; and the
parts of paths. -/
inductive Symbol where
  | phrase (l : Option Level)
  | operators (l : Level)
  | unions
  | path
  | steps
  | step
  | predicates
  | primary
  | arguments

/-- What a derivation of a symbol stands for. -/
abbrev Symbol.Value : Symbol → Type
  | phrase _ | path | primary => Expr
  | operators _ | unions => Expr → Expr
  | steps => List Step
  | step => Step
  | predicates | arguments => List Expr

/-- What stands for the axis of a step. -/
inductive AxisMark where
  | absent
  | at_
  | named (a : Axis)
  deriving DecidableEq

namespace AxisMark

def tokens : AxisMark → List Token
  | absent => []
  | .at_ => [.at_]
  | named a => [.name a.name, .doubleColon]

def value : AxisMark → Axis
  | absent => .child
  | .at_ => .attribute
  | named a => a

end AxisMark

/-- A node test as it is written. -/
inductive TestMark where
  | any
  | inNamespace (pfx : String)
  | name (s : String)
  | text
  | node
  | comment
  deriving DecidableEq

namespace TestMark

def tokens : TestMark → List Token
  | any => [.star]
  | inNamespace p => [.anyWithPrefix p]
  | name s => [.name s]
  | text => [.name "text", .leftParen, .rightParen]
  | node => [.name "node", .leftParen, .rightParen]
  | comment => [.name "comment", .leftParen, .rightParen]

def value : TestMark → NodeTest
  | any => .any
  | inNamespace p => .inNamespace p
  | name s => .name (Xml.splitName s).1 (Xml.splitName s).2
  | text => .text
  | node => .node
  | comment => .comment

end TestMark

/-- A derivation of a symbol; each constructor is a production. -/
inductive Tree : Symbol → Type where
  | operand {l : Level} (first : Tree (.phrase l.next?)) (more : Tree (.operators l)) :
      Tree (.phrase (some l))
  | negate (e : Tree (.phrase none)) : Tree (.phrase none)
  | union (first : Tree .path) (more : Tree .unions) : Tree (.phrase none)
  | noOperator {l : Level} : Tree (.operators l)
  | operator {l : Level} (op : Token) (join : Expr → Expr → Expr)
      (h : l.operator? op = some join) (right : Tree (.phrase l.next?))
      (more : Tree (.operators l)) : Tree (.operators l)
  | noUnion : Tree .unions
  | pipe (right : Tree .path) (more : Tree .unions) : Tree .unions
  | filter (primary : Tree .primary) (predicates : Tree .predicates) (steps : Tree .steps) :
      Tree .path
  | root : Tree .path
  | absolute (first : Tree .step) (more : Tree .steps) : Tree .path
  | anywhere (first : Tree .step) (more : Tree .steps) : Tree .path
  | relative (first : Tree .step) (more : Tree .steps) : Tree .path
  | noStep : Tree .steps
  | slash (next : Tree .step) (more : Tree .steps) : Tree .steps
  | doubleSlash (next : Tree .step) (more : Tree .steps) : Tree .steps
  | self : Tree .step
  | parent : Tree .step
  | test (a : AxisMark) (t : TestMark) (predicates : Tree .predicates) : Tree .step
  | noPredicate : Tree .predicates
  | predicate (e : Tree (.phrase (some .disjunction))) (more : Tree .predicates) :
      Tree .predicates
  | literal (s : String) : Tree .primary
  | number (x : Float) : Tree .primary
  | group (e : Tree (.phrase (some .disjunction))) : Tree .primary
  | call (name : String) (h : isNodeType name = false) : Tree .primary
  | callWith (name : String) (h : isNodeType name = false) (args : Tree .arguments) :
      Tree .primary
  | lastArgument (e : Tree (.phrase (some .disjunction))) : Tree .arguments
  | argument (e : Tree (.phrase (some .disjunction))) (more : Tree .arguments) :
      Tree .arguments

namespace Tree

/-- The tokens that a tree derives. -/
@[simp] def tokens : {s : Symbol} → Tree s → List Token
  | _, operand first more => first.tokens ++ more.tokens
  | _, negate e => .minus :: e.tokens
  | _, union first more => first.tokens ++ more.tokens
  | _, noOperator => []
  | _, operator op _ _ right more => op :: (right.tokens ++ more.tokens)
  | _, noUnion => []
  | _, pipe right more => .pipe :: (right.tokens ++ more.tokens)
  | _, filter primary predicates steps =>
    primary.tokens ++ (predicates.tokens ++ steps.tokens)
  | _, root => [.slash]
  | _, absolute first more => .slash :: (first.tokens ++ more.tokens)
  | _, anywhere first more => .doubleSlash :: (first.tokens ++ more.tokens)
  | _, relative first more => first.tokens ++ more.tokens
  | _, noStep => []
  | _, slash next more => .slash :: (next.tokens ++ more.tokens)
  | _, doubleSlash next more => .doubleSlash :: (next.tokens ++ more.tokens)
  | _, self => [.dot]
  | _, parent => [.doubleDot]
  | _, test a t predicates => a.tokens ++ (t.tokens ++ predicates.tokens)
  | _, noPredicate => []
  | _, predicate e more => .leftBracket :: (e.tokens ++ .rightBracket :: more.tokens)
  | _, literal s => [.literal s]
  | _, number x => [.number x]
  | _, group e => .leftParen :: (e.tokens ++ [.rightParen])
  | _, call name _ => [.name name, .leftParen, .rightParen]
  | _, callWith name _ args => .name name :: .leftParen :: args.tokens
  | _, lastArgument e => e.tokens ++ [.rightParen]
  | _, argument e more => e.tokens ++ .comma :: more.tokens

/-- The syntax that a tree stands for. -/
def value : {s : Symbol} → Tree s → s.Value
  | _, operand first more => more.value first.value
  | _, negate e => Expr.negate e.value
  | _, union first more => more.value first.value
  | _, noOperator => fun left => left
  | _, operator _ join _ right more => fun left => more.value (join left right.value)
  | _, noUnion => fun left => left
  | _, pipe right more => fun left => more.value (.union left right.value)
  | _, filter primary noPredicate noStep => primary.value
  | _, filter primary predicates steps =>
    Expr.filter primary.value predicates.value steps.value
  | _, root => Expr.path true []
  | _, absolute first more => Expr.path true (first.value :: more.value)
  | _, anywhere first more => Expr.path true (.descendantOrSelf :: first.value :: more.value)
  | _, relative first more => Expr.path false (first.value :: more.value)
  | _, noStep => []
  | _, slash next more => next.value :: more.value
  | _, doubleSlash next more => .descendantOrSelf :: next.value :: more.value
  | _, self => .mk .self .node []
  | _, parent => .mk .parent .node []
  | _, test a t predicates => .mk a.value t.value predicates.value
  | _, noPredicate => []
  | _, predicate e more => e.value :: more.value
  | _, literal s => Expr.literal s
  | _, number x => Expr.number x
  | _, group e => e.value
  | _, call name _ => Expr.call (Xml.splitName name).1 (Xml.splitName name).2 []
  | _, callWith name _ args => Expr.call (Xml.splitName name).1 (Xml.splitName name).2 args.value
  | _, lastArgument e => [e.value]
  | _, argument e more => e.value :: more.value

/-- A tree may stand in front of these tokens: no slash in it that stands alone
is followed by a token that can start a step. -/
def Fits : {s : Symbol} → Tree s → List Token → Prop
  | _, operand first more, rest => first.Fits (more.tokens ++ rest) ∧ more.Fits rest
  | _, negate e, rest => e.Fits rest
  | _, union first more, rest => first.Fits (more.tokens ++ rest) ∧ more.Fits rest
  | _, noOperator, _ => True
  | _, operator _ _ _ right more, rest => right.Fits (more.tokens ++ rest) ∧ more.Fits rest
  | _, noUnion, _ => True
  | _, pipe right more, rest => right.Fits (more.tokens ++ rest) ∧ more.Fits rest
  | _, filter primary predicates steps, rest =>
    primary.Fits (predicates.tokens ++ (steps.tokens ++ rest)) ∧
      predicates.Fits (steps.tokens ++ rest) ∧ steps.Fits rest
  | _, root, rest => ∀ t ∈ rest.head?, t.startsStep = false
  | _, absolute first more, rest => first.Fits (more.tokens ++ rest) ∧ more.Fits rest
  | _, anywhere first more, rest => first.Fits (more.tokens ++ rest) ∧ more.Fits rest
  | _, relative first more, rest => first.Fits (more.tokens ++ rest) ∧ more.Fits rest
  | _, noStep, _ => True
  | _, slash next more, rest => next.Fits (more.tokens ++ rest) ∧ more.Fits rest
  | _, doubleSlash next more, rest => next.Fits (more.tokens ++ rest) ∧ more.Fits rest
  | _, self, _ => True
  | _, parent, _ => True
  | _, test _ _ predicates, rest => predicates.Fits rest
  | _, noPredicate, _ => True
  | _, predicate e more, rest => e.Fits (.rightBracket :: (more.tokens ++ rest)) ∧ more.Fits rest
  | _, literal _, _ => True
  | _, number _, _ => True
  | _, group e, rest => e.Fits (.rightParen :: rest)
  | _, call _ _, _ => True
  | _, callWith _ _ args, rest => args.Fits rest
  | _, lastArgument e, rest => e.Fits (.rightParen :: rest)
  | _, argument e more, rest => e.Fits (.comma :: (more.tokens ++ rest)) ∧ more.Fits rest

end Tree

/-! ## What derivations begin with -/

/-- The tokens begin with one of a kind. -/
def Starts (p : Token → Bool) (ts : List Token) : Prop := ∃ t rest, ts = t :: rest ∧ p t = true

namespace Starts

variable {p q : Token → Bool} {ts : List Token}

theorem append (h : Starts p ts) (rest : List Token) : Starts p (ts ++ rest) := by
  obtain ⟨t, ts, rfl, ht⟩ := h
  exact ⟨t, ts ++ rest, rfl, ht⟩

theorem mono (h : Starts p ts) (hpq : ∀ t, p t = true → q t = true) : Starts q ts := by
  obtain ⟨t, rest, hts, ht⟩ := h
  exact ⟨t, rest, hts, hpq t ht⟩

theorem head {t : Token} {rest : List Token} (h : Starts p (t :: rest)) : p t = true := by
  obtain ⟨_, _, heq, ht⟩ := h
  rw [(List.cons.inj heq).1, ht]

theorem ne {t : Token} {rest : List Token} (h : Starts p ts) (ht : p t = false) :
    ts ≠ t :: rest := by
  rintro rfl
  rw [h.head] at ht
  cases ht

end Starts

theorem startsStep_of_startsTest (t : Token) (h : t.startsTest = true) : t.startsStep = true := by
  cases t <;> simp_all [Token.startsTest, Token.startsStep]

theorem startsPath_of_startsStep (t : Token) (h : t.startsStep = true) : t.startsPath = true := by
  cases t <;> simp_all [Token.startsTest, Token.startsStep, Token.startsPath]

theorem startsPhrase_of_startsPath (t : Token) (h : t.startsPath = true) :
    t.startsPhrase = true := by
  cases t <;> simp_all [Token.startsPath, Token.startsPhrase]

/-- What derivations of a symbol begin with, where they cannot be empty. -/
def Symbol.Opens : Symbol → List Token → Prop
  | phrase _, ts | arguments, ts => Starts Token.startsPhrase ts
  | path, ts | primary, ts => Starts Token.startsPath ts
  | step, ts => Starts Token.startsStep ts
  | operators _, _ | unions, _ | steps, _ | predicates, _ => True

theorem starts_marks (a : AxisMark) (m : TestMark) :
    Starts Token.startsTest (a.tokens ++ m.tokens) := by
  cases a with
  | absent => cases m <;> exact ⟨_, _, rfl, rfl⟩
  | at_ => exact ⟨_, _, rfl, rfl⟩
  | named a => exact ⟨_, _, rfl, rfl⟩

theorem Tree.opens {s : Symbol} (t : Tree s) : s.Opens t.tokens := by
  induction t with
  | operand first more ih _ => exact Starts.append ih _
  | negate e _ => exact ⟨_, _, rfl, rfl⟩
  | union first more ih _ => exact (Starts.append ih _).mono startsPhrase_of_startsPath
  | filter primary predicates steps ih _ _ => exact Starts.append ih _
  | root => exact ⟨_, _, rfl, rfl⟩
  | absolute first more _ _ => exact ⟨_, _, rfl, rfl⟩
  | anywhere first more _ _ => exact ⟨_, _, rfl, rfl⟩
  | relative first more ih _ => exact (Starts.append ih _).mono startsPath_of_startsStep
  | self => exact ⟨_, _, rfl, rfl⟩
  | parent => exact ⟨_, _, rfl, rfl⟩
  | test a m predicates _ =>
    rw [tokens, ← List.append_assoc]
    exact ((starts_marks a m).append _).mono startsStep_of_startsTest
  | literal s => exact ⟨_, _, rfl, rfl⟩
  | number x => exact ⟨_, _, rfl, rfl⟩
  | group e _ => exact ⟨_, _, rfl, rfl⟩
  | call name h => exact ⟨_, _, rfl, rfl⟩
  | callWith name h args _ => exact ⟨_, _, rfl, rfl⟩
  | lastArgument e ih => exact Starts.append ih _
  | argument e more ih _ => exact Starts.append ih _
  | noOperator | operator | noUnion | pipe | noStep | slash | doubleSlash | noPredicate
  | predicate => trivial

/-! ## What may follow a derivation -/

/-- Below this grip a token does not continue a derivation of the symbol. -/
def Symbol.limit : Symbol → Nat
  | phrase l => rank l
  | operators l => rank (some l)
  | unions => 7
  | path | steps => 8
  | step | predicates => 9
  | primary | arguments => 11

theorem Loose.mono {k k' : Nat} {ts : List Token} (h : Loose k ts) (hk : k ≤ k') : Loose k' ts :=
  fun t ht => Nat.lt_of_lt_of_le (h t ht) hk

theorem loose_cons {k : Nat} {t : Token} {ts : List Token} : Loose k (t :: ts) ↔ t.grip < k := by
  simp [Loose]

theorem loose_nil (k : Nat) : Loose k [] := by simp [Loose]

theorem loose_any (ts : List Token) : Loose 11 ts := by
  intro t _
  cases t <;> simp only [Token.grip]
  case name => split_ifs <;> omega
  all_goals omega

section Following

variable {rest : List Token}

theorem loose_operators {l : Level} (more : Tree (.operators l)) (h : Loose (rank (some l)) rest) :
    Loose (rank l.next?) (more.tokens ++ rest) := by
  cases more with
  | noOperator => exact h.mono (by rw [rank_next]; omega)
  | operator op join hop right more =>
    have hgrip := isSome_operator? l op
    rw [hop, Option.isSome_some, eq_comm, beq_iff_eq] at hgrip
    rw [Tree.tokens, List.cons_append, loose_cons, rank_next]
    omega

theorem loose_unions (more : Tree .unions) (h : Loose 7 rest) : Loose 8 (more.tokens ++ rest) := by
  cases more with
  | noUnion => exact h.mono (by omega)
  | pipe right more => exact loose_cons.2 (by decide)

theorem loose_steps (more : Tree .steps) (h : Loose 8 rest) : Loose 9 (more.tokens ++ rest) := by
  cases more with
  | noStep => exact h.mono (by omega)
  | slash next more => exact loose_cons.2 (by decide)
  | doubleSlash next more => exact loose_cons.2 (by decide)

theorem loose_predicates (more : Tree .predicates) (h : Loose 9 rest) :
    Loose 10 (more.tokens ++ rest) := by
  cases more with
  | noPredicate => exact h.mono (by omega)
  | predicate e more => exact loose_cons.2 (by decide)

end Following

/-! ## Derivations are unique -/

theorem Axis.name_injective {a b : Axis} (h : a.name = b.name) : a = b := by
  cases a <;> cases b <;> first | rfl | exact absurd h (by decide)

/-- A name that is a test of its own is not followed by a parenthesis. -/
theorem TestMark.unique {m m' : TestMark} {rest rest' : List Token} (hrest : Loose 10 rest)
    (hrest' : Loose 10 rest') (h : m.tokens ++ rest = m'.tokens ++ rest') : m = m' := by
  have hparen : ∀ {ts}, ¬ Loose 10 (.leftParen :: ts) := fun h => by
    simp [loose_cons, Token.grip] at h
  cases m <;> cases m' <;>
    simp only [tokens, List.cons_append, List.nil_append, List.cons.injEq, Token.name.injEq,
      Token.anyWithPrefix.injEq, reduceCtorEq, false_and, true_and] at h
  case any.any | text.text | node.node | comment.comment => rfl
  case inNamespace.inNamespace | name.name => rw [h.1]
  case name.text | name.node | name.comment => exact absurd (h.2 ▸ hrest) hparen
  case text.name | node.name | comment.name => exact absurd (h.2 ▸ hrest') hparen
  case text.node | text.comment | node.text | node.comment | comment.text | comment.node =>
    exact absurd h.1 (by decide)

/-- A node test is not read as the mark of an axis. -/
theorem TestMark.ne_axis {m : TestMark} {rest : List Token} (hrest : Loose 10 rest) :
    (∀ ts, m.tokens ++ rest ≠ .at_ :: ts) ∧
      ∀ n ts, m.tokens ++ rest ≠ .name n :: .doubleColon :: ts := by
  constructor
  · intro ts h
    cases m <;> simp [tokens] at h
  · intro n ts h
    cases m <;> simp only [tokens, List.cons_append, List.nil_append, List.cons.injEq,
      reduceCtorEq, false_and, and_false] at h
    rw [h.2] at hrest
    simp [loose_cons, Token.grip] at hrest

theorem marks_unique {a a' : AxisMark} {m m' : TestMark} {rest rest' : List Token}
    (hrest : Loose 10 rest) (hrest' : Loose 10 rest')
    (h : a.tokens ++ (m.tokens ++ rest) = a'.tokens ++ (m'.tokens ++ rest')) :
    a = a' ∧ m = m' := by
  cases a <;> cases a' <;>
    simp only [AxisMark.tokens, List.nil_append, List.cons_append, List.cons.injEq, true_and,
      Token.name.injEq, reduceCtorEq, false_and] at h
  case absent.absent | at_.at_ => exact ⟨rfl, TestMark.unique hrest hrest' h⟩
  case absent.at_ => exact absurd h ((TestMark.ne_axis hrest).1 _)
  case absent.named => exact absurd h ((TestMark.ne_axis hrest).2 _ _)
  case at_.absent => exact absurd h.symm ((TestMark.ne_axis hrest').1 _)
  case named.absent => exact absurd h.symm ((TestMark.ne_axis hrest').2 _ _)
  case named.named => exact ⟨by rw [Axis.name_injective h.1], TestMark.unique hrest hrest' h.2⟩

theorem opensPrimary_primary (t : Tree .primary) (rest : List Token) :
    opensPrimary (t.tokens ++ rest) = true := by
  cases t with
  | literal s => rfl
  | number x => rfl
  | group e => rfl
  | call name h => simp [opensPrimary, h]
  | callWith name h args => simp [opensPrimary, h]

/-- A step does not begin like a call: what stands in front of a parenthesis in
it is the name of a node type. -/
theorem opensPrimary_step (t : Tree .step) {rest : List Token} (hrest : Loose 9 rest) :
    opensPrimary (t.tokens ++ rest) = false := by
  cases t with
  | self => rfl
  | parent => rfl
  | test a m predicates =>
    have hnext := loose_predicates predicates hrest
    rw [Tree.tokens, List.append_assoc, List.append_assoc]
    generalize predicates.tokens ++ rest = ts at hnext
    match a, m with
    | .absent, .any | .absent, .inNamespace _ => rfl
    | .absent, .text | .absent, .node | .absent, .comment => rfl
    | .absent, .name s =>
      match ts with
      | [] => rfl
      | u :: us =>
        cases u <;> first | rfl | simp [loose_cons, Token.grip] at hnext
    | .at_, _ => rfl
    | .named a, _ => rfl

/-- The productions of a path. -/
inductive PathForm where
  | filter
  | root
  | absolute
  | anywhere
  | relative
  deriving DecidableEq

/-- The production that a path is made by, read off its beginning. -/
def PathForm.ofTokens (ts : List Token) : PathForm :=
  if opensPrimary ts then filter
  else match ts with
    | .slash :: rest => if rest.head?.any (·.startsStep) then absolute else root
    | .doubleSlash :: _ => anywhere
    | _ => relative

/-- The production that a path is made by. -/
def Tree.form : Tree .path → PathForm
  | filter _ _ _ => .filter
  | root => .root
  | absolute _ _ => .absolute
  | anywhere _ _ => .anywhere
  | relative _ _ => .relative

theorem any_startsStep (first : Tree .step) (rest : List Token) :
    (first.tokens ++ rest).head?.any (·.startsStep) = true := by
  obtain ⟨u, us, hfirst, hu⟩ := first.opens
  rw [hfirst]
  exact hu

/-- The beginning of a path and what follows it decide its production. -/
theorem PathForm.ofTokens_tokens (t : Tree .path) {rest : List Token} (ht : t.Fits rest)
    (hrest : Loose 8 rest) : PathForm.ofTokens (t.tokens ++ rest) = t.form := by
  cases t with
  | filter primary predicates steps =>
    rw [Tree.tokens, List.append_assoc]
    unfold ofTokens
    rw [if_pos (opensPrimary_primary primary _)]
    rfl
  | root =>
    have hnone : rest.head?.any (·.startsStep) = false := by
      cases rest with
      | nil => rfl
      | cons u us => exact ht u rfl
    simp [ofTokens, opensPrimary, hnone, Tree.form]
  | absolute first more =>
    have hstep := any_startsStep first (more.tokens ++ rest)
    rw [Tree.tokens, List.cons_append, List.append_assoc, ofTokens]
    simp only [opensPrimary, hstep]
    rfl
  | anywhere first more => rfl
  | relative first more =>
    have hopens := opensPrimary_step first (loose_steps more hrest)
    obtain ⟨u, us, hfirst, hu⟩ := first.opens
    rw [Tree.tokens, List.append_assoc]
    unfold ofTokens
    rw [if_neg (by simp [hopens]), hfirst]
    cases u <;> first | rfl | cases hu

theorem Tree.form_eq {t t' : Tree .path} {rest rest' : List Token} (ht : t.Fits rest)
    (ht' : t'.Fits rest') (hrest : Loose 8 rest) (hrest' : Loose 8 rest')
    (h : t.tokens ++ rest = t'.tokens ++ rest') : t.form = t'.form := by
  rw [← PathForm.ofTokens_tokens t ht hrest, h, PathForm.ofTokens_tokens t' ht' hrest']

theorem starts_test (a : AxisMark) (m : TestMark) (predicates : Tree .predicates)
    (rest : List Token) : Starts Token.startsTest ((Tree.test a m predicates).tokens ++ rest) := by
  rw [Tree.tokens, ← List.append_assoc]
  exact ((starts_marks a m).append _).append _

/-- What continues a derivation does not follow it loosely. -/
theorem not_loose_of_eq {k : Nat} {rest ts : List Token} {t : Token} (h : rest = t :: ts)
    (ht : k ≤ t.grip) : ¬ Loose k rest := by
  rw [h, loose_cons]
  exact Nat.not_lt.2 ht

theorem not_loose_operator {l : Level} {op : Token} {join : Expr → Expr → Expr}
    (hop : l.operator? op = some join) {rest ts : List Token} (h : rest = op :: ts) :
    ¬ Loose (rank (some l)) rest := by
  have hgrip := isSome_operator? l op
  rw [hop, Option.isSome_some, eq_comm, beq_iff_eq] at hgrip
  exact not_loose_of_eq h (Nat.le_of_eq hgrip.symm)

/-- Two parts in a row, each with at most one derivation. -/
theorem unique_pair {s r : Symbol} {a a' : Tree s} {m m' : Tree r} {rest rest' : List Token}
    (ha : a.tokens ++ (m.tokens ++ rest) = a'.tokens ++ (m'.tokens ++ rest') → a = a')
    (hm : m.tokens ++ rest = m'.tokens ++ rest' → m = m')
    (h : a.tokens ++ m.tokens ++ rest = a'.tokens ++ m'.tokens ++ rest') : a = a' ∧ m = m' := by
  rw [List.append_assoc, List.append_assoc] at h
  obtain rfl := ha h
  exact ⟨rfl, hm (List.append_cancel_left h)⟩

/-- In front of what holds it loosely enough, a list of tokens has at most one
derivation, and it ends at one place. -/
theorem Tree.unique {s : Symbol} (t : Tree s) {t' : Tree s} {rest rest' : List Token}
    (ht : t.Fits rest) (ht' : t'.Fits rest') (hrest : Loose s.limit rest)
    (hrest' : Loose s.limit rest') (h : t.tokens ++ rest = t'.tokens ++ rest') : t = t' := by
  induction t generalizing rest rest' with
  | operand first more ihf ihm =>
    cases t' with
    | operand first' more' =>
      obtain ⟨rfl, rfl⟩ := unique_pair
        (ihf ht.1 ht'.1 (loose_operators more hrest) (loose_operators more' hrest'))
        (ihm ht.2 ht'.2 hrest hrest') h
      rfl
  | negate e ih =>
    cases t' with
    | negate e' => rw [ih ht (show e'.Fits rest' from ht') hrest hrest' (List.cons.inj h).2]
    | union first' more' =>
      exact absurd h.symm (((first'.opens.append _).append _).ne (by rfl))
  | union first more ihf ihm =>
    cases t' with
    | negate e' => exact absurd h (((first.opens.append _).append _).ne (by rfl))
    | union first' more' =>
      obtain ⟨rfl, rfl⟩ := unique_pair
        (ihf ht.1 ht'.1 (loose_unions more hrest) (loose_unions more' hrest'))
        (ihm ht.2 ht'.2 hrest hrest') h
      rfl
  | noOperator =>
    cases t' with
    | noOperator => rfl
    | operator op join hop right more => exact absurd hrest (not_loose_operator hop h)
  | operator op join hop right more ihr ihm =>
    cases t' with
    | noOperator => exact absurd hrest' (not_loose_operator hop h.symm)
    | operator op' join' hop' right' more' =>
      obtain ⟨rfl, hparts⟩ := List.cons.inj h
      obtain rfl := Option.some.inj (hop.symm.trans hop')
      obtain ⟨rfl, rfl⟩ := unique_pair
        (ihr ht.1 ht'.1 (loose_operators more hrest) (loose_operators more' hrest'))
        (ihm ht.2 ht'.2 hrest hrest') hparts
      rfl
  | noUnion =>
    cases t' with
    | noUnion => rfl
    | pipe right more =>
      exact absurd hrest (not_loose_of_eq h (by decide))
  | pipe right more ihr ihm =>
    cases t' with
    | noUnion =>
      exact absurd hrest' (not_loose_of_eq h.symm (by decide))
    | pipe right' more' =>
      obtain ⟨rfl, rfl⟩ := unique_pair
        (ihr ht.1 ht'.1 (loose_unions more hrest) (loose_unions more' hrest'))
        (ihm ht.2 ht'.2 hrest hrest') (List.cons.inj h).2
      rfl
  | filter primary predicates steps ihp ihq ihs =>
    have hform := form_eq ht ht' hrest hrest' h
    cases t' <;> cases hform
    case filter primary' predicates' steps' =>
      simp only [tokens, List.append_assoc] at h
      obtain rfl := ihp ht.1 ht'.1 (loose_any _) (loose_any _) h
      have h := List.append_cancel_left h
      obtain rfl := ihq ht.2.1 ht'.2.1 (loose_steps steps hrest) (loose_steps steps' hrest') h
      obtain rfl := ihs ht.2.2 ht'.2.2 hrest hrest' (List.append_cancel_left h)
      rfl
  | root =>
    have hform := form_eq ht ht' hrest hrest' h
    cases t' <;> cases hform
    rfl
  | absolute first more ihf ihm =>
    have hform := form_eq ht ht' hrest hrest' h
    cases t' <;> cases hform
    case absolute first' more' =>
      obtain ⟨rfl, rfl⟩ := unique_pair
        (ihf ht.1 ht'.1 (loose_steps more hrest) (loose_steps more' hrest'))
        (ihm ht.2 ht'.2 hrest hrest') (List.cons.inj h).2
      rfl
  | anywhere first more ihf ihm =>
    have hform := form_eq ht ht' hrest hrest' h
    cases t' <;> cases hform
    case anywhere first' more' =>
      obtain ⟨rfl, rfl⟩ := unique_pair
        (ihf ht.1 ht'.1 (loose_steps more hrest) (loose_steps more' hrest'))
        (ihm ht.2 ht'.2 hrest hrest') (List.cons.inj h).2
      rfl
  | relative first more ihf ihm =>
    have hform := form_eq ht ht' hrest hrest' h
    cases t' <;> cases hform
    case relative first' more' =>
      obtain ⟨rfl, rfl⟩ := unique_pair
        (ihf ht.1 ht'.1 (loose_steps more hrest) (loose_steps more' hrest'))
        (ihm ht.2 ht'.2 hrest hrest') h
      rfl
  | noStep =>
    cases t' with
    | noStep => rfl
    | slash next more => exact absurd hrest (not_loose_of_eq h (by decide))
    | doubleSlash next more => exact absurd hrest (not_loose_of_eq h (by decide))
  | slash next more ihn ihm =>
    cases t' with
    | noStep => exact absurd hrest' (not_loose_of_eq h.symm (by decide))
    | doubleSlash next' more' => cases (List.cons.inj h).1
    | slash next' more' =>
      obtain ⟨rfl, rfl⟩ := unique_pair
        (ihn ht.1 ht'.1 (loose_steps more hrest) (loose_steps more' hrest'))
        (ihm ht.2 ht'.2 hrest hrest') (List.cons.inj h).2
      rfl
  | doubleSlash next more ihn ihm =>
    cases t' with
    | noStep => exact absurd hrest' (not_loose_of_eq h.symm (by decide))
    | slash next' more' => cases (List.cons.inj h).1
    | doubleSlash next' more' =>
      obtain ⟨rfl, rfl⟩ := unique_pair
        (ihn ht.1 ht'.1 (loose_steps more hrest) (loose_steps more' hrest'))
        (ihm ht.2 ht'.2 hrest hrest') (List.cons.inj h).2
      rfl
  | self =>
    cases t' with
    | self => rfl
    | parent => cases (List.cons.inj h).1
    | test a m predicates =>
      exact absurd h.symm ((starts_test a m predicates rest').ne (by rfl))
  | parent =>
    cases t' with
    | self => cases (List.cons.inj h).1
    | parent => rfl
    | test a m predicates =>
      exact absurd h.symm ((starts_test a m predicates rest').ne (by rfl))
  | test a m predicates ih =>
    cases t' with
    | self => exact absurd h ((starts_test a m predicates rest).ne (by rfl))
    | parent => exact absurd h ((starts_test a m predicates rest).ne (by rfl))
    | test a' m' predicates' =>
      simp only [tokens, List.append_assoc] at h
      obtain ⟨rfl, rfl⟩ :=
        marks_unique (loose_predicates predicates hrest) (loose_predicates predicates' hrest') h
      have h := List.append_cancel_left (List.append_cancel_left h)
      rw [ih ht (show predicates'.Fits rest' from ht') hrest hrest' h]
  | noPredicate =>
    cases t' with
    | noPredicate => rfl
    | predicate e more => exact absurd hrest (not_loose_of_eq h (by decide))
  | predicate e more ihe ihm =>
    cases t' with
    | noPredicate => exact absurd hrest' (not_loose_of_eq h.symm (by decide))
    | predicate e' more' =>
      simp only [tokens, List.cons_append, List.append_assoc] at h
      have h := (List.cons.inj h).2
      obtain rfl := ihe ht.1 ht'.1 (loose_cons.2 (by decide)) (loose_cons.2 (by decide)) h
      obtain rfl := ihm ht.2 ht'.2 hrest hrest' (List.cons.inj (List.append_cancel_left h)).2
      rfl
  | literal s =>
    cases t' <;> cases (List.cons.inj h).1
    rfl
  | number x =>
    cases t' <;> cases (List.cons.inj h).1
    rfl
  | group e ih =>
    cases t' <;> cases (List.cons.inj h).1
    case group e' =>
      simp only [tokens, List.cons_append, List.append_assoc, List.nil_append] at h
      rw [ih ht (show e'.Fits (.rightParen :: rest') from ht') (loose_cons.2 (by decide))
        (loose_cons.2 (by decide)) (List.cons.inj h).2]
  | call name hname =>
    cases t' with
    | call name' hname' =>
      cases (List.cons.inj h).1
      rfl
    | callWith name' hname' args' =>
      have hargs := (List.cons.inj (List.cons.inj h).2).2
      exact absurd hargs.symm ((args'.opens.append _).ne (by rfl))
    | _ => cases (List.cons.inj h).1
  | callWith name hname args ih =>
    cases t' with
    | call name' hname' =>
      have hargs := (List.cons.inj (List.cons.inj h).2).2
      exact absurd hargs ((args.opens.append _).ne (by rfl))
    | callWith name' hname' args' =>
      have hargs := (List.cons.inj (List.cons.inj h).2).2
      cases (List.cons.inj h).1
      rw [ih ht (show args'.Fits rest' from ht') hrest hrest' hargs]
    | _ => cases (List.cons.inj h).1
  | lastArgument e ih =>
    cases t' with
    | lastArgument e' =>
      simp only [tokens, List.append_assoc, List.cons_append, List.nil_append] at h
      rw [ih ht (show e'.Fits (.rightParen :: rest') from ht') (loose_cons.2 (by decide))
        (loose_cons.2 (by decide)) h]
    | argument e' more' =>
      simp only [tokens, List.append_assoc, List.cons_append, List.nil_append] at h
      obtain rfl := ih ht ht'.1 (loose_cons.2 (by decide)) (loose_cons.2 (by decide)) h
      cases (List.cons.inj (List.append_cancel_left h)).1
  | argument e more ihe ihm =>
    cases t' with
    | lastArgument e' =>
      simp only [tokens, List.append_assoc, List.cons_append, List.nil_append] at h
      obtain rfl := ihe ht.1 (show e'.Fits (.rightParen :: rest') from ht')
        (loose_cons.2 (by decide)) (loose_cons.2 (by decide)) h
      cases (List.cons.inj (List.append_cancel_left h)).1
    | argument e' more' =>
      simp only [tokens, List.append_assoc, List.cons_append] at h
      obtain rfl := ihe ht.1 ht'.1 (loose_cons.2 (by decide)) (loose_cons.2 (by decide)) h
      obtain rfl := ihm ht.2 ht'.2 hrest hrest' (List.cons.inj (List.append_cancel_left h)).2
      rfl

end LabelTemplate.XPath.Grammar
