import LabelTemplate.Proofs.Outcome
import LabelTemplate.Template.Environment

/-!
# Why an expression has no value

An evaluation fails for a reason of its own or for one that a function of the
library gives, and nothing else comes in between (`Scope.eval_failsWith`).  A
function that is registered can evaluate expressions in turn; `Extension.FailsWith`
asks of it what follows for the whole library, by induction on how deeply such
evaluations are nested (`Environment.evaluate_failsWith`).
-/

namespace LabelTemplate

open Outcome

variable {q : Error → Prop}

namespace XPath.Scope

/-- The reasons of an evaluation itself and of its library are among those in `q`. -/
structure Fails (q : Error → Prop) (s : Scope) : Prop where
  evaluation : ∀ fault, q (.evaluation fault)
  library : ∀ call x, s.library call = some x → FailsWith q x

variable {s : Scope}

/-! ## Parts of an evaluation -/

theorem nodeSet_failsWith (hq : ∀ fault, q (.evaluation fault)) (what : String) (v : Value) :
    FailsWith q (nodeSet what v) := by
  cases v with
  | nodes hs => exact .ok hs
  | _ => exact .error (hq _)

theorem document_failsWith (h : s.Fails q) (key : DocKey) : FailsWith q (s.document key) := by
  unfold document
  split
  · exact .ok _
  · exact .error (h.evaluation _)

theorem resolvePrefix_failsWith (h : s.Fails q) (p : String) :
    FailsWith q (s.resolvePrefix p) := by
  unfold resolvePrefix
  split
  · exact .ok _
  · exact .error (h.evaluation _)

/-- Only the prefix of a test can be at fault. -/
theorem passes_failsWith (h : s.Fails q) (d : Xml.Document) (a : Axis) (test : NodeTest)
    (x : Handle) : FailsWith q (s.passes d a test x) := by
  cases test with
  | node | text | comment | any => exact .ok _
  | name pfx localName =>
    cases pfx with
    | none => exact .ok _
    | some p => exact (resolvePrefix_failsWith h p).map.bind fun _ => .ok _
  | inNamespace p => exact (resolvePrefix_failsWith h p).bind fun _ => .ok _

theorem callFunction_failsWith (h : s.Fails q) (ctx : CallContext) (pfx : Option String)
    (name : String) (args : List Value) : FailsWith q (s.callFunction ctx pfx name args) := by
  unfold callFunction
  dsimp only
  split
  · exact .mapError_of_forall _ h.evaluation
  · split
    · exact h.library _ _ ‹_›
    · exact .error (h.evaluation _)

theorem filterNodes_failsWith {predicate : CallContext → Except Error Value}
    (hpredicate : ∀ ctx, FailsWith q (predicate ctx)) (size position : Nat) (hs : List Handle) :
    FailsWith q (filterNodes size predicate position hs) := by
  induction hs generalizing position with
  | nil => exact .ok []
  | cons x hs ih => exact (hpredicate _).bind fun _ => (ih (position + 1)).bind fun _ => .ok _

/-! ## Expressions -/

mutual

/-- The value of an expression is missing for a reason in `q`. -/
theorem eval_failsWith (h : s.Fails q) (ctx : CallContext) (e : Expr) :
    FailsWith q (s.eval ctx e) := by
  cases e with
  | or l r =>
    unfold eval
    refine (eval_failsWith h ctx l).bind fun left => ?_
    split
    · exact .ok _
    · exact (eval_failsWith h ctx r).bind fun _ => .ok _
  | and l r =>
    unfold eval
    refine (eval_failsWith h ctx l).bind fun left => ?_
    split
    · exact .ok _
    · exact (eval_failsWith h ctx r).bind fun _ => .ok _
  | binary op l r =>
    unfold eval
    refine (eval_failsWith h ctx l).bind fun left => (eval_failsWith h ctx r).bind fun right => ?_
    split <;> exact .ok _
  | negate e =>
    unfold eval
    exact (eval_failsWith h ctx e).bind fun _ => .ok _
  | union l r =>
    unfold eval
    refine (eval_failsWith h ctx l).bind fun v =>
      (nodeSet_failsWith h.evaluation _ v).bind fun left => ?_
    exact (eval_failsWith h ctx r).bind fun w =>
      (nodeSet_failsWith h.evaluation _ w).bind fun right => .ok _
  | literal t =>
    unfold eval
    exact .ok _
  | number x =>
    unfold eval
    exact .ok _
  | call pfx name args =>
    unfold eval
    exact (evalAll_failsWith h ctx args).bind fun vs => callFunction_failsWith h ctx pfx name vs
  | path absolute steps =>
    unfold eval
    exact (takeSteps_failsWith h _ steps).bind fun _ => .ok _
  | filter primary predicates steps =>
    unfold eval
    refine (eval_failsWith h ctx primary).bind fun v =>
      (nodeSet_failsWith h.evaluation _ v).bind fun hs => ?_
    exact (applyPredicates_failsWith h hs predicates).bind fun kept =>
      (takeSteps_failsWith h kept steps).bind fun _ => .ok _
termination_by sizeOf e

theorem evalAll_failsWith (h : s.Fails q) (ctx : CallContext) (es : List Expr) :
    FailsWith q (s.evalAll ctx es) := by
  cases es with
  | nil =>
    unfold evalAll
    exact .ok []
  | cons e es =>
    unfold evalAll
    exact (eval_failsWith h ctx e).bind fun _ => (evalAll_failsWith h ctx es).bind fun _ => .ok _
termination_by sizeOf es

theorem applyPredicates_failsWith (h : s.Fails q) (hs : List Handle) (predicates : List Expr) :
    FailsWith q (s.applyPredicates hs predicates) := by
  cases predicates with
  | nil =>
    unfold applyPredicates
    exact .ok hs
  | cons p ps =>
    unfold applyPredicates
    exact (filterNodes_failsWith (fun ctx => eval_failsWith h ctx p) _ 1 hs).bind fun kept =>
      applyPredicates_failsWith h kept ps
termination_by sizeOf predicates

theorem takeSteps_failsWith (h : s.Fails q) (hs : List Handle) (steps : List Step) :
    FailsWith q (s.takeSteps hs steps) := by
  cases steps with
  | nil =>
    unfold takeSteps
    exact .ok hs
  | cons step steps =>
    unfold takeSteps
    exact (FailsWith.mapM fun x => takeStep_failsWith h x step).bind fun reached =>
      takeSteps_failsWith h _ steps
termination_by sizeOf steps

theorem takeStep_failsWith (h : s.Fails q) (x : Handle) (step : Step) :
    FailsWith q (s.takeStep x step) := by
  cases step with
  | mk a test predicates =>
    unfold takeStep
    exact (document_failsWith h x.doc).bind fun d =>
      (FailsWith.filterM (passes_failsWith h d a test) _).bind fun found =>
        applyPredicates_failsWith h found predicates
termination_by sizeOf step

end

end XPath.Scope

/-! ## The library of an environment -/

open XPath

/-- A function fails for no other reasons than those in `q`, if what it evaluates does. -/
def Extension.FailsWith (q : Error → Prop) (f : Extension) : Prop :=
  ∀ c : ExtensionCall, (∀ text, Outcome.FailsWith q (c.evalTemplate text)) →
    (∀ text, Outcome.FailsWith q (c.evalSource text)) → Outcome.FailsWith q (f c)

/-- All functions of a registry do. -/
def Registry.FailsWith (q : Error → Prop) (r : Registry) : Prop :=
  ∀ name f, r.lookup name = some f → Extension.FailsWith q f

namespace Environment

variable {env : Environment} (hevaluation : ∀ fault, q (.evaluation fault))
  (hexpression : ∀ e, q (.expression e)) (hregistry : env.registry.FailsWith q)

include hevaluation hexpression hregistry

theorem library_failsWith (element : Xml.NodeId) (source : Option DocKey) (depth : Nat)
    {call : Call} {x : Except Error Value} (h : env.library element source depth call = some x) :
    Outcome.FailsWith q x := by
  induction depth generalizing call x with
  | zero =>
    cases h
    exact .error (hevaluation _)
  | succ depth ih =>
    obtain ⟨f, hf, rfl⟩ := Option.map_eq_some_iff.1 h
    -- a function evaluates its texts with what is left of the depth
    have hinner : ∀ (namespaces : Namespaces) (key : DocKey) (text : String),
        Outcome.FailsWith q ((Expr.parse text).mapError .expression >>= fun e =>
          ({ docs := env.docs, namespaces, library := env.library element source depth } :
            Scope).evaluate e ⟨key, .document⟩) := fun namespaces key text =>
      (FailsWith.mapError_of_forall _ hexpression).bind fun e =>
        Scope.eval_failsWith ⟨hevaluation, fun call x hx => ih hx⟩ _ e
    refine hregistry _ f hf _ (hinner _ _) fun text => ?_
    dsimp only
    split
    · exact .error (hevaluation _)
    · exact hinner _ _ text

/-- An expression has no value for a reason of its own or for one of a function. -/
theorem evaluate_failsWith (e : Expr) (namespaces : Namespaces) (node : Handle)
    (element : Xml.NodeId) (source : Option DocKey) :
    Outcome.FailsWith q (env.evaluate e namespaces node element source) :=
  Scope.eval_failsWith
    ⟨hevaluation, fun _ _ hx => library_failsWith hevaluation hexpression hregistry _ _ _ hx⟩ _ e

end Environment

end LabelTemplate
