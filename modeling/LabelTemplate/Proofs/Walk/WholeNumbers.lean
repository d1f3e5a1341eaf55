import LabelTemplate.Proofs.Number.Words
import LabelTemplate.Proofs.Walk.Conforming
import LabelTemplate.Proofs.Walk.Inheritance

/-!
# Directives that take whole numbers

How often an element is repeated and which branch is filled in are whole numbers,
and an expression for them may come to any float.  What the float comes to
(`AsWord`) decides what becomes of the element: below zero it is refused, and
else it holds the float without its fraction (`resolve_number`).  A float beyond
the words of the machine is not refused; the element holds the greatest word then.
-/

namespace LabelTemplate

open Xml XPath Outcome
open Number (AsWord toWord? asWord_iff)

/-- A number, also one that is the only item of a sequence. -/
inductive XPath.Value.IsNumber (x : Float) : Value → Prop
  | number : IsNumber x (.number x)
  | only {v : Value} (h : IsNumber x v) : IsNumber x (.sequence [v])

namespace ElementState

variable {s : ElementState} {env : Environment} {d : Directive} {v : Value} {x : Float}

/-- The declared expression has the value `v` at the document node of the primary
source. -/
def Gives (s : ElementState) (env : Environment) (d : Directive) (v : Value) : Prop :=
  ∃ source e, s.sources.primary = some source ∧ Expr.parse (s.declaration d).expression = .ok e ∧
    env.evaluate e s.namespaces ⟨source, .document⟩ (s.node.getD env.template.root) (some source) =
      .ok v

theorem evaluateExpression_of_gives (h : s.Gives env d v) :
    s.evaluateExpression env d = s.conform env d v := by
  obtain ⟨source, e, hsource, hparse, heval⟩ := h
  rw [evaluateExpression, hsource]
  dsimp only
  rw [hparse]
  dsimp only [Except.mapError, bind, Except.bind]
  rw [heval]

/-- Where whole numbers are taken, a number is refused or loses its fraction. -/
theorem conform_number (hv : v.IsNumber x) (hd : d.types.integer = true) :
    s.conform env d v =
      match toWord? x with
      | some k => .ok (.integer k)
      | none => s.fail env (.negativeNumber (s.declaration d) x) := by
  induction hv with
  | number =>
    rw [conform_of_scalar rfl, conformScalar, if_pos hd, toWord?]
    split <;> rfl
  | only _ ih =>
    rw [conform_of_items rfl, List.map_singleton, ih]
    rfl

/-- The state with a whole number for a directive. -/
def holding (s : ElementState) (d : Directive) (k : Nat) : ElementState :=
  if d = .multi then { s with multi := .count k } else { s with multiBranch := some k }

/-- The whole number that a state holds for a directive. -/
def whole? (s : ElementState) : Directive → Option Nat
  | .multi =>
    match s.multi with
    | .count k => some k
    | .flag _ => none
  | .multiBranch => s.multiBranch
  | _ => none

theorem resolveDirective_number (hd : d = .multi ∨ d = .multiBranch) (h : s.Gives env d v)
    (hv : v.IsNumber x) :
    s.resolveDirective env d =
      match toWord? x with
      | some k => .ok (s.holding d k)
      | none => s.fail env (.negativeNumber (s.declaration d) x) := by
  have hvalue : s.evaluateExpression env d = _ :=
    (evaluateExpression_of_gives h).trans (conform_number hv (by rcases hd with rfl | rfl <;> rfl))
  have hstore : s.resolveDirective env d = s.store env d := by
    rcases hd with rfl | rfl <;> rfl
  rw [hstore, store, hvalue]
  cases toWord? x with
  | none => rfl
  | some k => rcases hd with rfl | rfl <;> rfl

theorem whole?_holding (hd : d = .multi ∨ d = .multiBranch) (s : ElementState) (k : Nat) :
    (s.holding d k).whole? d = some k := by
  rcases hd with rfl | rfl <;> rfl

/-- What was set for a directive stays while others are resolved. -/
theorem Kept.whole?_eq {p : Directive → Prop} {s' : ElementState} (h : Kept p s s') (hp : ¬ p d) :
    s'.whole? d = s.whole? d := by
  cases d with
  | multi => simp only [whole?, h.multi hp]
  | multiBranch => exact h.multiBranch hp
  | _ => rfl

/-- The declaration of a directive is the one among the others of its element. -/
theorem declaration_of_sorted {front back : Declarations} {y : Declared}
    (hsorted : Declarations.Sorted (front ++ y :: back)) (hs : s.declared = front ++ y :: back) :
    s.declaration y.directive = y := by
  have hnone : front.find? (·.directive = y.directive) = none := by
    refine List.find?_eq_none.2 fun z hz => ?_
    have hne : z.directive ≠ y.directive := fun heq =>
      Nat.ne_of_lt (hsorted.around.1 z hz) (congrArg Directive.rank heq)
    simpa using hne
  simp [declaration, Declarations.expression?, hs, hnone]

/-- An element whose expression comes to a number is refused with that number, or
the number is cut to a word, which the element holds if it is not refused for
something else. -/
theorem resolve_number {parent s : ElementState} {n : NodeId} {front back : Declarations}
    {y : Declared} (hy : y.directive = .multi ∨ y.directive = .multiBranch)
    (hdeclared : env.template.declarations n = .ok (front ++ y :: back))
    (hbound : ¬ Unbound parent (front ++ y :: back))
    (hfront : resolveAll env (inherit parent n (front ++ y :: back)) front = .ok s)
    (hvalue : s.Gives env y.directive v) (hv : v.IsNumber x) :
    (AsWord x none ∧
      ∃ e, resolve env parent n = .error e ∧ e.category = "eval" ∧
        e = .node (.negativeNumber y x) (env.template.location n)) ∨
      ∃ k, AsWord x (some k) ∧
        (∃ s₁, s.resolveDirective env y.directive = .ok s₁ ∧ s₁.whole? y.directive = some k) ∧
          ∀ s', resolve env parent n = .ok s' → s'.whole? y.directive = some k := by
  have hkept := kept_resolveAll hfront
  have hsorted : Declarations.Sorted (front ++ y :: back) :=
    Declarations.sorted_of_foldlM (mapError_eq_ok.1 hdeclared)
  have hdirective := resolveDirective_number hy hvalue hv
  have hall : resolveAll env (inherit parent n (front ++ y :: back)) (front ++ y :: back) =
      s.resolveDirective env y.directive >>= fun s₁ => resolveAll env s₁ back := by
    unfold resolveAll at hfront ⊢
    rw [List.foldlM_append, hfront]
    rfl
  cases hx : toWord? x with
  | none =>
    refine .inl ⟨asWord_iff.2 hx, _, ?_, rfl, rfl⟩
    have hrefused : s.fail env (.negativeNumber (s.declaration y.directive) x) =
        (.error (.node (.negativeNumber y x) (env.template.location n)) :
          Except Error ElementState) := by
      rw [declaration_of_sorted hsorted hkept.declared, fail, location, hkept.node]
      rfl
    rw [hx] at hdirective
    rw [resolve_eq hdeclared hbound, hall, hdirective]
    exact congrArg (· >>= _ >>= _) hrefused
  | some k =>
    rw [hx] at hdirective
    refine .inr ⟨k, asWord_iff.2 hx, ⟨_, hdirective, whole?_holding hy s k⟩, fun s' hs' => ?_⟩
    rw [resolve_eq hdeclared hbound, hall, hdirective] at hs'
    obtain ⟨s₂, hback, hs'⟩ := bind_eq_ok.1 hs'
    obtain ⟨-, -, hs'⟩ := bind_eq_ok.1 hs'
    cases hs'
    -- What is resolved later has a higher rank, so it is another directive.
    have hother : ¬ ∃ z ∈ back, z.directive = y.directive := by
      rintro ⟨z, hz, heq⟩
      exact Nat.ne_of_gt (hsorted.around.2 z hz) (congrArg Directive.rank heq)
    rw [(kept_resolveAll hback).whole?_eq hother, whole?_holding hy]

/-- True for the number above all others. -/
def isEndless : Value → Bool
  | .number x => Number.parts x = .infinite false
  | _ => false

/-- An element that is to be repeated without end. -/
def endless : Environment where
  docs := #[.ofForest (declaring "a" [] (declaring "b" [("multi", "1 div 0")] .nil)),
    .ofForest (declaring "a" [] .nil)]

/-- The state above it, which is bound to a source that is fetched from. -/
def fetching : ElementState := { sources := .single 1, fetch := true }

theorem resolve_number_endless :
    ∃ s, resolve endless fetching 1 = .ok s ∧ s.whole? .multi = some (2 ^ 64 - 1) := by
  have hdeclared : endless.template.declarations 1 = .ok [⟨.multi, "1 div 0"⟩] :=
    toOption_eq_some.1 (by decide +kernel)
  have hrun : ((Expr.parse "1 div 0").toOption.any fun e =>
      (endless.evaluate e [] ⟨1, .document⟩ 1 (some 1)).toOption.any isEndless) = true := by
    decide +kernel
  obtain ⟨e, he, hrun⟩ := (Option.any_eq_true _ _).1 hrun
  obtain ⟨v, hv, hendless⟩ := (Option.any_eq_true _ _).1 hrun
  have hvalue : (inherit fetching 1 [⟨.multi, "1 div 0"⟩]).Gives endless .multi v :=
    ⟨1, e, rfl, toOption_eq_some.1 he, toOption_eq_some.1 hv⟩
  obtain ⟨x, rfl, hx⟩ : ∃ x, v = .number x ∧ AsWord x (some (2 ^ 64 - 1)) := by
    cases v with
    | number x => exact ⟨x, rfl, .aboveAll (of_decide_eq_true hendless)⟩
    | _ => cases hendless
  obtain ⟨hrefused, -⟩ | ⟨k, hk, -, hheld⟩ :=
    @resolve_number endless (.number x) x fetching _ 1 [] [] ⟨.multi, "1 div 0"⟩ (.inl rfl)
      hdeclared (fun h => absurd h.2.2 (by decide)) rfl hvalue .number
  · have hnone := hx.toWord?_eq.symm.trans hrefused.toWord?_eq
    cases hnone
  · obtain ⟨s, hs⟩ : ∃ s, (resolve endless fetching 1).toOption = some s :=
      Option.isSome_iff_exists.1 (by decide +kernel)
    rw [hx.toWord?_eq.symm.trans hk.toWord?_eq]
    exact ⟨s, toOption_eq_some.1 hs, hheld s (toOption_eq_some.1 hs)⟩

end ElementState

end LabelTemplate
