import LabelTemplate.Proofs.Reading.Frames
import LabelTemplate.Proofs.Walk.Directives

/-!
# Inheritance

The states of elements one below the other, each resolved from the one above,
the first from `root`.  An inherited directive has at every element the value
it got at the nearest element of the chain that declares it
(`resolveChain_inherits`); the other directives are as at the start unless the
element itself declares them.

One resolution takes an inherited value from the parent or sets it
(`agreesOn_of_resolve`, `holds_of_resolve`).  Along a chain the first case is
followed up to the nearest declaration, or to where the chain starts
(`agreesOn_nearest?`).
-/

namespace LabelTemplate

open Xml Outcome

namespace ElementState

/-- The states of elements, each resolved from that of the element before. -/
def resolveChain (env : Environment) (parent : ElementState) :
    List NodeId → Except Error (List ElementState)
  | [] => .ok []
  | n :: ns => do
    let s ← resolve env parent n
    return s :: (← resolveChain env s ns)

/-- The last state of a chain whose element declares the directive. -/
def nearest? (d : Directive) (chain : List ElementState) : Option ElementState :=
  chain.reverse.find? (·.declares d)

@[simp] theorem nearest?_nil (d : Directive) : nearest? d [] = none := rfl

theorem nearest?_cons (d : Directive) (s : ElementState) (chain : List ElementState) :
    nearest? d (s :: chain) =
      (nearest? d chain).or (if s.declares d = true then some s else none) := by
  rw [nearest?, List.reverse_cons, List.find?_append, List.find?_cons]
  cases s.declares d <;> rfl

theorem declares_of_nearest? {d : Directive} {chain : List ElementState} {a : ElementState}
    (h : nearest? d chain = some a) : a ∈ chain ∧ a.declares d = true :=
  ⟨List.mem_reverse.1 (List.mem_of_find?_eq_some h), by simpa using List.find?_some h⟩

variable {env : Environment} {parent s : ElementState} {n : NodeId} {d : Directive}

/-! ## One element -/

/-- A resolved state knows its element and what this declares. -/
theorem declared_of_resolve (h : resolve env parent n = .ok s) :
    s.node = some n ∧ env.template.declarations n = .ok s.declared := by
  obtain ⟨ds, hds, -, hall, -⟩ := resolve_eq_ok.1 h
  have hkept := kept_resolveAll hall
  rw [hkept.node, hkept.declared]
  exact ⟨rfl, hds⟩

/-- A declared directive has the value of its expression. -/
theorem holds_of_resolve (h : resolve env parent n = .ok s) (hd : s.declares d = true) :
    s.Holds env d := by
  obtain ⟨ds, hds, -, hall, -⟩ := resolve_eq_ok.1 h
  have hdeclared : s.declared = ds := (kept_resolveAll hall).declared
  rw [declares, hdeclared] at hd
  exact resolved_holds (Declarations.sorted_of_foldlM (mapError_eq_ok.1 hds)) hall hd

/-- A directive that is not declared is as in the parent if it is inherited,
else as at the start. -/
theorem agreesOn_of_resolve (h : resolve env parent n = .ok s) (hd : s.declares d = false) :
    s.AgreesOn (if d.isInherited then parent else root) d := by
  obtain ⟨ds, hds, -, hall, -⟩ := resolve_eq_ok.1 h
  have hkept := kept_resolveAll hall
  have hnone : ¬ ∃ x ∈ ds, x.directive = d := by
    rintro ⟨x, hx, rfl⟩
    rw [declares, hkept.declared] at hd
    have hdeclares : (inherit parent n ds).declared.declares x.directive = true :=
      Declarations.declares_of_mem hx
    rw [hdeclares] at hd
    cases hd
  refine (hkept.agreesOn hnone).trans ?_
  cases d <;> simp [AgreesOn, inherit, Directive.isInherited, root]

/-! ## A chain of elements -/

theorem resolveChain_cons {ns : List NodeId} {states : List ElementState}
    (h : resolveChain env parent (n :: ns) = .ok states) :
    ∃ s rest, resolve env parent n = .ok s ∧ resolveChain env s ns = .ok rest ∧
      states = s :: rest := by
  obtain ⟨s, hs, h⟩ := bind_eq_ok.1 h
  obtain ⟨rest, hrest, h⟩ := bind_eq_ok.1 h
  cases h
  exact ⟨s, rest, hs, hrest, rfl⟩

/-- Each state of a chain was resolved for its element. -/
theorem exists_resolve {ns : List NodeId} {states : List ElementState}
    (h : resolveChain env parent ns = .ok states) {i : Nat} (hs : states[i]? = some s) :
    ∃ above n, ns[i]? = some n ∧ resolve env above n = .ok s := by
  induction ns generalizing parent states i with
  | nil =>
    cases h
    simp at hs
  | cons n ns ih =>
    obtain ⟨s₀, rest, hs₀, hrest, rfl⟩ := resolveChain_cons h
    cases i with
    | zero =>
      cases hs
      exact ⟨parent, n, rfl, hs₀⟩
    | succ i => exact ih hrest hs

/-- An inherited directive comes from the nearest element that declares it, or
from above the chain. -/
theorem agreesOn_nearest? {ns : List NodeId} {states : List ElementState}
    (h : resolveChain env parent ns = .ok states) {i : Nat} (hs : states[i]? = some s)
    (hd : d.isInherited = true) :
    s.AgreesOn ((nearest? d (states.take (i + 1))).getD parent) d := by
  induction ns generalizing parent states i with
  | nil =>
    cases h
    simp at hs
  | cons n ns ih =>
    obtain ⟨s₀, rest, hs₀, hrest, rfl⟩ := resolveChain_cons h
    have hfirst : s₀.AgreesOn ((if s₀.declares d = true then some s₀ else none).getD parent) d := by
      split
      · exact .refl s₀ d
      · have hparent := agreesOn_of_resolve hs₀ (by simpa using ‹¬ s₀.declares d = true›)
        rw [if_pos hd] at hparent
        exact hparent
    cases i with
    | zero =>
      cases hs
      simpa [nearest?_cons] using hfirst
    | succ i =>
      have hrest := ih hrest hs
      rw [List.take_succ_cons, nearest?_cons]
      cases hnearest : nearest? d (rest.take (i + 1)) with
      | some a =>
        rw [hnearest] at hrest
        exact hrest
      | none =>
        rw [hnearest] at hrest
        exact hrest.trans hfirst

/-- What the state at the end of a chain of states has to do with the chain. -/
structure Inherits (env : Environment) (chain : List ElementState) (s : ElementState) : Prop where
  /-- An inherited directive is as at the nearest declaration, if there is one. -/
  inherited : ∀ d, d.isInherited = true → s.AgreesOn ((nearest? d chain).getD root) d
  /-- There it has the value of the expression declared there. -/
  declared : ∀ d a, nearest? d chain = some a → a.Holds env d
  /-- The other directives are not handed down. -/
  own : ∀ d, d.isInherited = false → s.declares d = false → s.AgreesOn root d

/-- Every element of a chain that is resolved from its start inherits along it. -/
theorem resolveChain_inherits {ns : List NodeId} {states : List ElementState}
    (h : resolveChain env root ns = .ok states) {i : Nat} (hs : states[i]? = some s) :
    ns[i]? = s.node ∧ (∃ n ∈ s.node, env.template.declarations n = .ok s.declared) ∧
      Inherits env (states.take (i + 1)) s := by
  obtain ⟨above, n, hn, hresolve⟩ := exists_resolve h hs
  obtain ⟨hnode, hdeclared⟩ := declared_of_resolve hresolve
  refine ⟨hn.trans hnode.symm, ⟨n, hnode, hdeclared⟩, ?_, ?_, ?_⟩
  · exact fun d hd => agreesOn_nearest? h hs hd
  · intro d a ha
    obtain ⟨hmem, hdeclares⟩ := declares_of_nearest? ha
    obtain ⟨j, hj⟩ := List.mem_iff_getElem?.1 (List.mem_of_mem_take hmem)
    obtain ⟨above, m, -, hresolve⟩ := exists_resolve h hj
    exact holds_of_resolve hresolve hdeclares
  · intro d hd hnone
    simpa [hd] using agreesOn_of_resolve hresolve hnone

/-- An element that declares directives, with what is below it. -/
def declaring (name : String) (directives : List (String × String)) (kids : Forest) : Forest :=
  .node (.element
    { name := .plain name
      attributes := directives.map fun d =>
        ⟨⟨some directivePrefix, some directiveNamespace, d.1⟩, d.2⟩ }) none kids .nil

/-- Five elements one below the other.  The first is bound to one document and
the fourth to another one, whether something is required is declared above and
below the element that declares a fetch, and the third is fetched twice. -/
def fiveDeep : Environment where
  docs := #[.ofForest
      (declaring "a" [("sources", "one"), ("required", "true()")]
        (declaring "b" [("fetch", "true()"), ("multi_branch", "1")]
          (declaring "c" [("multi", "2")]
            (declaring "d" [("sources", "two"), ("required", "false()")]
              (declaring "e" [] .nil))))),
    .ofForest (declaring "a" [] .nil), .ofForest (declaring "a" [] .nil)]
  sources := [("one", .single 1), ("two", .single 2)]

theorem resolveChain_inherits_fiveDeep :
    ∃ states, resolveChain fiveDeep root [0, 1, 2, 3, 4] = .ok states ∧
      states.map (·.moniker) = [some "one", some "one", some "one", some "two", some "two"] ∧
      states.map (·.fetch) = [false, true, true, true, true] ∧
      states.map (·.required) = [none, none, none, some false, some false] ∧
      states.map (·.multi) = [.flag false, .flag false, .count 2, .flag false, .flag false] ∧
      states.map (·.multiBranch) = [none, some 1, some 1, some 1, some 1] ∧
      ∃ s, states[4]? = some s ∧ Inherits fiveDeep states s := by
  have hrun := eq_ok_getD (x := resolveChain fiveDeep root [0, 1, 2, 3, 4]) (by decide +kernel) []
  refine ⟨_, hrun, by decide +kernel, by decide +kernel, by decide +kernel, by decide +kernel,
    by decide +kernel, ?_⟩
  obtain ⟨s, hs⟩ := Option.isSome_iff_exists.1
    (show ((resolveChain fiveDeep root [0, 1, 2, 3, 4]).toOption.getD [])[4]?.isSome = true by
      decide +kernel)
  obtain ⟨-, -, hinherits⟩ := resolveChain_inherits hrun hs
  rw [List.take_of_length_le (by decide +kernel)] at hinherits
  exact ⟨s, hs, hinherits⟩

end ElementState

end LabelTemplate
