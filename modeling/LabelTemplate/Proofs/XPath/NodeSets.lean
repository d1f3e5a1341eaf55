import Mathlib
import LabelTemplate.Proofs.Arena.Operations
import LabelTemplate.Proofs.Reading.Run
import LabelTemplate.Proofs.XPath.Order

/-!
# What an expression selects is in document order

An expression that calls no library function gets its nodes from steps and
unions, which sort, and from predicates, which only leave nodes out.
`takeSteps_inOrder` is one run of steps, `nodes_inOrder` the induction over
the expressions whose value is a node-set.
-/

namespace LabelTemplate.XPath

open Xml Document

/-! ## Expressions without library calls -/

mutual

/-- Every function that the expression calls is a core function. -/
def Expr.CallsCore : Expr → Prop
  | .or l r => l.CallsCore ∧ r.CallsCore
  | .and l r => l.CallsCore ∧ r.CallsCore
  | .binary _ l r => l.CallsCore ∧ r.CallsCore
  | .negate e => e.CallsCore
  | .union l r => l.CallsCore ∧ r.CallsCore
  | .literal _ => True
  | .number _ => True
  | .call pfx name args =>
    (pfx = none ∧ (CoreFunction.ofName? name).isSome = true) ∧ Expr.AllCallCore args
  | .path _ steps => Step.AllCallCore steps
  | .filter primary predicates steps =>
    primary.CallsCore ∧ Expr.AllCallCore predicates ∧ Step.AllCallCore steps

def Expr.AllCallCore : List Expr → Prop
  | [] => True
  | e :: es => e.CallsCore ∧ Expr.AllCallCore es

def Step.AllCallCore : List Step → Prop
  | [] => True
  | step :: steps => step.CallsCore ∧ Step.AllCallCore steps

def Step.CallsCore : Step → Prop
  | .mk _ _ predicates => Expr.AllCallCore predicates

end

/-- A core function never gives nodes. -/
theorem CoreFunction.call_ne_nodes {docs : Documents} {ctx : CallContext} {f : CoreFunction}
    {args : List Value} {hs : List Handle} : f.call docs ctx args ≠ .ok (.nodes hs) := by
  intro h
  obtain ⟨_, -, h⟩ := Outcome.bind_eq_ok.1 h
  cases f
  all_goals first
    | cases h
    | obtain ⟨_, -, h⟩ := Outcome.bind_eq_ok.1 h
      cases h

/-! ## Steps -/

/-- Nodes of one tree, each once and in document order. -/
structure InOrder (d : Document) (key : DocKey) (hs : List Handle) : Prop where
  allIn : AllIn d key hs
  pairwise : hs.Pairwise fun a b => Precedes d a.node b.node

namespace InOrder

variable {d : Document} {key : DocKey} {hs ks : List Handle}

theorem single {h : Handle} (hdoc : h.doc = key) (hin : h.node.IsIn d) : InOrder d key [h] :=
  ⟨allIn_cons.2 ⟨⟨hdoc, hin⟩, allIn_nil⟩, List.pairwise_singleton _ _⟩

theorem sublist (h : InOrder d key hs) (hsub : ks.Sublist hs) : InOrder d key ks :=
  ⟨h.allIn.subset hsub.subset, h.pairwise.sublist hsub⟩

theorem nodup (h : InOrder d key hs) (hd : d.WellFormed) : hs.Nodup :=
  h.pairwise.imp fun hab heq => hab.ne hd.linked (congrArg Handle.node heq)

end InOrder

section Steps

variable {s : Scope} {d : Document} (hd : d.WellFormed) {key : DocKey}
  (hdoc : s.docs[key]? = some d) {hs ks : List Handle}

include hd hdoc

theorem inOrder_inDocumentOrder (hin : AllIn d key hs) :
    InOrder d key (inDocumentOrder s.docs hs) :=
  ⟨hin.subset inDocumentOrder_subset, pairwise_inDocumentOrder hd hdoc hin⟩

/-- What one step reaches from nodes of the tree. -/
theorem allIn_of_mapM_takeStep (hin : AllIn d key hs) {step : Step} {reached : List (List Handle)}
    (hok : hs.mapM (fun h => s.takeStep h step) = .ok reached) : AllIn d key reached.flatten := by
  have hall := Outcome.forall₂_of_mapM hok
  clear hok
  induction hall with
  | nil => exact allIn_nil
  | cons hstep _ ih =>
    obtain ⟨⟨rfl, hnode⟩, hrest⟩ := allIn_cons.1 hin
    exact allIn_append.2 ⟨Scope.takeStep_allIn hd hdoc hnode hstep, ih hrest⟩

/-- Every step ends in document order, so a run of steps does. -/
theorem takeSteps_inOrder (hin : InOrder d key hs) {steps : List Step}
    (hok : s.takeSteps hs steps = .ok ks) : InOrder d key ks := by
  induction steps generalizing hs with
  | nil =>
    unfold Scope.takeSteps at hok
    cases hok
    exact hin
  | cons step steps ih =>
    unfold Scope.takeSteps at hok
    obtain ⟨reached, hreached, hok⟩ := Outcome.bind_eq_ok.1 hok
    exact ih (inOrder_inDocumentOrder hd hdoc (allIn_of_mapM_takeStep hd hdoc hin.allIn hreached))
      hok

end Steps

/-! ## Expressions -/

theorem nodeSet_eq_ok {what : String} {v : Value} {hs : List Handle}
    (h : Scope.nodeSet what v = .ok hs) : v = .nodes hs := by
  cases v <;> cases h
  rfl

/-- Only unions, calls, paths and filters give nodes. -/
theorem exists_of_eval_nodes {s : Scope} {ctx : CallContext} {e : Expr} {hs : List Handle}
    (hok : s.eval ctx e = .ok (.nodes hs)) :
    (∃ l r left right, e = .union l r ∧ s.eval ctx l = .ok (.nodes left) ∧
      s.eval ctx r = .ok (.nodes right) ∧ hs = inDocumentOrder s.docs (left ++ right)) ∨
    (∃ pfx name args vs, e = .call pfx name args ∧
      s.callFunction ctx pfx name vs = .ok (.nodes hs)) ∨
    (∃ absolute steps, e = .path absolute steps ∧
      s.takeSteps [if absolute then ⟨ctx.node.doc, .document⟩ else ctx.node] steps = .ok hs) ∨
    ∃ primary predicates steps selected kept, e = .filter primary predicates steps ∧
      s.eval ctx primary = .ok (.nodes selected) ∧
      s.applyPredicates selected predicates = .ok kept ∧ s.takeSteps kept steps = .ok hs := by
  cases e with
  | or l r =>
    unfold Scope.eval at hok
    obtain ⟨left, -, hok⟩ := Outcome.bind_eq_ok.1 hok
    split at hok
    · cases hok
    · obtain ⟨right, -, hok⟩ := Outcome.bind_eq_ok.1 hok
      cases hok
  | and l r =>
    unfold Scope.eval at hok
    obtain ⟨left, -, hok⟩ := Outcome.bind_eq_ok.1 hok
    split at hok
    · cases hok
    · obtain ⟨right, -, hok⟩ := Outcome.bind_eq_ok.1 hok
      cases hok
  | binary op l r =>
    unfold Scope.eval at hok
    obtain ⟨left, -, hok⟩ := Outcome.bind_eq_ok.1 hok
    obtain ⟨right, -, hok⟩ := Outcome.bind_eq_ok.1 hok
    split at hok <;> cases hok
  | negate e =>
    unfold Scope.eval at hok
    obtain ⟨v, -, hok⟩ := Outcome.bind_eq_ok.1 hok
    cases hok
  | literal t =>
    unfold Scope.eval at hok
    cases hok
  | number x =>
    unfold Scope.eval at hok
    cases hok
  | union l r =>
    unfold Scope.eval at hok
    obtain ⟨vl, hvl, hok⟩ := Outcome.bind_eq_ok.1 hok
    obtain ⟨left, hleft, hok⟩ := Outcome.bind_eq_ok.1 hok
    obtain ⟨vr, hvr, hok⟩ := Outcome.bind_eq_ok.1 hok
    obtain ⟨right, hright, hok⟩ := Outcome.bind_eq_ok.1 hok
    cases hok
    rw [nodeSet_eq_ok hleft] at hvl
    rw [nodeSet_eq_ok hright] at hvr
    exact .inl ⟨l, r, left, right, rfl, hvl, hvr, rfl⟩
  | call pfx name args =>
    unfold Scope.eval at hok
    obtain ⟨vs, -, hok⟩ := Outcome.bind_eq_ok.1 hok
    exact .inr (.inl ⟨pfx, name, args, vs, rfl, hok⟩)
  | path absolute steps =>
    unfold Scope.eval at hok
    obtain ⟨ks, hks, hok⟩ := Outcome.bind_eq_ok.1 hok
    cases hok
    exact .inr (.inr (.inl ⟨absolute, steps, rfl, hks⟩))
  | filter primary predicates steps =>
    unfold Scope.eval at hok
    obtain ⟨v, hv, hok⟩ := Outcome.bind_eq_ok.1 hok
    obtain ⟨selected, hselected, hok⟩ := Outcome.bind_eq_ok.1 hok
    obtain ⟨kept, hkept, hok⟩ := Outcome.bind_eq_ok.1 hok
    obtain ⟨ks, hks, hok⟩ := Outcome.bind_eq_ok.1 hok
    cases hok
    rw [nodeSet_eq_ok hselected] at hv
    exact .inr (.inr (.inr ⟨primary, predicates, steps, selected, kept, rfl, hv, hkept, hks⟩))

/-- A call of a core function gives no nodes. -/
theorem callFunction_ne_nodes {s : Scope} {ctx : CallContext} {name : String}
    {vs : List Value} {hs : List Handle} (hcore : (CoreFunction.ofName? name).isSome = true) :
    s.callFunction ctx none name vs ≠ .ok (.nodes hs) := by
  obtain ⟨f, hf⟩ := Option.isSome_iff_exists.1 hcore
  unfold Scope.callFunction
  simp only [Option.isNone_none, if_true, hf]
  intro h
  exact CoreFunction.call_ne_nodes (Outcome.mapError_eq_ok.1 h)

/-- By induction on the expressions whose value is a node-set: the operands of
a union and what a filter selects from. -/
theorem inOrder_of_eval {s : Scope} {d : Document} (hd : d.WellFormed) {key : DocKey}
    (hdoc : s.docs[key]? = some d) {ctx : CallContext} (hkey : ctx.node.doc = key)
    (hin : ctx.node.node.IsIn d) (e : Expr) (hcore : e.CallsCore) {hs : List Handle}
    (hok : s.eval ctx e = .ok (.nodes hs)) : InOrder d key hs := by
  rcases exists_of_eval_nodes hok with ⟨l, r, left, right, rfl, hl, hr, rfl⟩ |
    ⟨pfx, name, args, vs, rfl, hcall⟩ | ⟨absolute, steps, rfl, hsteps⟩ |
    ⟨primary, predicates, steps, selected, kept, rfl, hprimary, hkept, hsteps⟩
  · unfold Expr.CallsCore at hcore
    have hleft := inOrder_of_eval hd hdoc hkey hin l hcore.1 hl
    have hright := inOrder_of_eval hd hdoc hkey hin r hcore.2 hr
    exact inOrder_inDocumentOrder hd hdoc (allIn_append.2 ⟨hleft.allIn, hright.allIn⟩)
  · unfold Expr.CallsCore at hcore
    obtain ⟨⟨rfl, hname⟩, -⟩ := hcore
    exact absurd hcall (callFunction_ne_nodes hname)
  · refine takeSteps_inOrder hd hdoc ?_ hsteps
    cases absolute with
    | true => exact .single hkey trivial
    | false => exact .single hkey hin
  · unfold Expr.CallsCore at hcore
    have hselected := inOrder_of_eval hd hdoc hkey hin primary hcore.1 hprimary
    exact takeSteps_inOrder hd hdoc (hselected.sublist (Scope.sublist_of_applyPredicates hkept))
      hsteps
termination_by sizeOf e

/-- A node-set that an expression without library calls gives at a node of a
tree has each node once, in document order. -/
theorem Scope.nodes_inOrder {s : Scope} {d : Document} (hd : d.WellFormed) {ctx : CallContext}
    (hdoc : s.docs[ctx.node.doc]? = some d) (hin : ctx.node.node.IsIn d) {e : Expr}
    (hcore : e.CallsCore) {hs : List Handle} (hok : s.eval ctx e = .ok (.nodes hs)) :
    hs.Nodup ∧ (∀ h ∈ hs, h.doc = ctx.node.doc ∧ h.node.IsIn d) ∧
      hs.Pairwise fun a b => Precedes d a.node b.node := by
  have h := inOrder_of_eval hd hdoc rfl hin e hcore hok
  exact ⟨h.nodup hd, h.allIn, h.pairwise⟩

/-- Two elements and a comment; the element that was read last now stands
first. -/
def shelf : Document :=
  (Document.ofTree [] { name := .plain "a" } none
    (.node (.element
        { name := .plain "b", attributes := [⟨.plain "k", "1"⟩], text := some "text" })
      none .nil
      (.node (.comment "comment") none .nil
        (.node (.element
            { name := .plain "b", attributes := [⟨.plain "k", "2"⟩, ⟨.plain "l", "3"⟩] })
          none .nil .nil)))).insertChild 0 0 3

theorem shelf_wellFormed : shelf.WellFormed := by
  refine WellFormed.insertChild (wellFormed_ofTree ?_ _) 0 ?_ ?_ ?_ ?_
  · simp [Forest.Proper, NodeKind.isElement, NodeKind.element?]
  · decide +kernel
  · decide +kernel
  · decide +kernel
  · rintro (h | h)
    · exact absurd h (by decide)
    · obtain ⟨p, hp⟩ := h.exists_parent
      rw [(root_ofTree _ _ _ _).2.2] at hp
      cases hp

/-- `//text() | //b[boolean(@k)]/@* | //comment()/preceding-sibling::b` -/
def shelfSelection : Expr :=
  .union
    (.union (.path true [.descendantOrSelf, .mk .child .text []])
      (.path true [.descendantOrSelf,
        .mk .child (.name none "b")
          [.call none "boolean" [.path false [.mk .attribute (.name none "k") []]]],
        .mk .attribute .any []]))
    (.path true [.descendantOrSelf, .mk .child .comment [],
      .mk .precedingSibling (.name none "b") []])

theorem Scope.nodes_inOrder_shelf :
    shelfSelection.CallsCore ∧
      ∃ hs, Scope.eval { docs := #[shelf] } ⟨⟨0, .attribute 1 0⟩, 1, 1⟩ shelfSelection =
          .ok (.nodes hs) ∧
        hs = [⟨0, .element 3⟩, ⟨0, .attribute 3 0⟩, ⟨0, .attribute 3 1⟩, ⟨0, .element 1⟩,
          ⟨0, .attribute 1 0⟩, ⟨0, .text 1⟩] ∧
        hs.Nodup ∧ (∀ h ∈ hs, h.doc = 0 ∧ h.node.IsIn shelf) ∧
        hs.Pairwise fun a b => Precedes shelf a.node b.node := by
  have hcore : shelfSelection.CallsCore := by
    simp [shelfSelection, Step.descendantOrSelf, Expr.CallsCore, Step.AllCallCore,
      Step.CallsCore, Expr.AllCallCore]
    decide
  have hok : Scope.eval { docs := #[shelf] } ⟨⟨0, .attribute 1 0⟩, 1, 1⟩ shelfSelection =
      .ok (.nodes [⟨0, .element 3⟩, ⟨0, .attribute 3 0⟩, ⟨0, .attribute 3 1⟩, ⟨0, .element 1⟩,
        ⟨0, .attribute 1 0⟩, ⟨0, .text 1⟩]) := by
    cbv
  have hin : NodeRef.IsIn shelf (.attribute 1 0) :=
    ⟨.inr (.child (by decide +kernel)), by decide +kernel⟩
  exact ⟨hcore, _, hok, rfl, Scope.nodes_inOrder shelf_wellFormed rfl hin hcore hok⟩

end LabelTemplate.XPath
