import LabelTemplate.Proofs.XPath.Order
import LabelTemplate.Proofs.XPath.Renaming
import LabelTemplate.XPath.Eval

/-!
# Evaluation does not see keys

`Rekeyed σ K P s s'` relates two scopes: the documents with keys in `K` are in
`s'` under their new keys, the prefixes are bound alike, and the libraries
answer alike to the calls that satisfy `P`.  From a node of a document in `K`
an expression that makes only such calls then comes to the same value in both,
up to the keys, and to a value with nodes of documents in `K` only
(`Rekeyed.eval_alike`).

The induction is over the expression, with one theorem per function of the
evaluator.  Where a function gives booleans, numbers or texts its results are
equal (`SameDocs.call_eq`, `SameDocs.compare_eq`).
-/

namespace LabelTemplate.XPath

open Xml Outcome

/-! ## Calls of an expression -/

mutual

/-- The functions that an expression calls, by prefix and name. -/
def Expr.called : Expr → List (String × String)
  | .or l r => l.called ++ r.called
  | .and l r => l.called ++ r.called
  | .binary _ l r => l.called ++ r.called
  | .negate e => e.called
  | .union l r => l.called ++ r.called
  | .literal _ => []
  | .number _ => []
  | .call pfx name args => (pfx.getD "", name) :: Expr.calledByAll args
  | .path _ steps => Step.calledByAll steps
  | .filter primary predicates steps =>
    primary.called ++ (Expr.calledByAll predicates ++ Step.calledByAll steps)

def Expr.calledByAll : List Expr → List (String × String)
  | [] => []
  | e :: es => e.called ++ Expr.calledByAll es

def Step.calledByAll : List Step → List (String × String)
  | [] => []
  | step :: steps => step.called ++ Step.calledByAll steps

def Step.called : Step → List (String × String)
  | .mk _ _ predicates => Expr.calledByAll predicates

end

/-! ## Scopes -/

def CallContext.rekey (σ : Rekeying) (ctx : CallContext) : CallContext :=
  { ctx with node := ctx.node.rekey σ }

def Call.rekey (σ : Rekeying) (c : Call) : Call :=
  { c with context := c.context.rekey σ, args := c.args.map (Value.rekey σ) }

/-- A value of the documents in `K`, and the same value under the new keys. -/
def Carried (σ : Rekeying) (K : DocKey → Prop) (v v' : Value) : Prop :=
  v.In K ∧ v' = v.rekey σ

/-- The same for lists of nodes. -/
def CarriedNodes (σ : Rekeying) (K : DocKey → Prop) (hs hs' : List Handle) : Prop :=
  (∀ h ∈ hs, K h.doc) ∧ hs' = hs.map (·.rekey σ)

structure Rekeyed (σ : Rekeying) (K : DocKey → Prop) (P : String × String → Prop)
    (s s' : Scope) : Prop where
  docs : SameDocs σ K s.docs s'.docs
  namespaces : s'.namespaces = s.namespaces
  library : ∀ c : Call, P (c.pfx, c.name) → K c.context.node.doc → (∀ v ∈ c.args, v.In K) →
    Option.Rel (Alike (Carried σ K)) (s.library c) (s'.library (c.rekey σ))

variable {σ : Rekeying} {K : DocKey → Prop} {P : String × String → Prop}

theorem Carried.boolean (b : Bool) : Carried σ K (.boolean b) (.boolean b) := ⟨trivial, rfl⟩

theorem Carried.number (x : Float) : Carried σ K (.number x) (.number x) := ⟨trivial, rfl⟩

theorem Carried.string (t : String) : Carried σ K (.string t) (.string t) := ⟨trivial, rfl⟩

theorem CarriedNodes.nodes {hs hs' : List Handle} (h : CarriedNodes σ K hs hs') :
    Carried σ K (.nodes hs) (.nodes hs') := ⟨h.1, congrArg Value.nodes h.2⟩

theorem CarriedNodes.append {hs hs' ks ks' : List Handle} (h : CarriedNodes σ K hs hs')
    (hk : CarriedNodes σ K ks ks') : CarriedNodes σ K (hs ++ ks) (hs' ++ ks') := by
  refine ⟨fun x hx => (List.mem_append.1 hx).elim (h.1 x) (hk.1 x), ?_⟩
  rw [h.2, hk.2, List.map_append]

namespace SameDocs

variable {docs docs' : Documents} (h : SameDocs σ K docs docs')

include h

/-! ## Core functions -/

section Arguments

variable {args : List Value} (hargs : ∀ v ∈ args, v.In K)

include hargs

theorem toText_arg (i : Nat) :
    ((args.map (Value.rekey σ)).getD i (Value.string "")).toText docs' =
      (args.getD i (Value.string "")).toText docs := by
  rw [List.getD_eq_getElem?_getD, List.getD_eq_getElem?_getD, List.getElem?_map]
  cases hi : args[i]? with
  | none => rfl
  | some v => exact h.toText_eq (hargs v (List.mem_of_getElem? hi))

theorem toNumber_arg (i : Nat) :
    ((args.map (Value.rekey σ)).getD i (Value.string "")).toNumber docs' =
      (args.getD i (Value.string "")).toNumber docs := by
  rw [List.getD_eq_getElem?_getD, List.getD_eq_getElem?_getD, List.getElem?_map]
  cases hi : args[i]? with
  | none => rfl
  | some v => exact h.toNumber_eq (hargs v (List.mem_of_getElem? hi))

theorem toNumber_arg? (i : Nat) :
    (args.map (Value.rekey σ))[i]?.map (·.toNumber docs') = args[i]?.map (·.toNumber docs) := by
  rw [List.getElem?_map]
  cases hi : args[i]? with
  | none => rfl
  | some v => exact congrArg some (h.toNumber_eq (hargs v (List.mem_of_getElem? hi)))

theorem toText_args :
    (args.map (Value.rekey σ)).map (·.toText docs') = args.map (·.toText docs) := by
  rw [List.map_map]
  exact List.map_congr_left fun v hv => h.toText_eq (hargs v hv)

end Arguments

theorem firstName_eq (f : CoreFunction) {v : Value} (hv : v.In K) :
    firstName docs' f (v.rekey σ) = firstName docs f v := by
  cases v with
  | nodes hs =>
    cases hs with
    | nil => rfl
    | cons x hs =>
      exact congrArg (fun name => Except.ok name) (h.name?_eq (hv x List.mem_cons_self))
  | _ => rfl

theorem sum_eq {hs : List Handle} (hin : ∀ x ∈ hs, K x.doc) (start : Float) :
    (hs.map (·.rekey σ)).foldl (fun x h => x + Number.parseNumber (stringValue docs' h)) start =
      hs.foldl (fun x h => x + Number.parseNumber (stringValue docs h)) start := by
  rw [List.foldl_map]
  exact List.foldl_ext _ _ _ fun x y hy => by rw [h.stringValue_eq (hin y hy)]

end SameDocs

theorem nodesArgument_rekey (f : CoreFunction) (v : Value) :
    nodesArgument f (v.rekey σ) = (nodesArgument f v).map (List.map (·.rekey σ)) := by
  cases v <;> rfl

theorem argumentOrContext_rekey (ctx : CallContext) (args : List Value) :
    argumentOrContext (ctx.rekey σ) (args.map (Value.rekey σ)) =
      (argumentOrContext ctx args).rekey σ := by
  cases args <;> rfl

theorem argumentOrContext_in {ctx : CallContext} (hctx : K ctx.node.doc) {args : List Value}
    (hargs : ∀ v ∈ args, v.In K) : (argumentOrContext ctx args).In K := by
  cases args with
  | nil =>
    intro x hx
    rw [List.mem_singleton.1 hx]
    exact hctx
  | cons v args => exact hargs v List.mem_cons_self

/-- A core function comes to the same, as it gives no nodes. -/
theorem SameDocs.call_eq {docs docs' : Documents} (h : SameDocs σ K docs docs')
    {ctx : CallContext} (hctx : K ctx.node.doc) {args : List Value}
    (hargs : ∀ v ∈ args, v.In K) (f : CoreFunction) :
    f.call docs' (ctx.rekey σ) (args.map (Value.rekey σ)) = f.call docs ctx args := by
  have hself := argumentOrContext_in hctx hargs
  unfold CoreFunction.call
  simp only [List.length_map, h.toText_arg hargs, h.toNumber_arg hargs, h.toNumber_arg? hargs,
    h.toText_args hargs, argumentOrContext_rekey, Value.toBoolean_rekey, h.toNumber_eq hself,
    h.toText_eq hself, h.firstName_eq _ hself, nodesArgument_rekey]
  refine bind_congr fun _ => ?_
  cases f with
  | count =>
    cases nodesArgument .count (argumentOrContext ctx args) with
    | error e => rfl
    | ok hs => exact congrArg (fun n => Except.ok (Value.number (Float.ofNat n))) (List.length_map _)
  | sum =>
    cases hv : argumentOrContext ctx args with
    | nodes hs =>
      rw [hv] at hself
      simp only [nodesArgument, Except.map, bind, Except.bind, h.sum_eq hself]
    | _ => simp only [nodesArgument, Except.map, bind, Except.bind]
  | _ => rfl

theorem CoreFunction.carried_of_call {docs : Documents} {ctx : CallContext} {f : CoreFunction}
    {args : List Value} {v : Value} (h : f.call docs ctx args = .ok v) : Carried σ K v v := by
  obtain ⟨_, -, h⟩ := Outcome.bind_eq_ok.1 h
  cases f
  all_goals first
    | cases h
      exact ⟨trivial, rfl⟩
    | obtain ⟨_, -, h⟩ := Outcome.bind_eq_ok.1 h
      cases h
      exact ⟨trivial, rfl⟩

/-! ## Comparisons and tests -/

theorem any_rekey {hs : List Handle} (hhs : ∀ x ∈ hs, K x.doc) {p p' : Handle → Bool}
    (hp : ∀ x, K x.doc → p' (x.rekey σ) = p x) : (hs.map (·.rekey σ)).any p' = hs.any p := by
  induction hs with
  | nil => rfl
  | cons x hs ih =>
    obtain ⟨hx, hhs⟩ := List.forall_mem_cons.1 hhs
    rw [List.map_cons, List.any_cons, List.any_cons, hp x hx, ih hhs]

namespace Rekeyed

variable {s s' : Scope} (h : Rekeyed σ K P s s')

include h

theorem sameValue_eq {a b : Value} (ha : a.In K) (hb : b.In K) :
    s'.sameValue (a.rekey σ) (b.rekey σ) = s.sameValue a b := by
  cases a <;> cases b <;>
    first
      | exact congrArg₂ (· == ·) (Value.toBoolean_rekey σ _) (Value.toBoolean_rekey σ _)
      | exact congrArg₂ (· == ·) (h.docs.toNumber_eq ha) (h.docs.toNumber_eq hb)
      | exact congrArg₂ (· == ·) (h.docs.toText_eq ha) (h.docs.toText_eq hb)

theorem compareAtoms_eq (op : BinaryOp) {a b : Value} (ha : a.In K) (hb : b.In K) :
    s'.compareAtoms op (a.rekey σ) (b.rekey σ) = s.compareAtoms op a b := by
  unfold Scope.compareAtoms
  rw [h.sameValue_eq ha hb, h.docs.toNumber_eq ha, h.docs.toNumber_eq hb]

/-- Nodes are compared by their texts. -/
theorem compareNodes_eq {hs : List Handle} (hhs : ∀ x ∈ hs, K x.doc) (other : Value)
    (test test' : Value → Bool)
    (htest : ∀ v, v.In K → test' (v.rekey σ) = test v) :
    s'.compareNodes (hs.map (·.rekey σ)) (other.rekey σ) test' = s.compareNodes hs other test := by
  have hany : ∀ f : String → Value, (∀ t, (f t).In K) → (∀ t, (f t).rekey σ = f t) →
      (hs.map (·.rekey σ)).any (fun x => test' (f (stringValue s'.docs x))) =
        hs.any fun x => test (f (stringValue s.docs x)) := by
    intro f hin hsame
    refine any_rekey hhs fun x hx => ?_
    rw [h.docs.stringValue_eq hx, ← htest _ (hin _), hsame]
  have hnumber := hany (fun t => .number (Number.parseNumber t)) (fun _ => trivial) fun _ => rfl
  have hstring := hany .string (fun _ => trivial) fun _ => rfl
  cases other with
  | boolean b =>
    simp only [Value.rekey, Scope.compareNodes, List.isEmpty_map]
    exact htest (.boolean _) trivial
  | number x => exact hnumber
  | _ => exact hstring

theorem compare_eq (op : BinaryOp) {a b : Value} (ha : a.In K) (hb : b.In K) :
    s'.compare op (a.rekey σ) (b.rekey σ) = s.compare op a b := by
  have hleft : ∀ {as : List Handle}, (∀ x ∈ as, K x.doc) →
      s'.compareNodes (as.map (·.rekey σ)) (b.rekey σ) (s'.compareAtoms op · (b.rekey σ)) =
        s.compareNodes as b (s.compareAtoms op · b) := fun has =>
    h.compareNodes_eq has b _ _ fun v hv => h.compareAtoms_eq op hv hb
  have hright : ∀ {bs : List Handle}, (∀ x ∈ bs, K x.doc) →
      s'.compareNodes (bs.map (·.rekey σ)) (a.rekey σ) (s'.compareAtoms op (a.rekey σ) ·) =
        s.compareNodes bs a (s.compareAtoms op a ·) := fun hbs =>
    h.compareNodes_eq hbs a _ _ fun v hv => h.compareAtoms_eq op ha hv
  cases a with
  | nodes as =>
    cases b with
    | nodes bs =>
      have hrights : (bs.map (·.rekey σ)).map (fun x => Value.string (stringValue s'.docs x)) =
          bs.map fun x => Value.string (stringValue s.docs x) := by
        rw [List.map_map]
        exact List.map_congr_left fun x hx => congrArg Value.string (h.docs.stringValue_eq (hb x hx))
      simp only [Value.rekey, Scope.compare, hrights]
      refine any_rekey ha fun x hx => ?_
      rw [h.docs.stringValue_eq hx, List.any_map, List.any_map]
      exact congrArg bs.any (funext fun y =>
        h.compareAtoms_eq op (a := .string _) (b := .string _) trivial trivial)
    | _ => exact hleft ha
  | _ =>
    cases b with
    | nodes bs => exact hright hb
    | _ => exact h.compareAtoms_eq op ha hb

/-- A test looks at the kind and at the name of a node. -/
theorem passes_eq (d : Document) (a : Axis) (test : NodeTest) (x : Handle) :
    s'.passes d a test (x.rekey σ) = s.passes d a test x := by
  have hprefix : ∀ p, s'.resolvePrefix p = s.resolvePrefix p := fun p => by
    rw [Scope.resolvePrefix, h.namespaces]
    rfl
  obtain ⟨doc, node⟩ := x
  cases test with
  | any => cases a <;> cases node <;> rfl
  | name pfx localName =>
    simp only [Scope.passes, hprefix]
    cases a <;> cases node <;> rfl
  | inNamespace p =>
    simp only [Scope.passes, hprefix]
    cases a <;> cases node <;> rfl
  | _ => cases node <;> rfl

/-! ## Predicates, calls and steps -/

omit h in
theorem keeps_rekey (position : Nat) (v : Value) :
    Scope.keeps position (v.rekey σ) = Scope.keeps position v := by
  have hboolean := Value.toBoolean_rekey σ v
  cases v with
  | number x => rfl
  | _ => exact hboolean

omit h in
theorem filterNodes_alike {predicate predicate' : CallContext → Except Error Value} (size : Nat)
    (hpredicate : ∀ ctx, K ctx.node.doc →
      Alike (Carried σ K) (predicate ctx) (predicate' (ctx.rekey σ)))
    {hs : List Handle} (hhs : ∀ x ∈ hs, K x.doc) (position : Nat) :
    Alike (CarriedNodes σ K) (Scope.filterNodes size predicate position hs)
      (Scope.filterNodes size predicate' position (hs.map (·.rekey σ))) := by
  induction hs generalizing position with
  | nil => exact .ok ⟨by simp, rfl⟩
  | cons x hs ih =>
    obtain ⟨hx, hhs⟩ := List.forall_mem_cons.1 hhs
    refine (hpredicate ⟨x, position, size⟩ hx).bind fun v v' hv => ?_
    obtain ⟨-, rfl⟩ := hv
    refine (ih hhs (position + 1)).bind fun kept kept' hkept => ?_
    rw [keeps_rekey]
    split
    · exact .ok ⟨List.forall_mem_cons.2 ⟨hx, hkept.1⟩, congrArg (x.rekey σ :: ·) hkept.2⟩
    · exact .ok hkept

omit h in
/-- What one step reaches from each of several nodes. -/
theorem mapM_alike {f f' : Handle → Except Error (List Handle)} {hs hs' : List Handle}
    (hhs : CarriedNodes σ K hs hs')
    (hf : ∀ x, K x.doc → Alike (CarriedNodes σ K) (f x) (f' (x.rekey σ))) :
    Alike (fun ks ks' => CarriedNodes σ K ks.flatten ks'.flatten) (hs.mapM f) (hs'.mapM f') := by
  obtain ⟨hin, rfl⟩ := hhs
  induction hs with
  | nil => exact .ok ⟨by simp, rfl⟩
  | cons x hs ih =>
    obtain ⟨hx, hin⟩ := List.forall_mem_cons.1 hin
    rw [List.map_cons, List.mapM_cons, List.mapM_cons]
    exact (hf x hx).bind fun ks ks' hks => (ih hin).bind fun rest rest' hrest =>
      .ok (hks.append hrest)

omit h in
theorem nodeSet_alike {what : String} {v v' : Value} (hv : Carried σ K v v') :
    Alike (CarriedNodes σ K) (Scope.nodeSet what v) (Scope.nodeSet what v') := by
  obtain ⟨hin, rfl⟩ := hv
  cases v with
  | nodes hs => exact .ok ⟨hin, rfl⟩
  | _ => exact .error trivial

theorem inDocumentOrder_carried {hs hs' : List Handle} (hhs : CarriedNodes σ K hs hs') :
    CarriedNodes σ K (inDocumentOrder s.docs hs) (inDocumentOrder s'.docs hs') := by
  obtain ⟨hin, rfl⟩ := hhs
  exact ⟨fun x hx => hin x (inDocumentOrder_subset hx), h.docs.inDocumentOrder_rekey hin⟩

theorem callFunction_alike {ctx : CallContext} (hctx : K ctx.node.doc) {pfx : Option String}
    {name : String} (hcall : P (pfx.getD "", name)) {args args' : List Value}
    (hargs : (∀ v ∈ args, v.In K) ∧ args' = args.map (Value.rekey σ)) :
    Alike (Carried σ K) (s.callFunction ctx pfx name args)
      (s'.callFunction (ctx.rekey σ) pfx name args') := by
  obtain ⟨hin, rfl⟩ := hargs
  unfold Scope.callFunction
  dsimp only
  split
  · rename_i f _
    rw [h.docs.call_eq hctx hin]
    cases hcore : f.call s.docs ctx args with
    | error e => exact .error trivial
    | ok v => exact .ok (CoreFunction.carried_of_call hcore)
  · have hlibrary := h.library ⟨ctx, pfx.getD "", name, args⟩ hcall hctx hin
    change Option.Rel _ _ (s'.library ⟨ctx.rekey σ, pfx.getD "", name, args.map (Value.rekey σ)⟩)
      at hlibrary
    revert hlibrary
    generalize s.library _ = found
    generalize s'.library _ = found'
    rintro (⟨hfound⟩ | _)
    · exact hfound
    · exact .error trivial

/-- The nodes along an axis that pass a test. -/
theorem candidates_alike (d : Document) (a : Axis) (test : NodeTest) {x : Handle} (hx : K x.doc) :
    Alike (CarriedNodes σ K) ((axisNodes d x a).filterM (s.passes d a test))
      ((axisNodes d (x.rekey σ) a).filterM (s'.passes d a test)) := by
  rw [axisNodes_rekey, filterM_map (h.passes_eq d a test)]
  cases hkept : (axisNodes d x a).filterM (s.passes d a test) with
  | error e => exact .error trivial
  | ok kept =>
    refine .ok ⟨fun y hy => ?_, rfl⟩
    rw [doc_of_mem_axisNodes ((sublist_of_filterM hkept).subset hy)]
    exact hx

end Rekeyed

/-! ## Expressions -/

namespace Rekeyed

variable {s s' : Scope}

mutual

/-- An expression comes to the same value, under the new keys. -/
theorem eval_alike (h : Rekeyed σ K P s s') {ctx : CallContext} (hctx : K ctx.node.doc)
    (e : Expr) (hcalled : ∀ c ∈ e.called, P c) :
    Alike (Carried σ K) (s.eval ctx e) (s'.eval (ctx.rekey σ) e) := by
  cases e with
  | or l r =>
    unfold Expr.called at hcalled
    obtain ⟨hl, hr⟩ := List.forall_mem_append.1 hcalled
    unfold Scope.eval
    refine (eval_alike h hctx l hl).bind fun left left' hleft => ?_
    obtain ⟨-, rfl⟩ := hleft
    rw [Value.toBoolean_rekey]
    split
    · exact .ok (.boolean true)
    · refine (eval_alike h hctx r hr).bind fun right right' hright => ?_
      obtain ⟨-, rfl⟩ := hright
      rw [Value.toBoolean_rekey]
      exact .ok (.boolean _)
  | and l r =>
    unfold Expr.called at hcalled
    obtain ⟨hl, hr⟩ := List.forall_mem_append.1 hcalled
    unfold Scope.eval
    refine (eval_alike h hctx l hl).bind fun left left' hleft => ?_
    obtain ⟨-, rfl⟩ := hleft
    rw [Value.toBoolean_rekey]
    split
    · exact .ok (.boolean false)
    · refine (eval_alike h hctx r hr).bind fun right right' hright => ?_
      obtain ⟨-, rfl⟩ := hright
      rw [Value.toBoolean_rekey]
      exact .ok (.boolean _)
  | binary op l r =>
    unfold Expr.called at hcalled
    obtain ⟨hl, hr⟩ := List.forall_mem_append.1 hcalled
    unfold Scope.eval
    refine (eval_alike h hctx l hl).bind fun left left' hleft => ?_
    refine (eval_alike h hctx r hr).bind fun right right' hright => ?_
    obtain ⟨hleft, rfl⟩ := hleft
    obtain ⟨hright, rfl⟩ := hright
    rw [h.compare_eq op hleft hright, h.docs.toNumber_eq hleft, h.docs.toNumber_eq hright]
    split
    · exact .ok (.boolean _)
    · exact .ok (.number _)
  | negate e =>
    unfold Expr.called at hcalled
    unfold Scope.eval
    refine (eval_alike h hctx e hcalled).bind fun v v' hv => ?_
    obtain ⟨hv, rfl⟩ := hv
    rw [h.docs.toNumber_eq hv]
    exact .ok (.number _)
  | union l r =>
    unfold Expr.called at hcalled
    obtain ⟨hl, hr⟩ := List.forall_mem_append.1 hcalled
    unfold Scope.eval
    refine (eval_alike h hctx l hl).bind fun v v' hv => (nodeSet_alike hv).bind
      fun left left' hleft => ?_
    refine (eval_alike h hctx r hr).bind fun w w' hw => (nodeSet_alike hw).bind
      fun right right' hright => ?_
    exact .ok (h.inDocumentOrder_carried (hleft.append hright)).nodes
  | literal t =>
    unfold Scope.eval
    exact .ok (.string t)
  | number x =>
    unfold Scope.eval
    exact .ok (.number x)
  | call pfx name args =>
    unfold Expr.called at hcalled
    obtain ⟨hcall, hargs⟩ := List.forall_mem_cons.1 hcalled
    unfold Scope.eval
    exact (evalAll_alike h hctx args hargs).bind fun vs vs' hvs =>
      h.callFunction_alike hctx hcall hvs
  | path absolute steps =>
    unfold Expr.called at hcalled
    unfold Scope.eval
    have hstart : CarriedNodes σ K [if absolute then ⟨ctx.node.doc, .document⟩ else ctx.node]
        [if absolute then ⟨(ctx.rekey σ).node.doc, .document⟩ else (ctx.rekey σ).node] := by
      cases absolute with
      | true => exact ⟨List.forall_mem_singleton.2 hctx, rfl⟩
      | false => exact ⟨List.forall_mem_singleton.2 hctx, rfl⟩
    exact (takeSteps_alike h hstart steps hcalled).bind fun hs hs' hhs => .ok hhs.nodes
  | filter primary predicates steps =>
    unfold Expr.called at hcalled
    obtain ⟨hprimary, hrest⟩ := List.forall_mem_append.1 hcalled
    obtain ⟨hpredicates, hsteps⟩ := List.forall_mem_append.1 hrest
    unfold Scope.eval
    refine (eval_alike h hctx primary hprimary).bind fun v v' hv => (nodeSet_alike hv).bind
      fun hs hs' hhs => ?_
    exact (applyPredicates_alike h hhs predicates hpredicates).bind fun kept kept' hkept =>
      (takeSteps_alike h hkept steps hsteps).bind fun found found' hfound => .ok hfound.nodes
termination_by sizeOf e

theorem evalAll_alike (h : Rekeyed σ K P s s') {ctx : CallContext} (hctx : K ctx.node.doc)
    (es : List Expr) (hcalled : ∀ c ∈ Expr.calledByAll es, P c) :
    Alike (fun vs vs' => (∀ v ∈ vs, v.In K) ∧ vs' = vs.map (Value.rekey σ))
      (s.evalAll ctx es) (s'.evalAll (ctx.rekey σ) es) := by
  cases es with
  | nil =>
    unfold Scope.evalAll
    exact .ok ⟨by simp, rfl⟩
  | cons e es =>
    unfold Expr.calledByAll at hcalled
    obtain ⟨he, hes⟩ := List.forall_mem_append.1 hcalled
    unfold Scope.evalAll
    refine (eval_alike h hctx e he).bind fun v v' hv => ?_
    refine (evalAll_alike h hctx es hes).bind fun vs vs' hvs => ?_
    exact .ok ⟨List.forall_mem_cons.2 ⟨hv.1, hvs.1⟩, by rw [hv.2, hvs.2, List.map_cons]⟩
termination_by sizeOf es

theorem applyPredicates_alike (h : Rekeyed σ K P s s') {hs hs' : List Handle}
    (hhs : CarriedNodes σ K hs hs') (predicates : List Expr)
    (hcalled : ∀ c ∈ Expr.calledByAll predicates, P c) :
    Alike (CarriedNodes σ K) (s.applyPredicates hs predicates)
      (s'.applyPredicates hs' predicates) := by
  cases predicates with
  | nil =>
    unfold Scope.applyPredicates
    exact .ok hhs
  | cons p ps =>
    unfold Expr.calledByAll at hcalled
    obtain ⟨hp, hps⟩ := List.forall_mem_append.1 hcalled
    obtain ⟨hin, rfl⟩ := hhs
    unfold Scope.applyPredicates
    rw [List.length_map]
    exact (filterNodes_alike hs.length (fun ctx hctx => eval_alike h hctx p hp) hin 1).bind
      fun kept kept' hkept => applyPredicates_alike h hkept ps hps
termination_by sizeOf predicates

theorem takeSteps_alike (h : Rekeyed σ K P s s') {hs hs' : List Handle}
    (hhs : CarriedNodes σ K hs hs') (steps : List Step)
    (hcalled : ∀ c ∈ Step.calledByAll steps, P c) :
    Alike (CarriedNodes σ K) (s.takeSteps hs steps) (s'.takeSteps hs' steps) := by
  cases steps with
  | nil =>
    unfold Scope.takeSteps
    exact .ok hhs
  | cons step steps =>
    unfold Step.calledByAll at hcalled
    obtain ⟨hstep, hsteps⟩ := List.forall_mem_append.1 hcalled
    unfold Scope.takeSteps
    refine (mapM_alike hhs fun x hx => takeStep_alike h hx step hstep).bind
      fun reached reached' hreached => ?_
    exact takeSteps_alike h (h.inDocumentOrder_carried hreached) steps hsteps
termination_by sizeOf steps

theorem takeStep_alike (h : Rekeyed σ K P s s') {x : Handle} (hx : K x.doc) (step : Step)
    (hcalled : ∀ c ∈ step.called, P c) :
    Alike (CarriedNodes σ K) (s.takeStep x step) (s'.takeStep (x.rekey σ) step) := by
  cases step with
  | mk a test predicates =>
    unfold Step.called at hcalled
    unfold Scope.takeStep
    have hdocument : Alike Eq (s.document x.doc) (s'.document (x.rekey σ).doc) := by
      unfold Scope.document
      rw [Handle.doc_rekey, h.docs.found x.doc hx]
      cases s.docs[x.doc]? with
      | none => exact .error trivial
      | some d => exact .ok rfl
    refine hdocument.bind fun d d' hd => ?_
    subst hd
    exact (h.candidates_alike d a test hx).bind fun found found' hfound =>
      applyPredicates_alike h hfound predicates hcalled
termination_by sizeOf step

end

end Rekeyed

end LabelTemplate.XPath
