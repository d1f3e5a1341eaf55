import LabelTemplate.Proofs.Walk.Aloof
import LabelTemplate.Proofs.XPath.Extensions

/-!
# Directives do not see keys

`Environment.Rekeys σ K env env'` relates two environments with the built-in
functions: the documents with keys in `K` are in `env'` under their new keys.
A directive that is evaluated against one of them comes to the same in both
(`ElementState.evaluateExpression_moved`), as a value that is conformed to a
directive's types holds no nodes any more.

Two uses are made of this.  With other keys for all documents it says that
keys do not matter.  With the keys as they are and another template it says
that a directive which does not call `self` does not read the template
(`readsNoTemplate_of_called`).
-/

namespace LabelTemplate

open Xml XPath Outcome

variable {σ : Rekeying} {K : DocKey → Prop}

structure Environment.Rekeys (σ : Rekeying) (K : DocKey → Prop) (env env' : Environment) :
    Prop where
  docs : SameDocs σ K env.docs env'.docs
  registry : env.registry = Builtins.registry
  registry' : env'.registry = Builtins.registry
  context : env'.context = env.context
  clock : env'.clock = env.clock

/-! ## Expressions -/

/-- Where `self` is called, it is called for one element of a template that is
known. -/
def SelfAlike (σ : Rekeying) (K : DocKey → Prop) (P : String × String → Prop)
    (element element' : NodeId) : Prop :=
  P (directivePrefix, "self") →
    K templateKey ∧ σ.key templateKey = templateKey ∧ element' = element

theorem Environment.Rekeys.library {env env' : Environment} (h : env.Rekeys σ K env')
    {P : String × String → Prop} {element element' : NodeId}
    (hself : SelfAlike σ K P element element') (source source' : Option DocKey) (depth : Nat)
    (c : Call) (hc : P (c.pfx, c.name)) (_ : K c.context.node.doc)
    (hargs : ∀ v ∈ c.args, v.In K) :
    Option.Rel (Alike (Carried σ K)) (env.library element source depth c)
      (env'.library element' source' depth (c.rekey σ)) := by
  cases depth with
  | zero => exact .some (.error trivial)
  | succ depth =>
    simp only [Environment.library, h.registry, h.registry']
    change Option.Rel _ (Option.map _ (Builtins.registry.lookup (c.pfx, c.name)))
      (Option.map _ (Builtins.registry.lookup (c.pfx, c.name)))
    cases hf : Builtins.registry.lookup (c.pfx, c.name) with
    | none => exact .none
    | some f =>
      obtain ⟨front, back, hregistry, -⟩ := List.lookup_eq_some_iff.1 hf
      have hmem : ((c.pfx, c.name), f) ∈ Builtins.registry := by
        rw [hregistry]
        exact List.mem_append_right _ List.mem_cons_self
      refine .some ?_
      by_cases hname : (c.pfx, c.name) = (directivePrefix, "self")
      · obtain ⟨hK, hkey, helement⟩ := hself (hname ▸ hc)
        obtain rfl : Builtins.selfNode = f := by
          rw [hname] at hf
          exact Option.some.inj hf
        exact Builtins.selfNode_alike ⟨h.docs, h.context, h.clock, hargs, rfl⟩ hK hkey helement
      · exact Builtins.carried_of_mem_registry ⟨h.docs, h.context, h.clock, hargs, rfl⟩ hmem hname

theorem Environment.Rekeys.evaluate {env env' : Environment} (h : env.Rekeys σ K env')
    {P : String × String → Prop} {element element' : NodeId}
    (hself : SelfAlike σ K P element element') {e : Expr} (hcalled : ∀ c ∈ e.called, P c)
    (namespaces : Namespaces) {node : Handle} (hnode : K node.doc) (source source' : Option DocKey) :
    Alike (Carried σ K) (env.evaluate e namespaces node element source)
      (env'.evaluate e namespaces (node.rekey σ) element' source') :=
  let scope : XPath.Scope :=
    ⟨env.docs, namespaces, env.library element source Environment.nestingLimit⟩
  let scope' : XPath.Scope :=
    ⟨env'.docs, namespaces, env'.library element' source' Environment.nestingLimit⟩
  have hscopes : XPath.Rekeyed σ K P scope scope' :=
    ⟨h.docs, rfl, h.library hself source source' _⟩
  have hcontext : K (CallContext.mk node 1 1).node.doc := hnode
  hscopes.eval_alike hcontext e hcalled

namespace ElementState

variable {env env' : Environment} {s s' : ElementState} {d : Directive}

/-! ## Conformed values -/

theorem notCastable_alike {α β : Type} {r : α → β → Prop} (s s' : ElementState)
    (env env' : Environment) (d : Directive) (shown shown' : String) :
    Alike r (s.notCastable env d shown : Except Error α)
      (s'.notCastable env' d shown' : Except Error β) := .error trivial

theorem conformNode_alike (h : SameDocs σ K env.docs env'.docs) (s s' : ElementState)
    (d : Directive) {x : Handle} (hx : K x.doc) :
    Alike Eq (s.conformNode env d x) (s'.conformNode env' d (x.rekey σ)) := by
  unfold conformNode
  split
  · exact notCastable_alike s s' env env' d _ _
  · rw [Handle.node_rekey, Handle.doc_rekey, h.found _ hx, h.stringValue_eq hx]
    split <;> exact .ok rfl

theorem conformScalar_alike (h : SameDocs σ K env.docs env'.docs) (s s' : ElementState)
    (d : Directive) {v : Value} (hv : v.In K) :
    Alike Eq (s.conformScalar env d v) (s'.conformScalar env' d (v.rekey σ)) := by
  have htext := h.toText_eq hv
  cases v with
  | boolean b =>
    simp only [Value.rekey, conformScalar] at htext ⊢
    rw [htext]
    split
    · exact .ok rfl
    · split
      · exact .ok rfl
      · exact notCastable_alike s s' env env' d _ _
  | number x =>
    simp only [Value.rekey, conformScalar]
    split
    · split
      · exact .error trivial
      · exact .ok rfl
    · split
      · exact .ok rfl
      · exact notCastable_alike s s' env env' d _ _
  | string t =>
    simp only [Value.rekey, conformScalar]
    split
    · exact .ok rfl
    · exact notCastable_alike s s' env env' d _ _
  | _ => exact notCastable_alike s s' env env' d _ _

/-- What several values come to is the same, item by item. -/
abbrev ItemsAlike : List (Except Error Conformed) → List (Except Error Conformed) → Prop :=
  List.Forall₂ (Alike Eq)

theorem getElem?_alike {items items' : List (Except Error Conformed)} (h : ItemsAlike items items')
    (i : Nat) : (items[i]? = none ∧ items'[i]? = none) ∨
      ∃ x x', items[i]? = some x ∧ items'[i]? = some x' ∧ Alike Eq x x' := by
  induction h generalizing i with
  | nil => exact .inl ⟨rfl, rfl⟩
  | cons hitem _ ih =>
    cases i with
    | zero => exact .inr ⟨_, _, rfl, rfl, hitem⟩
    | succ i => exact ih i

theorem allTexts_alike (s s' : ElementState) (env env' : Environment) (d : Directive)
    {items items' : List (Except Error Conformed)} (h : ItemsAlike items items') :
    Alike Eq (s.allTexts env d items) (s'.allTexts env' d items') := by
  induction h with
  | nil => exact .ok rfl
  | cons hitem _ ih =>
    refine hitem.bind fun v v' hv => ?_
    subst hv
    cases v with
    | text t => exact ih.bind fun ts ts' hts => .ok (congrArg (t :: ·) hts)
    | _ => exact notCastable_alike s s' env env' d _ _

theorem conformItems_alike (hbranch : s'.multiBranch = s.multiBranch) (env env' : Environment)
    (d : Directive) {items items' : List (Except Error Conformed)} (h : ItemsAlike items items') :
    Alike Eq (s.conformItems env d items) (s'.conformItems env' d items') := by
  have htexts := allTexts_alike s s' env env' d h
  cases h with
  | nil => exact .error trivial
  | cons hitem hrest =>
    cases hrest with
    | nil => exact hitem
    | cons hitem' hrest =>
      have hitems := List.Forall₂.cons hitem (.cons hitem' hrest)
      simp only [conformItems, hbranch]
      split
      · exact .error trivial
      · split
        · rename_i branch _
          obtain ⟨hnone, hnone'⟩ | ⟨x, x', hx, hx', hxx'⟩ := getElem?_alike hitems branch
          · rw [hnone, hnone']
            exact .error trivial
          · rw [hx, hx']
            exact hxx'
        · exact htexts.map fun _ _ h => congrArg _ h

mutual

theorem conform_alike (h : SameDocs σ K env.docs env'.docs)
    (hbranch : s'.multiBranch = s.multiBranch) (d : Directive) :
    ∀ v : Value, v.In K → Alike Eq (s.conform env d v) (s'.conform env' d (v.rekey σ))
  | .boolean b, hv => conformScalar_alike h s s' d (v := .boolean b) hv
  | .number x, hv => conformScalar_alike h s s' d (v := .number x) hv
  | .string t, hv => conformScalar_alike h s s' d (v := .string t) hv
  | .nodes hs, hv => by
    rw [Value.rekey, conform, conform]
    refine conformItems_alike hbranch env env' d ?_
    rw [List.map_map, ItemsAlike, List.forall₂_map_left_iff, List.forall₂_map_right_iff]
    exact List.forall₂_same.2 fun x hx => conformNode_alike h s s' d (hv x hx)
  | .sequence items, hv => by
    rw [Value.rekey, conform, conform]
    exact conformItems_alike hbranch env env' d (conformAll_alike h hbranch d items hv)

theorem conformAll_alike (h : SameDocs σ K env.docs env'.docs)
    (hbranch : s'.multiBranch = s.multiBranch) (d : Directive) :
    ∀ vs : List Value, Value.AllIn K vs →
      ItemsAlike (s.conformAll env d vs) (s'.conformAll env' d (Value.rekeyAll σ vs))
  | [], _ => .nil
  | v :: vs, hvs => .cons (conform_alike h hbranch d v hvs.1) (conformAll_alike h hbranch d vs hvs.2)

end

/-! ## Values of directives -/

/-- A directive that is evaluated against one document does not see its key. -/
theorem evaluateExpression_moved (h : env.Rekeys σ K env')
    (hprimary : s'.sources.primary = s.sources.primary.map σ.key)
    (hK : ∀ key, s.sources.primary = some key → K key)
    (hdeclared : s'.declaration d = s.declaration d) (hnamespaces : s'.namespaces = s.namespaces)
    (hbranch : s'.multiBranch = s.multiBranch) {P : String × String → Prop}
    (hself : SelfAlike σ K P (s.node.getD env.template.root) (s'.node.getD env'.template.root))
    (hcalled : ∀ e, Expr.parse (s.declaration d).expression = .ok e → ∀ c ∈ e.called, P c) :
    Alike Eq (s.evaluateExpression env d) (s'.evaluateExpression env' d) := by
  unfold evaluateExpression
  rw [hprimary, hdeclared, hnamespaces]
  cases hkey : s.sources.primary with
  | none => exact .error trivial
  | some key =>
    simp only [Option.map_some]
    cases hparse : Expr.parse (s.declaration d).expression with
    | error fault => exact .error trivial
    | ok e =>
      have hplace : K (Handle.mk key .document).doc := hK key hkey
      have hvalue := h.evaluate hself (hcalled e hparse) s.namespaces hplace (some key)
        (some (σ.key key))
      refine (hvalue.mapError fun _ _ _ => trivial).bind fun v v' hv => ?_
      obtain ⟨hv, rfl⟩ := hv
      exact conform_alike h.docs hbranch d v hv

end ElementState

/-! ## Directives that do not call for the template -/

/-- With the built-in functions only `self` gives a way to the template. -/
theorem readsNoTemplate_of_called {env : Environment} (hregistry : env.registry = Builtins.registry)
    {x : Declared} (hcalled : ∀ e, Expr.parse x.expression = .ok e →
      (directivePrefix, "self") ∉ e.called) : ReadsNoTemplate env x := by
  intro s n t hx hprimary
  have halike : Alike Eq (s.evaluateExpression env x.directive)
      ({ s with node := n }.evaluateExpression (env.setTemplate t) x.directive) := by
    refine ElementState.evaluateExpression_moved (σ := .same) (K := (· ≠ templateKey))
      (P := (· ≠ (directivePrefix, "self")))
      ⟨⟨fun k hk => ElementState.getElem?_docs_setTemplate hk, fun j k _ _ hjk => hjk⟩, hregistry,
        hregistry, rfl, rfl⟩ ?_ ?_ rfl rfl rfl (fun h => absurd rfl h) ?_
    · exact Option.map_id'.symm
    · rintro key hkey rfl
      exact hprimary hkey
    · rw [hx]
      exact fun e he c hc heq => hcalled e he (heq ▸ hc)
  exact halike.toOption_eq.symm

end LabelTemplate
