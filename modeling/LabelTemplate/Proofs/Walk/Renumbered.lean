import LabelTemplate.Proofs.Walk.Rekeying
import LabelTemplate.Proofs.Walk.States
import LabelTemplate.Template.Export

/-!
# Runs on renumbered documents

`Environment.Renumbered σ env env'` says that `env'` holds the documents of
`env` under other keys, the template excepted, and that the monikers stand for
the same documents.  A state is carried over by `ElementState.rekey`.

Two such runs go on side by side: they have the same template at every step
and queue the same decisions (`Engine.Renumbered`).  There is one lemma for each
function of the walk (up to `process_alike`) and of the export
(up to `Exporter.finish_alike`).
-/

namespace LabelTemplate

open Xml XPath Outcome

/-! ## Environments -/

def SourceGroup.rekey (σ : Rekeying) (g : SourceGroup) : SourceGroup :=
  { primary := g.primary.map σ.key, secondary := g.secondary.map σ.key }

theorem SourceGroup.members_rekey (σ : Rekeying) (g : SourceGroup) :
    (g.rekey σ).members = g.members.map σ.key := by
  obtain ⟨primary, secondary⟩ := g
  cases primary with
  | none => rfl
  | some key => exact List.map_cons.symm

variable {σ : Rekeying}

structure Environment.Renumbered (σ : Rekeying) (env env' : Environment) : Prop where
  template_key : σ.key templateKey = templateKey
  found : ∀ k, env'.docs[σ.key k]? = env.docs[k]?
  groups : ∀ m, env'.sources.group? m = (env.sources.group? m).map (·.rekey σ)
  registry : env.registry = Builtins.registry
  registry' : env'.registry = Builtins.registry
  context : env'.context = env.context
  clock : env'.clock = env.clock
  defaultPrefix : env'.defaultPrefix = env.defaultPrefix

namespace Environment.Renumbered

variable {env env' : Environment} (h : env.Renumbered σ env')

include h

theorem template_eq : env'.template = env.template := by
  have hfound := h.found templateKey
  rw [h.template_key] at hfound
  rw [template, template, Array.getD_eq_getD_getElem?, Array.getD_eq_getD_getElem?, hfound]

theorem setTemplate (d : Document) : (env.setTemplate d).Renumbered σ (env'.setTemplate d) := by
  refine ⟨h.template_key, fun k => ?_, h.groups, h.registry, h.registry', h.context, h.clock,
    h.defaultPrefix⟩
  have hfound := h.found
  by_cases hk : k = templateKey
  · subst hk
    have htemplate := hfound templateKey
    rw [h.template_key] at htemplate ⊢
    simp only [Environment.setTemplate, Array.getElem?_setIfInBounds_self]
    by_cases hlt : templateKey < env.docs.size
    · have hlt' : templateKey < env'.docs.size := by
        rw [Array.getElem?_eq_getElem hlt] at htemplate
        exact (Array.getElem?_eq_some_iff.1 htemplate).1
      rw [if_pos hlt, if_pos hlt']
    · have hlt' : ¬ templateKey < env'.docs.size := by
        rw [Array.getElem?_eq_none (Nat.not_lt.1 hlt)] at htemplate
        exact Nat.not_lt.2 (Array.getElem?_eq_none_iff.1 htemplate)
      rw [if_neg hlt, if_neg hlt']
  · have hne : σ.key k ≠ templateKey := fun heq => hk (σ.injective (heq.trans h.template_key.symm))
    rw [ElementState.getElem?_docs_setTemplate hk, ElementState.getElem?_docs_setTemplate hne,
      hfound k]

/-- The template and one other document keep their order, as the template comes
first. -/
theorem rekeys (source : Option DocKey) :
    env.Rekeys σ (fun k => k = templateKey ∨ source = some k) env' := by
  refine ⟨⟨fun k _ => h.found k, fun j k hj hk hjk => ?_⟩, h.registry, h.registry', h.context,
    h.clock⟩
  rcases hk with rfl | hk
  · exact absurd hjk (Nat.not_lt_zero j)
  · rcases hj with rfl | hj
    · rw [h.template_key]
      refine Nat.pos_of_ne_zero fun hzero => ?_
      exact Nat.ne_of_gt hjk (σ.injective (hzero.trans h.template_key.symm))
    · rw [hj] at hk
      exact absurd hjk (Option.some.inj hk ▸ Nat.lt_irrefl j)

end Environment.Renumbered

/-! ## States -/

namespace ElementState

/-- The same state, bound to the same documents under their new keys. -/
def rekey (σ : Rekeying) (s : ElementState) : ElementState :=
  { s with sources := s.sources.rekey σ }

variable {env env' : Environment} (h : env.Renumbered σ env') (s : ElementState)

theorem isEmpty_rekey : (s.rekey σ).sources.isEmpty = s.sources.isEmpty :=
  Option.isNone_map

theorem secondary_rekey : (s.rekey σ).sources.secondary = s.sources.secondary.map σ.key := rfl

/-- Two computations that come to the same state. -/
abbrev SameState (σ : Rekeying) : Except Error ElementState → Except Error ElementState → Prop :=
  Alike fun s s' => s' = s.rekey σ

include h

theorem bindNamespaces_rekey (key : Option DocKey) :
    (s.rekey σ).bindNamespaces env' (key.map σ.key) = (s.bindNamespaces env key).rekey σ := by
  cases key with
  | none => rfl
  | some k =>
    simp only [bindNamespaces, Option.map_some, Option.bind_some, h.found, h.defaultPrefix]
    cases env.docs[k]? <;> rfl

theorem rebindSource_rekey (key : DocKey) :
    (s.rekey σ).rebindSource (σ.key key) env' = (s.rebindSource key env).rekey σ :=
  bindNamespaces_rekey h { s with sources := .single key } (some key)

theorem evaluateExpression_rekey (d : Directive) :
    Alike Eq (s.evaluateExpression env d) ((s.rekey σ).evaluateExpression env' d) := by
  refine evaluateExpression_moved (P := fun _ => True) (h.rekeys s.sources.primary) rfl
    (fun key hkey => .inr hkey) rfl rfl rfl (fun _ => ⟨.inl rfl, h.template_key, ?_⟩)
    fun _ _ _ _ => trivial
  rw [h.template_eq]
  rfl

theorem bindSources_rekey : SameState σ (s.bindSources env) ((s.rekey σ).bindSources env') := by
  have hdeclaration : (s.rekey σ).declaration .sources = s.declaration .sources := rfl
  simp only [bindSources]
  rw [hdeclaration, h.groups]
  cases env.sources.group? (s.declaration .sources).expression with
  | none => exact .error trivial
  | some g =>
    refine .ok ?_
    change ({ (s.rekey σ).bindNamespaces env' (g.primary.map σ.key) with
      sources := g.rekey σ, moniker := _ } : ElementState) = _
    rw [bindNamespaces_rekey h]
    rfl

theorem store_rekey (d : Directive) : SameState σ (s.store env d) ((s.rekey σ).store env' d) := by
  refine (evaluateExpression_rekey h s d).bind fun v v' hv => ?_
  subst hv
  cases d <;> cases v <;> first
    | exact .ok rfl
    | exact .error trivial

theorem resolveDirective_rekey (d : Directive) :
    SameState σ (s.resolveDirective env d) ((s.rekey σ).resolveDirective env' d) := by
  cases d with
  | sources => exact bindSources_rekey h s
  | fill => exact .ok rfl
  | required =>
    simp only [resolveDirective]
    change SameState σ _ (if s.fetch = true then _ else _)
    split
    · exact store_rekey h s .required
    · exact .ok rfl
  | _ => exact store_rekey h s _

theorem resolveAll_rekey (ds : Declarations) :
    SameState σ (resolveAll env s ds) (resolveAll env' (s.rekey σ) ds) := by
  refine Related.foldlM rfl fun x _ a b hab => ?_
  subst hab
  exact resolveDirective_rekey h a x.directive

omit h in
theorem valid_rekey {parent : ElementState} {name : Option QName} {inner : Bool} :
    s.Valid parent name inner ↔ (s.rekey σ).Valid (parent.rekey σ) name inner := by
  have hsecondary : s.sources.secondary = [] ↔ (s.rekey σ).sources.secondary = [] := by
    rw [secondary_rekey, List.map_eq_nil_iff]
  constructor
  · intro hv
    exact ⟨hv.required, hv.defer, hv.fill, hv.reorder, hv.multi,
      fun hf k hk => hsecondary.1 (hv.group hf k hk), hv.stub⟩
  · intro hv
    exact ⟨hv.required, hv.defer, hv.fill, hv.reorder, hv.multi,
      fun hf k hk => hsecondary.2 (hv.group hf k hk), hv.stub⟩

/-- The element has the same state in both runs. -/
theorem resolve_rekey (parent : ElementState) (n : NodeId) :
    SameState σ (resolve env parent n) (resolve env' (parent.rekey σ) n) := by
  cases hds : env.template.declarations n with
  | error e =>
    unfold resolve
    rw [h.template_eq, hds]
    exact .error trivial
  | ok ds =>
    refine resolve_alike hds (h.template_eq ▸ hds) ?_ (resolveAll_rekey h _ ds) ?_
    · rw [Unbound, Unbound, isEmpty_rekey]
      rfl
    · rintro s s' rfl
      rw [h.template_eq]
      exact valid_rekey s

theorem evalFill_rekey : Alike Eq (s.evalFill env) ((s.rekey σ).evalFill env') := by
  unfold evalFill
  change Alike Eq _ (if !s.declares .fill then _ else _)
  split
  · exact .ok rfl
  · refine (evaluateExpression_rekey h s .fill).bind fun v v' hv => ?_
    subst hv
    cases v with
    | text t => exact .ok rfl
    | texts values => exact .ok rfl
    | _ => exact .error trivial

theorem evalRequired_rekey :
    Alike (fun a b => b.1 = a.1) (s.evalRequired env) ((s.rekey σ).evalRequired env') := by
  have hdeclares : (s.rekey σ).declares .required = s.declares .required := rfl
  unfold evalRequired
  rw [hdeclares]
  split
  · refine (store_rekey h s .required).bind fun a b hab => ?_
    subst hab
    exact .ok rfl
  · exact .ok rfl

end ElementState

/-! ## The walk -/

def DeferredItem.rekey (σ : Rekeying) (item : DeferredItem) : DeferredItem :=
  { item with state := item.state.rekey σ }

def Deferred.rekey (σ : Rekeying) (q : Deferred) : Deferred :=
  { fills := q.fills.map (·.rekey σ), requireds := q.requireds.map (·.rekey σ) }

namespace Engine

/-- The same run on renumbered documents. -/
structure Renumbered (σ : Rekeying) (e e' : Engine) : Prop where
  env : e.env.Renumbered σ e'.env
  deferred : e'.deferred = e.deferred.rekey σ

/-- The two runs go on side by side or both fail. -/
abbrev SameRun (σ : Rekeying) : Except WalkFault Engine → Except WalkFault Engine → Prop :=
  Alike (Renumbered σ)

/-- A visit does the same in both runs. -/
def SameVisit (σ : Rekeying) (visit visit' : Visit) : Prop :=
  ∀ {e e' : Engine}, Renumbered σ e e' → ∀ s n, SameRun σ (visit s n e) (visit' (s.rekey σ) n e')

namespace Renumbered

variable {e e' : Engine} (h : Renumbered σ e e')

include h

theorem template_eq : e'.template = e.template := h.env.template_eq

theorem setTemplate (d : Document) : Renumbered σ (e.setTemplate d) (e'.setTemplate d) :=
  ⟨h.env.setTemplate d, h.deferred⟩

theorem mapTemplate (f : Document → Document) :
    Renumbered σ (e.mapTemplate f) (e'.mapTemplate f) := by
  rw [Engine.mapTemplate, Engine.mapTemplate, h.template_eq]
  exact h.setTemplate _

theorem addFill (s : ElementState) (n : NodeId) :
    Renumbered σ { e with deferred := e.deferred.addFill ⟨s, n⟩ }
      { e' with deferred := e'.deferred.addFill ⟨s.rekey σ, n⟩ } := by
  refine ⟨h.env, ?_⟩
  simp only [h.deferred, Deferred.rekey, Deferred.addFill, List.map_append, List.map_cons,
    List.map_nil, DeferredItem.rekey]

theorem addRequired (s : ElementState) (n : NodeId) :
    Renumbered σ { e with deferred := e.deferred.addRequired ⟨s, n⟩ }
      { e' with deferred := e'.deferred.addRequired ⟨s.rekey σ, n⟩ } := by
  refine ⟨h.env, ?_⟩
  simp only [h.deferred, Deferred.rekey, Deferred.addRequired, List.map_append, List.map_cons,
    List.map_nil, DeferredItem.rekey]

end Renumbered

variable {visit visit' : Visit} (hvisit : SameVisit σ visit visit') {e e' : Engine}

theorem mapError_alike {α β : Type} {r : α → β → Prop} {x : Except Error α} {y : Except Error β}
    (h : Alike r x y) : Alike r (x.mapError WalkFault.failed) (y.mapError WalkFault.failed) :=
  h.mapError fun _ _ _ => trivial

include hvisit

theorem walkBranches_alike (h : Renumbered σ e e') (parent : ElementState) (i : Nat)
    (ns : List NodeId) :
    SameRun σ (walkBranches visit parent i ns e) (walkBranches visit' (parent.rekey σ) i ns e') := by
  induction ns generalizing i e e' with
  | nil => exact .ok h
  | cons n ns ih =>
    exact (hvisit h { parent with multiBranch := some i } n).bind fun e₁ e₁' h₁ => ih h₁ (i + 1)

theorem replicate_alike (h : Renumbered σ e e') (parent : ElementState) (n : NodeId)
    (copies : Nat) :
    SameRun σ (replicate visit parent n copies e) (replicate visit' (parent.rekey σ) n copies e') := by
  unfold replicate
  simp only [h.template_eq]
  split
  · exact .error trivial
  · exact walkBranches_alike hvisit (h.setTemplate _) parent 0 _

theorem walkSources_alike (h : Renumbered σ e e') (s : ElementState) (n parent : NodeId)
    (index : Nat) (keys : List DocKey) :
    SameRun σ (walkSources visit s n parent index keys e)
      (walkSources visit' (s.rekey σ) n parent index (keys.map σ.key) e') := by
  induction keys generalizing e e' with
  | nil => exact .ok h
  | cons key keys ih =>
    have hprimary : (some (σ.key key) = (s.rekey σ).sources.primary) ↔ some key = s.sources.primary := by
      change some (σ.key key) = s.sources.primary.map σ.key ↔ _
      rw [eq_comm, Option.map_eq_some_iff, eq_comm]
      constructor
      · rintro ⟨k, hk, heq⟩
        rw [hk, σ.injective heq]
      · intro hk
        exact ⟨key, hk, rfl⟩
    simp only [walkSources, List.map_cons, hprimary, h.template_eq]
    have hset := h.setTemplate ((if some key = s.sources.primary then (n, e.template)
      else e.template.deepClone n).2.insertChild parent index
        (if some key = s.sources.primary then (n, e.template) else e.template.deepClone n).1)
    rw [ElementState.rebindSource_rekey hset.env]
    exact (hvisit hset _ _).bind fun e₁ e₁' h₁ => ih h₁

theorem expandSources_alike (h : Renumbered σ e e') (s : ElementState) (n : NodeId) :
    SameRun σ (expandSources visit s n e) (expandSources visit' (s.rekey σ) n e') := by
  unfold expandSources
  simp only [h.template_eq]
  split
  · exact .error trivial
  · have hmembers : (s.rekey σ).sources.members.reverse = s.sources.members.reverse.map σ.key := by
      rw [List.map_reverse]
      exact congrArg List.reverse (s.sources.members_rekey σ)
    rw [hmembers]
    exact walkSources_alike hvisit (h.setTemplate _) s n _ _ _

theorem fetch_alike (h : Renumbered σ e e') (parent s : ElementState) (n : NodeId) :
    Alike (fun r r' => r'.1 = r.1 ∧ Renumbered σ r.2 r'.2) (fetch visit parent s n e)
      (fetch visit' (parent.rekey σ) (s.rekey σ) n e') := by
  have hprimary : (s.rekey σ).sources.primary = s.sources.primary.map σ.key := rfl
  have hrequired : (s.rekey σ).required = s.required := rfl
  have hmulti : (s.rekey σ).multi = s.multi := rfl
  unfold fetch
  rw [hprimary, hrequired, hmulti]
  cases s.sources.primary with
  | none => exact .error trivial
  | some key =>
    simp only [Option.map_some, h.env.found, h.template_eq]
    cases e.env.docs[key]? with
    | none => exact .error trivial
    | some source =>
      dsimp only
      split
      · split
        · exact .error trivial
        · exact .ok ⟨rfl, h.mapTemplate (·.detach n)⟩
      · split
        · exact .ok ⟨rfl, h⟩
        · exact .ok ⟨rfl, h.mapTemplate (copyContent · n source _)⟩
      · have hreplicate : Alike (fun r r' => r'.1 = r.1 ∧ Renumbered σ r.2 r'.2)
            (replicate visit parent n _ e >>= fun e₁ => pure (false, e₁))
            (replicate visit' (parent.rekey σ) n _ e' >>= fun e₁ => pure (false, e₁)) :=
          (replicate_alike hvisit h parent n
            ((source.findAll (e.template.elementPath n)).length - 1)).bind
              fun e₁ e₁' h₁ => .ok ⟨rfl, h₁⟩
        split
        · split
          · exact .error trivial
          · exact hreplicate
        · exact hreplicate

theorem walkContent_alike (h : Renumbered σ e e') (s : ElementState) (n : NodeId) :
    SameRun σ (walkContent visit s n e) (walkContent visit' (s.rekey σ) n e') := by
  unfold walkContent
  rw [h.template_eq]
  split
  · exact Related.foldlM h fun c _ e₁ e₁' h₁ => hvisit h₁ s c
  · change SameRun σ _ (if !s.declares .fill then _ else if s.defer then _ else _)
    split
    · exact .ok h
    · split
      · exact .ok (h.addFill s n)
      · refine (mapError_alike (ElementState.evalFill_rekey h.env s)).bind fun v v' hv => ?_
        subst hv
        cases v with
        | none => exact .ok h
        | some v =>
          dsimp only
          refine (mapError_alike (Related.refl (r := Eq) (fun _ => rfl) _)).bind fun d d' hd => ?_
          subst hd
          exact .ok (h.setTemplate d)

theorem finishElement_alike (h : Renumbered σ e e') (s : ElementState) (n : NodeId) :
    SameRun σ (finishElement visit s n e) (finishElement visit' (s.rekey σ) n e') :=
  (walkContent_alike hvisit h s n).bind fun _ _ h₁ => .ok (h₁.mapTemplate _)

theorem walkElement_alike (h : Renumbered σ e e') (parent s : ElementState) (n : NodeId) :
    SameRun σ (walkElement visit parent s n e)
      (walkElement visit' (parent.rekey σ) (s.rekey σ) n e') := by
  have hfetch : (s.rekey σ).fetch = s.fetch := rfl
  have hmulti : (s.rekey σ).multi = s.multi := rfl
  have hdeclares : (s.rekey σ).declares .required = s.declares .required := rfl
  unfold walkElement
  rw [hfetch, hmulti, hdeclares]
  split
  · refine (fetch_alike hvisit h parent s n).bind fun r r' hr => ?_
    obtain ⟨stays, e₁⟩ := r
    obtain ⟨stays', e₁'⟩ := r'
    obtain ⟨rfl, h₁⟩ := hr
    dsimp only
    split
    · exact finishElement_alike hvisit h₁ s n
    · exact .ok h₁
  · have hplain : SameRun σ (if s.declares .required then
          finishElement visit s n { e with deferred := e.deferred.addRequired ⟨s, n⟩ }
        else finishElement visit s n e)
        (if s.declares .required then
          finishElement visit' (s.rekey σ) n
            { e' with deferred := e'.deferred.addRequired ⟨s.rekey σ, n⟩ }
        else finishElement visit' (s.rekey σ) n e') := by
      split
      · exact finishElement_alike hvisit (h.addRequired s n) s n
      · exact finishElement_alike hvisit h s n
    cases s.multi with
    | flag b => exact hplain
    | count k =>
      dsimp only
      split
      · exact replicate_alike hvisit h parent n _
      · exact hplain

omit hvisit in
/-- The walk does the same in both runs. -/
theorem process_alike (fuel : Nat) : SameVisit σ (process fuel) (process fuel) := by
  induction fuel with
  | zero => exact fun _ _ _ => .error trivial
  | succ fuel ih =>
    intro e e' h parent n
    unfold process
    rw [h.template_eq]
    split
    · exact .ok h
    · refine (mapError_alike (ElementState.resolve_rekey h.env parent n)).bind fun s s' hs => ?_
      subst hs
      rw [ElementState.secondary_rekey, List.isEmpty_map]
      split
      · exact walkElement_alike ih h parent s n
      · exact expandSources_alike ih h s n

omit hvisit in
theorem walk_alike (h : Renumbered σ e e') : Alike (Renumbered σ) e.walk e'.walk := by
  unfold walk
  have hprocess := process_alike (depthBound e.template) h .root e.template.root
  rw [show ElementState.root.rekey σ = ElementState.root from rfl] at hprocess
  rw [h.template_eq]
  revert hprocess
  generalize process _ _ _ e = x
  generalize process _ _ _ e' = y
  intro hprocess
  cases hprocess with
  | ok h => exact .ok h
  | @error fault fault' =>
    cases fault <;> cases fault' <;> exact .error trivial

end Engine

/-! ## The export -/

namespace Exporter

/-- The same template before the export, with documents renumbered. -/
structure Renumbered (σ : Rekeying) (x x' : Exporter) : Prop where
  engine : x.engine.Renumbered σ x'.engine
  snapshot : x'.snapshot = x.snapshot

variable {x x' : Exporter} (h : x.Renumbered σ x')

include h

theorem Renumbered.document_eq : x'.document = x.document := h.engine.template_eq

theorem Renumbered.resolveFills_alike : Alike (Renumbered σ) x.resolveFills x'.resolveFills := by
  have hfills : x'.engine.deferred.takeFills =
      (x.engine.deferred.fills.map (·.rekey σ), ({ x.engine.deferred with fills := [] }).rekey σ) := by
    rw [h.engine.deferred]
    rfl
  unfold resolveFills
  rw [hfills]
  dsimp only
  rw [List.foldlM_map]
  refine Related.bind (r := Engine.Renumbered σ) (Related.foldlM ⟨h.engine.env, rfl⟩
    fun item _ e e' he => ?_) fun e e' he => .ok ⟨he, h.snapshot⟩
  refine (ElementState.evalFill_rekey he.env item.state).bind fun v v' hv => ?_
  subst hv
  cases v with
  | none => exact .ok he
  | some v =>
    dsimp only
    rw [he.template_eq]
    refine (Related.refl (r := Eq) (fun _ => rfl) _).bind fun d d' hd => ?_
    subst hd
    exact .ok (he.setTemplate d)

theorem Renumbered.drop_renumbered (n : NodeId) : (x.drop n).Renumbered σ (x'.drop n) := by
  unfold drop
  rw [h.document_eq, h.snapshot]
  exact ⟨h.engine.mapTemplate (·.detach n), rfl⟩

theorem Renumbered.pruneItem_alike (item : DeferredItem) :
    Alike (Renumbered σ) (x.pruneItem item) (x'.pruneItem (item.rekey σ)) := by
  have hnode : (item.rekey σ).node = item.node := rfl
  unfold pruneItem
  rw [hnode]
  refine (ElementState.evalRequired_rekey h.engine.env item.state).bind fun r r' hr => ?_
  obtain ⟨required, _⟩ := r
  obtain ⟨required', _⟩ := r'
  obtain rfl : required' = required := hr
  rw [h.document_eq]
  dsimp only
  split
  · exact .ok (h.drop_renumbered item.node)
  · exact .ok h

theorem Renumbered.prune_alike : Alike (Renumbered σ) x.prune x'.prune := by
  have hrequireds : x'.engine.deferred.takeRequireds =
      (x.engine.deferred.requireds.reverse.map (·.rekey σ),
        ({ x.engine.deferred with requireds := [] }).rekey σ) := by
    rw [h.engine.deferred, List.map_reverse]
    rfl
  unfold prune
  rw [hrequireds]
  dsimp only
  rw [List.foldlM_map]
  exact Related.foldlM ⟨⟨h.engine.env, rfl⟩, h.snapshot⟩ fun item _ y y' hy =>
    hy.pruneItem_alike item

/-- All steps before the label is written do the same. -/
theorem Renumbered.finish_alike : Alike (Renumbered σ) x.finish x'.finish := by
  unfold finish
  refine h.resolveFills_alike.bind fun y y' hy => hy.prune_alike.bind fun z z' hz => ?_
  have hpopulation : z'.checkPopulation = z.checkPopulation := by
    rw [checkPopulation, hz.document_eq]
    rfl
  have hstructure : Alike (fun _ _ => True) z.checkStructure z'.checkStructure := by
    unfold checkStructure
    rw [hz.snapshot, hz.document_eq]
    split
    · exact .ok trivial
    · dsimp only
      split
      · exact .ok trivial
      · exact .error trivial
  rw [hpopulation]
  exact (Related.refl (r := fun _ _ => True) (fun _ => trivial) _).bind fun _ _ _ =>
    hstructure.bind fun _ _ _ => .ok hz

end Exporter

end LabelTemplate
