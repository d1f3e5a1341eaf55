import LabelTemplate.Proofs.Walk.Aloof

/-!
# Resolved states

What resolving the state of an element checks (`Valid`, `resolve_eq_ok`), and
the comparison of two resolutions: `resolve_alike` puts them side by side, and
`resolve_twin` uses it for the same element in two templates.
-/

namespace LabelTemplate

open Xml Outcome

theorem Environment.template_setTemplate (env : Environment) (h : 0 < env.docs.size)
    (d : Document) : (env.setTemplate d).template = d := by
  simp [template, setTemplate, templateKey, Array.getElem?_setIfInBounds_self_of_lt h]

namespace ElementState

/-! ## The checks -/

/-- A check at the start of a computation. -/
theorem check_eq_ok {ε α β : Type} {c : Prop} [Decidable c] {e : ε} {f : β → Except ε α}
    {x : Except ε α} {a : α} :
    (if c then .error e >>= f else x) = .ok a ↔ ¬ c ∧ x = .ok a := by
  split
  · constructor
    · intro h
      cases h
    · exact fun h => absurd ‹c› h.1
  · simp [‹¬ c›]

/-- What is required of the state of an element with a given name, `inner`
telling whether it has element children. -/
structure Valid (s parent : ElementState) (name : Option QName) (inner : Bool) : Prop where
  required : ¬ (s.required = some true ∧ parent.required = some false)
  defer : s.defer = true → s.declares .fill = true
  fill : ¬ (s.declares .fill = true ∧ inner = true)
  reorder : s.fetch = false → s.reorder = false
  multi : s.fetch = false → s.multi ≠ .flag true
  group : s.fetch = false → ∀ k, s.multi = .count k → s.sources.secondary = []
  stub : ¬ (name.any isClassName = true ∧ inner = false ∧ s.declared = [])

/-- What is checked does not depend on the sources, except on how many there
are, nor on the expressions that are declared. -/
theorem Valid.rebind {s parent parent' : ElementState} {name : Option QName} {inner : Bool}
    (h : s.Valid parent name inner) (g : SourceGroup) (ds : Declarations)
    (hfill : ds.declares .fill = s.declares .fill)
    (hrequired : ¬ (s.required = some true ∧ parent'.required = some false))
    (hgroup : s.fetch = false → ∀ k, s.multi = .count k → g.secondary = [])
    (hstub : ¬ (name.any isClassName = true ∧ inner = false ∧ ds = [])) :
    { s with sources := g, declared := ds }.Valid parent' name inner where
  required := hrequired
  defer hdefer := hfill.trans (h.defer hdefer)
  fill hboth := h.fill ⟨hfill.symm.trans hboth.1, hboth.2⟩
  reorder := h.reorder
  multi := h.multi
  group := hgroup
  stub := hstub

theorem validate_eq_ok {s parent : ElementState} {env : Environment} {n : NodeId} :
    s.validate env parent n = .ok () ↔
      s.Valid parent (env.template.name? n) (env.template.hasElementChildren n) := by
  have hstub : ∀ e : Error, ((if (Option.any isClassName (env.template.name? n) &&
      !env.template.hasElementChildren n && List.isEmpty s.declared) = true then .error e
      else pure ()) : Except Error Unit) = .ok () ↔
      ¬ ((env.template.name? n).any isClassName = true ∧
        env.template.hasElementChildren n = false ∧ s.declared = []) := by
    intro e
    split <;> simp_all [pure, Except.pure]
  unfold validate
  simp only [check_eq_ok]
  cases hf : s.fetch with
  | true =>
    simp only [Bool.not_true, Bool.false_eq_true, if_false, hstub]
    constructor
    · rintro ⟨hrequired, hdefer, hfill, hstub⟩
      exact ⟨hrequired, by simpa using hdefer, by simpa using hfill, by simp [hf], by simp [hf],
        by simp [hf], hstub⟩
    · rintro ⟨hrequired, hdefer, hfill, -, -, -, hstub⟩
      exact ⟨hrequired, by simpa using hdefer, by simpa using hfill, hstub⟩
  | false =>
    simp only [Bool.not_false, if_true, check_eq_ok]
    cases hm : s.multi with
    | count k =>
      simp only [check_eq_ok, hstub]
      constructor
      · rintro ⟨hrequired, hdefer, hfill, hreorder, hgroup, hstub⟩
        exact ⟨hrequired, by simpa using hdefer, by simpa using hfill, by simp [hreorder],
          by simp [hm], fun _ _ _ => by simpa using hgroup, hstub⟩
      · rintro ⟨hrequired, hdefer, hfill, hreorder, -, hgroup, hstub⟩
        exact ⟨hrequired, by simpa using hdefer, by simpa using hfill, by simpa using hreorder hf,
          by simpa using hgroup hf k hm, hstub⟩
    | flag b =>
      cases b with
      | false =>
        simp only [hstub]
        constructor
        · rintro ⟨hrequired, hdefer, hfill, hreorder, hstub⟩
          exact ⟨hrequired, by simpa using hdefer, by simpa using hfill, by simp [hreorder],
            by simp [hm], by simp [hm], hstub⟩
        · rintro ⟨hrequired, hdefer, hfill, hreorder, -, -, hstub⟩
          exact ⟨hrequired, by simpa using hdefer, by simpa using hfill,
            by simpa using hreorder hf, hstub⟩
      | true =>
        constructor
        · rintro ⟨-, -, -, -, h⟩
          cases h
        · intro h
          exact absurd hm (h.multi hf)

/-- Without sources no directive but the one that binds some is allowed. -/
def Unbound (parent : ElementState) (ds : Declarations) : Prop :=
  ds ≠ [] ∧ ds.declares .sources = false ∧ parent.sources.isEmpty = true

theorem not_unbound_cons (parent : ElementState) (m : String) (ds : Declarations) :
    ¬ Unbound parent (⟨.sources, m⟩ :: ds) := by
  rintro ⟨-, hnone, -⟩
  rw [Declarations.declares, Declarations.expression?_cons, if_pos rfl] at hnone
  cases hnone

/-- The declared directives one after the other. -/
def resolveAll (env : Environment) (s : ElementState) (ds : Declarations) :
    Except Error ElementState :=
  ds.foldlM (fun s d => s.resolveDirective env d.directive) s

theorem resolve_eq {env : Environment} {parent : ElementState} {n : NodeId} {ds : Declarations}
    (hds : env.template.declarations n = .ok ds) (hbound : ¬ Unbound parent ds) :
    resolve env parent n =
      (resolveAll env (inherit parent n ds) ds >>= fun s => do s.validate env parent n; return s) := by
  have hcheck : ¬ ((!ds.isEmpty && !ds.declares .sources && parent.sources.isEmpty) = true) := by
    intro h
    exact hbound (by simpa [Unbound, and_assoc] using h)
  rw [resolve, hds]
  exact if_neg hcheck

theorem resolve_unbound {env : Environment} {parent : ElementState} {n : NodeId}
    {ds : Declarations} (hds : env.template.declarations n = .ok ds) (hbound : Unbound parent ds) :
    resolve env parent n = (inherit parent n ds).fail env .noSource := by
  have hcheck : (!ds.isEmpty && !ds.declares .sources && parent.sources.isEmpty) = true := by
    simpa [Unbound, and_assoc] using hbound
  rw [resolve, hds]
  exact (if_pos hcheck).trans rfl

theorem resolve_eq_ok {env : Environment} {parent s : ElementState} {n : NodeId} :
    resolve env parent n = .ok s ↔ ∃ ds, env.template.declarations n = .ok ds ∧
      ¬ Unbound parent ds ∧ resolveAll env (inherit parent n ds) ds = .ok s ∧
        s.Valid parent (env.template.name? n) (env.template.hasElementChildren n) := by
  constructor
  · intro h
    obtain ⟨ds, hds, -⟩ := bind_eq_ok.1 h
    by_cases hbound : Unbound parent ds
    · rw [resolve_unbound hds hbound] at h
      cases h
    · rw [resolve_eq hds hbound] at h
      obtain ⟨s', hall, h⟩ := bind_eq_ok.1 h
      obtain ⟨⟨⟩, hvalid, h⟩ := bind_eq_ok.1 h
      cases h
      exact ⟨ds, hds, hbound, hall, validate_eq_ok.1 hvalid⟩
  · rintro ⟨ds, hds, hbound, hall, hvalid⟩
    rw [resolve_eq hds hbound, hall]
    exact bind_eq_ok.2 ⟨s, rfl, bind_eq_ok.2 ⟨(), validate_eq_ok.2 hvalid, rfl⟩⟩

/-- Two resolutions side by side. -/
theorem resolve_alike {env env' : Environment} {parent parent' : ElementState} {n n' : NodeId}
    {ds ds' : Declarations} {r : ElementState → ElementState → Prop}
    (hds : env.template.declarations n = .ok ds) (hds' : env'.template.declarations n' = .ok ds')
    (hbound : Unbound parent ds ↔ Unbound parent' ds')
    (hall : Alike r (resolveAll env (inherit parent n ds) ds)
      (resolveAll env' (inherit parent' n' ds') ds'))
    (hvalid : ∀ s s', r s s' →
      (s.Valid parent (env.template.name? n) (env.template.hasElementChildren n) ↔
        s'.Valid parent' (env'.template.name? n') (env'.template.hasElementChildren n'))) :
    Alike r (resolve env parent n) (resolve env' parent' n') := by
  by_cases h : Unbound parent ds
  · rw [resolve_unbound hds h, resolve_unbound hds' (hbound.1 h)]
    exact .error trivial
  · rw [resolve_eq hds h, resolve_eq hds' (mt hbound.2 h)]
    refine hall.bind fun s s' hs => ?_
    have hiff : s.validate env parent n = .ok () ↔ s'.validate env' parent' n' = .ok () := by
      rw [validate_eq_ok, validate_eq_ok]
      exact hvalid s s' hs
    cases hv : s.validate env parent n with
    | ok u =>
      rw [hiff.1 hv]
      exact .ok hs
    | error e =>
      cases hv' : s'.validate env' parent' n' with
      | ok u =>
        rw [hiff.2 hv'] at hv
        cases hv
      | error e' => exact .error trivial

/-! ## The same element in two templates -/

section Twins

variable {env : Environment} {t t' : Document} {s s' : ElementState}

/-- What a step of the resolution keeps between twins. -/
structure Twins (ds : Declarations) (s s' : ElementState) : Prop where
  twin : s.Twin s'
  declared : s'.declared = ds
  outside : s'.sources.Outside

theorem store_twin {ds : Declarations} (h : Twins ds s s') {d : Directive}
    (hd : ReadsNoTemplate env (s'.declaration d)) :
    Alike (Twins ds) (s.store (env.setTemplate t) d) (s'.store (env.setTemplate t') d) := by
  obtain ⟨htwin, hds, hout⟩ := h
  refine (evaluateExpression_related t t' htwin hd hout.primary_ne).bind
    fun v v' hv => ?_
  cases hv
  obtain ⟨n, rfl⟩ := htwin
  cases d <;> cases v <;> first
    | exact .ok ⟨⟨n, rfl⟩, hds, hout⟩
    | exact .error trivial

@[simp] theorem declared_bindNamespaces (s : ElementState) (env : Environment)
    (key : Option XPath.DocKey) : (s.bindNamespaces env key).declared = s.declared := by
  unfold bindNamespaces
  split <;> rfl

@[simp] theorem sources_rebindSource (s : ElementState) (key : XPath.DocKey) (env : Environment) :
    (s.rebindSource key env).sources = .single key := by
  unfold rebindSource bindNamespaces
  split <;> rfl

theorem rebindSource_eq {env : Environment} {key : XPath.DocKey} {source : Document}
    (h : env.docs[key]? = some source) (s : ElementState) :
    s.rebindSource key env =
      { s with sources := .single key, namespaces := expressionNamespaces source env.defaultPrefix } := by
  simp only [rebindSource, bindNamespaces, Option.bind_some, h]

theorem bindSources_of_none {s : ElementState} (env : Environment)
    (h : env.sources.group? (s.declaration .sources).expression = none) :
    s.bindSources env = s.fail env (.unknownMoniker (s.declaration .sources).expression) := by
  simp only [bindSources, h]

theorem bindSources_of_some {s : ElementState} (env : Environment) {g : SourceGroup}
    (h : env.sources.group? (s.declaration .sources).expression = some g) :
    s.bindSources env = .ok { s.bindNamespaces env g.primary with
      sources := g, moniker := some (s.declaration .sources).expression } := by
  simp only [bindSources, h]

theorem bindSources_twin {ds : Declarations} (h : Twins ds s s')
    (hd : Declared.Aloof env (s'.declaration .sources)) :
    Alike (Twins ds) (s.bindSources (env.setTemplate t)) (s'.bindSources (env.setTemplate t')) := by
  obtain ⟨htwin, hds, hout⟩ := h
  have hmoniker : (s.declaration .sources).expression = (s'.declaration .sources).expression := by
    obtain ⟨n, rfl⟩ := htwin
    rfl
  cases hg : env.sources.group? (s'.declaration .sources).expression with
  | none =>
    rw [bindSources_of_none (env.setTemplate t) (hmoniker ▸ hg),
      bindSources_of_none (env.setTemplate t') hg]
    exact .error trivial
  | some g =>
    have hout := hd.sources rfl g hg
    obtain ⟨n, hn⟩ := bindNamespaces_twin env t t' htwin hout.primary_ne
    rw [bindSources_of_some (env.setTemplate t) (hmoniker ▸ hg),
      bindSources_of_some (env.setTemplate t') hg, hn, hmoniker]
    refine .ok ⟨⟨n, rfl⟩, ?_, hout⟩
    rw [← hds]
    exact declared_bindNamespaces s' _ _

theorem resolveDirective_twin {ds : Declarations} (h : Twins ds s s') {d : Directive}
    (hd : Declared.Aloof env (s'.declaration d)) :
    Alike (Twins ds) (s.resolveDirective (env.setTemplate t) d)
      (s'.resolveDirective (env.setTemplate t') d) := by
  cases d with
  | sources => exact bindSources_twin h hd
  | fill => exact .ok h
  | required =>
    obtain ⟨⟨n, rfl⟩, hds, hout⟩ := h
    simp only [resolveDirective]
    split
    · exact store_twin ⟨⟨n, rfl⟩, hds, hout⟩ (hd.evaluation fun hd => by cases hd)
    · exact .ok ⟨⟨n, rfl⟩, hds, hout⟩
  | fetch => exact store_twin h (hd.evaluation fun hd => by cases hd)
  | multi => exact store_twin h (hd.evaluation fun hd => by cases hd)
  | defer => exact store_twin h (hd.evaluation fun hd => by cases hd)
  | multiBranch => exact store_twin h (hd.evaluation fun hd => by cases hd)
  | reorder => exact store_twin h (hd.evaluation fun hd => by cases hd)

theorem resolveAll_twin {ds : Declarations} (hds : ∀ x ∈ ds, Declared.Aloof env x)
    (h : Twins ds s s') :
    Alike (Twins ds) (resolveAll (env.setTemplate t) s ds)
      (resolveAll (env.setTemplate t') s' ds) := by
  refine Related.foldlM h fun x hx a b hab => resolveDirective_twin hab ?_
  have hmem := Declarations.declaration_mem hx
  rw [← hab.declared] at hmem
  exact hds _ (hab.declared ▸ hmem)

/-- Two states of one element, with directives that do not read the template. -/
structure Settled (env : Environment) (s s' : ElementState) : Prop where
  twin : s.Twin s'
  outside : s'.sources.Outside
  aloof : ∀ x ∈ s'.declared, Declared.Aloof env x

/-- The same element below the same state, in two templates. -/
theorem resolve_twin (hdocs : 0 < env.docs.size) {parent parent' : ElementState}
    (hparent : parent.Twin parent') (hout : parent'.sources.Outside) {n n' : NodeId} {e : Element}
    (he : e.Aloof env) (hn : t.element? n = some e) (hn' : t'.element? n' = some e)
    (hinner : t.hasElementChildren n = t'.hasElementChildren n') :
    Alike (Settled env) (resolve (env.setTemplate t) parent n)
      (resolve (env.setTemplate t') parent' n') := by
  have htemplate := env.template_setTemplate hdocs
  have hattributes : ∀ {t : Document} {n : NodeId}, t.element? n = some e →
      t.declarations n = (e.attributes.foldlM addDeclaration []).mapError
        (.node · (t.location n)) := by
    intro t n hn
    simp only [Document.declarations, Document.attributes, hn]
  cases hds : e.attributes.foldlM addDeclaration [] with
  | error fault =>
    rw [resolve, resolve, htemplate, htemplate, hattributes hn, hattributes hn', hds]
    exact .error trivial
  | ok ds =>
    have haloof := Declarations.aloof_of_foldlM he hds
    have hstart : Twins ds (inherit parent n ds) (inherit parent' n' ds) := by
      obtain ⟨m, rfl⟩ := hparent
      exact ⟨⟨some n, rfl⟩, rfl, hout⟩
    have hdecls : ∀ {t : Document} {n : NodeId}, t.element? n = some e →
        (env.setTemplate t).template.declarations n = .ok ds := by
      intro t n hn
      rw [htemplate, hattributes hn, hds]
      rfl
    refine (resolve_alike (hdecls hn) (hdecls hn') ?_ (resolveAll_twin haloof hstart) ?_).mono
      (fun _ _ h => h) fun s s' h => ⟨h.twin, h.outside, h.declared ▸ haloof⟩
    · obtain ⟨m, rfl⟩ := hparent
      rfl
    · rintro s s' ⟨⟨m, rfl⟩, -, -⟩
      obtain ⟨k, rfl⟩ := hparent
      rw [htemplate, htemplate, hinner, Document.name?, Document.name?, hn, hn']
      constructor
      · rintro ⟨h₁, h₂, h₃, h₄, h₅, h₆, h₇⟩
        exact ⟨h₁, h₂, h₃, h₄, h₅, h₆, h₇⟩
      · rintro ⟨h₁, h₂, h₃, h₄, h₅, h₆, h₇⟩
        exact ⟨h₁, h₂, h₃, h₄, h₅, h₆, h₇⟩

theorem evalFill_twin (h : Settled env s s') :
    Alike Eq (s.evalFill (env.setTemplate t)) (s'.evalFill (env.setTemplate t')) := by
  obtain ⟨⟨n, rfl⟩, hout, haloof⟩ := h
  by_cases hfill : s'.declares .fill = true
  · obtain ⟨x, hx, hd⟩ : ∃ x ∈ s'.declared, x.directive = .fill := by
      simp only [declares, Declarations.declares, Declarations.expression?, Option.isSome_map,
        List.find?_isSome] at hfill
      simpa using hfill
    have hmem := Declarations.declaration_mem hx
    rw [hd] at hmem
    have hskip : (!s'.declares .fill) ≠ true := by simp [hfill]
    rw [evalFill, evalFill]
    refine Eq.mpr (congrArg₂ (Alike Eq) (if_neg hskip) (if_neg hskip)) ?_
    refine (evaluateExpression_related t t' ⟨n, rfl⟩
      ((haloof _ hmem).evaluation fun hd => by cases hd) hout.primary_ne).bind fun v v' hv => ?_
    cases hv
    cases v with
    | text x => exact .ok rfl
    | texts xs => exact .ok rfl
    | boolean b => exact .error trivial
    | integer k => exact .error trivial
  · have hskip : (!s'.declares .fill) = true := by simpa using hfill
    rw [evalFill, evalFill]
    refine Eq.mpr (congrArg₂ (Alike Eq) (if_pos hskip) (if_pos hskip)) ?_
    exact .ok rfl

end Twins

end ElementState

end LabelTemplate
