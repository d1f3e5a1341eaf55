import LabelTemplate.Proofs.Walk.Agreement
import LabelTemplate.Proofs.Walk.Build

/-!
# One element, bound in two ways

An element that names several sources is walked once per source, as a copy
that has lost the directive naming them.  `Abreast ds key p` relates a state of
such a copy to the state of an element which names the one source itself, while
the directives in `p` are still to be resolved: what a directive sets may
differ before it is resolved, and only where elements inherit it.  Resolving
all of them brings the two states together (`Abreast.resolveAll`).
-/

namespace LabelTemplate

open Xml Outcome

namespace ElementState

/-! ## Two states of one element -/

inductive Abreast (ds : Declarations) (key : Option XPath.DocKey) (p : Directive → Prop)
    (s : ElementState) : ElementState → Prop where
  | intro {g : SourceGroup} {ds' : Declarations} {f : Bool} {r : Option Bool} {b : Option Nat}
      (declared : s.declared = ds) (primary : s.sources.primary = key) (primary' : g.primary = key)
      (declared' : ∀ d, d ≠ .sources → Declarations.expression? ds' d = ds.expression? d)
      (fetch : ¬ p .fetch → f = s.fetch) (required : ¬ p .required → r = s.required)
      (multiBranch : ¬ p .multiBranch → b = s.multiBranch) :
      Abreast ds key p s
        { s with sources := g, declared := ds', fetch := f, required := r, multiBranch := b }

namespace Abreast

variable {env : Environment} {m : SourceMap} {ds : Declarations} {key : Option XPath.DocKey}
  {p q : Directive → Prop} {s s' : ElementState} {d : Directive} {t t' : Document}

theorem mono (h : Abreast ds key p s s') (hpq : ∀ d, p d → q d) : Abreast ds key q s s' := by
  cases h with
  | intro h₁ h₂ h₃ h₄ h₅ h₆ h₇ =>
    exact .intro h₁ h₂ h₃ h₄ (fun h => h₅ fun hp => h (hpq _ hp))
      (fun h => h₆ fun hp => h (hpq _ hp)) fun h => h₇ fun hp => h (hpq _ hp)

theorem declared (h : Abreast ds key p s s') : s.declared = ds := by
  cases h
  assumption

theorem primary (h : Abreast ds key p s s') : s.sources.primary = key := by
  cases h
  assumption

theorem fetch (h : Abreast ds key p s s') (hp : ¬ p .fetch) : s'.fetch = s.fetch := by
  cases h with
  | intro h₁ h₂ h₃ h₄ h₅ h₆ h₇ => exact h₅ hp

theorem declares (h : Abreast ds key p s s') (hd : d ≠ .sources) : s'.declares d = s.declares d := by
  cases h with
  | intro h₁ h₂ h₃ h₄ h₅ h₆ h₇ =>
    simp only [ElementState.declares, Declarations.declares, h₄ d hd, h₁]

theorem focus_eq (h : Abreast ds key p s s') (hd : d ≠ .sources)
    (hfill : d = .fill → ¬ p .multiBranch) : s.focus d = s'.focus d := by
  cases h with
  | intro h₁ h₂ h₃ h₄ h₅ h₆ h₇ =>
    have hbranch : ∀ b, (¬ p .multiBranch → b = s.multiBranch) →
        (if d = .fill then s.multiBranch else none) = if d = .fill then b else none := by
      intro b hb
      split
      · exact (hb (hfill ‹_›)).symm
      · rfl
    simp only [focus, declaration, h₁, h₂, h₃, h₄ d hd, hbranch _ h₇]

/-- A directive that sets nothing of what elements inherit. -/
theorem narrow (h : Abreast ds key p s s') (hfetch : d ≠ .fetch) (hrequired : d ≠ .required)
    (hbranch : d ≠ .multiBranch) : Abreast ds key (fun c => p c ∧ c ≠ d) s s' := by
  cases h with
  | intro h₁ h₂ h₃ h₄ h₅ h₆ h₇ =>
    exact .intro h₁ h₂ h₃ h₄ (fun h => h₅ fun hp => h ⟨hp, hfetch.symm⟩)
      (fun h => h₆ fun hp => h ⟨hp, hrequired.symm⟩) fun h => h₇ fun hp => h ⟨hp, hbranch.symm⟩

theorem setFetch (h : Abreast ds key p s s') (f : Bool) :
    Abreast ds key (fun c => p c ∧ c ≠ .fetch) { s with fetch := f } { s' with fetch := f } := by
  cases h with
  | intro h₁ h₂ h₃ h₄ h₅ h₆ h₇ =>
    exact .intro h₁ h₂ h₃ h₄ (fun _ => rfl) (fun h => h₆ fun hp => h ⟨hp, by decide⟩)
      fun h => h₇ fun hp => h ⟨hp, by decide⟩

theorem setRequired (h : Abreast ds key p s s') (r : Option Bool) :
    Abreast ds key (fun c => p c ∧ c ≠ .required) { s with required := r }
      { s' with required := r } := by
  cases h with
  | intro h₁ h₂ h₃ h₄ h₅ h₆ h₇ =>
    exact .intro h₁ h₂ h₃ h₄ (fun h => h₅ fun hp => h ⟨hp, by decide⟩) (fun _ => rfl)
      fun h => h₇ fun hp => h ⟨hp, by decide⟩

theorem setBranch (h : Abreast ds key p s s') (b : Option Nat) :
    Abreast ds key (fun c => p c ∧ c ≠ .multiBranch) { s with multiBranch := b }
      { s' with multiBranch := b } := by
  cases h with
  | intro h₁ h₂ h₃ h₄ h₅ h₆ h₇ =>
    exact .intro h₁ h₂ h₃ h₄ (fun h => h₅ fun hp => h ⟨hp, by decide⟩)
      (fun h => h₆ fun hp => h ⟨hp, by decide⟩) fun _ => rfl

theorem setMulti (h : Abreast ds key p s s') (k : Multi) :
    Abreast ds key p { s with multi := k } { s' with multi := k } := by
  cases h with
  | intro h₁ h₂ h₃ h₄ h₅ h₆ h₇ => exact .intro h₁ h₂ h₃ h₄ h₅ h₆ h₇

theorem setDefer (h : Abreast ds key p s s') (b : Bool) :
    Abreast ds key p { s with defer := b } { s' with defer := b } := by
  cases h with
  | intro h₁ h₂ h₃ h₄ h₅ h₆ h₇ => exact .intro h₁ h₂ h₃ h₄ h₅ h₆ h₇

theorem setReorder (h : Abreast ds key p s s') (b : Bool) :
    Abreast ds key p { s with reorder := b } { s' with reorder := b } := by
  cases h with
  | intro h₁ h₂ h₃ h₄ h₅ h₆ h₇ => exact .intro h₁ h₂ h₃ h₄ h₅ h₆ h₇

/-- A value is the same in both. -/
theorem store (h : Abreast ds key p s s') (hkey : key ≠ some templateKey) (hd : d ≠ .sources)
    (hfill : d ≠ .fill) (hreads : ReadsNoTemplate env (s.declaration d)) :
    Alike (Abreast ds key fun c => p c ∧ c ≠ d) (s.store (env.setTemplate t) d)
      (s'.store ({ env with sources := m }.setTemplate t') d) := by
  refine (evaluateExpression_alike (h.focus_eq hd fun h => absurd h hfill) hreads
    (h.primary ▸ hkey)).bind fun v v' hv => ?_
  cases hv
  cases d <;> cases v <;> first
    | exact .error trivial
    | exact .ok (h.setFetch _)
    | exact .ok (h.setRequired _)
    | exact .ok (h.setBranch _)
    | exact .ok ((h.setMulti _).narrow (by decide) (by decide) (by decide))
    | exact .ok ((h.setDefer _).narrow (by decide) (by decide) (by decide))
    | exact .ok ((h.setReorder _).narrow (by decide) (by decide) (by decide))

theorem resolveDirective (h : Abreast ds key p s s') (hkey : key ≠ some templateKey)
    (hd : d ≠ .sources) (hrequired : d = .required → ¬ p .fetch)
    (haloof : Declared.Aloof env (s.declaration d)) :
    Alike (Abreast ds key fun c => p c ∧ c ≠ d) (s.resolveDirective (env.setTemplate t) d)
      (s'.resolveDirective ({ env with sources := m }.setTemplate t') d) := by
  have hreads : ReadsNoTemplate env (s.declaration d) := haloof.evaluation hd
  cases d with
  | sources => exact absurd rfl hd
  | fill => exact .ok (h.narrow (by decide) (by decide) (by decide))
  | required =>
    have hfetch : s'.fetch = s.fetch := h.fetch (hrequired rfl)
    simp only [ElementState.resolveDirective]
    by_cases hactive : s.fetch = true
    · rw [if_pos hactive, if_pos (hfetch.trans hactive)]
      exact h.store hkey hd (by decide) hreads
    · rw [if_neg hactive, if_neg (hfetch ▸ hactive)]
      exact .ok (h.setRequired none)
  | fetch => exact h.store hkey hd (by decide) hreads
  | multi => exact h.store hkey hd (by decide) hreads
  | defer => exact h.store hkey hd (by decide) hreads
  | multiBranch => exact h.store hkey hd (by decide) hreads
  | reorder => exact h.store hkey hd (by decide) hreads

/-- With all directives resolved nothing is left to differ. -/
theorem resolveAll (hkey : key ≠ some templateKey) (hds : ∀ x ∈ ds, Declared.Aloof env x)
    {rest : Declarations} (hsorted : rest.Sorted)
    (hrest : ∀ x ∈ rest, x ∈ ds ∧ x.directive ≠ .sources)
    (h : Abreast ds key (fun d => ∃ x ∈ rest, x.directive = d) s s') :
    Alike (Abreast ds key fun _ => False) (ElementState.resolveAll (env.setTemplate t) s rest)
      (ElementState.resolveAll ({ env with sources := m }.setTemplate t') s' rest) := by
  induction rest generalizing s s' with
  | nil => exact .ok (h.mono fun d hd => by simp at hd)
  | cons x rest ih =>
    obtain ⟨hbefore, hsorted⟩ := List.pairwise_cons.1 hsorted
    obtain ⟨hmem, hne⟩ := hrest x List.mem_cons_self
    have haloof : Declared.Aloof env (s.declaration x.directive) := by
      have h' := Declarations.declaration_mem hmem
      rw [← h.declared] at h'
      exact hds _ (h.declared ▸ h')
    have hrequired : x.directive = .required → ¬ ∃ y ∈ x :: rest, y.directive = .fetch := by
      rintro hx ⟨y, hy, hfetch⟩
      rcases List.mem_cons.1 hy with rfl | hy
      · rw [hx] at hfetch
        cases hfetch
      · have hlt := hbefore y hy
        rw [hx, hfetch] at hlt
        exact absurd hlt (by decide)
    rw [ElementState.resolveAll, ElementState.resolveAll, List.foldlM_cons, List.foldlM_cons]
    refine (h.resolveDirective hkey hne hrequired haloof).bind fun a b hab => ?_
    refine ih hsorted (fun y hy => hrest y (List.mem_cons_of_mem _ hy)) (hab.mono ?_)
    rintro d ⟨⟨y, hy, rfl⟩, hdone⟩
    rcases List.mem_cons.1 hy with rfl | hy
    · exact absurd rfl hdone
    · exact ⟨y, hy, rfl⟩

/-- Then they differ at most in the sources and in what is declared. -/
theorem eq (h : Abreast ds key (fun _ => False) s s') :
    s' = { s with sources := s'.sources, declared := s'.declared } := by
  cases h with
  | intro h₁ h₂ h₃ h₄ h₅ h₆ h₇ =>
    rw [h₅ not_false, h₆ not_false, h₇ not_false]

end Abreast

end ElementState

/-! ## One source for a moniker -/

/-- The environment in which a moniker names one document alone. -/
def Environment.bindSource (env : Environment) (m : String) (key : XPath.DocKey) : Environment :=
  { env with sources := env.sources.bind m (.single key) }

theorem SourceGroup.outside_single {key : XPath.DocKey} (hkey : key ≠ templateKey) :
    (SourceGroup.single key).Outside :=
  ⟨List.nodup_singleton key, fun h => hkey (List.mem_singleton.1 h).symm⟩

section BindSource

variable {env : Environment} {m : String} {key : XPath.DocKey} {source : Document}

theorem Environment.group?_bindSource (env : Environment) (m x : String) (key : XPath.DocKey) :
    (env.bindSource m key).sources.group? x =
      if x = m then some (.single key) else env.sources.group? x :=
  SourceMap.group?_bind env.sources m x (.single key)

theorem Declared.Aloof.bindSource {x : Declared} (h : Declared.Aloof env x)
    (hkey : key ≠ templateKey) : Declared.Aloof (env.bindSource m key) x where
  sources hx g hg := by
    rw [Environment.group?_bindSource] at hg
    split at hg
    · cases hg
      exact SourceGroup.outside_single hkey
    · exact h.sources hx g hg
  evaluation hx s n t hs hprimary := by
    have hreads := h.evaluation hx s n t hs hprimary
    rw [← ElementState.evaluateExpression_withSources _ _ (env.bindSource m key).sources,
      ← ElementState.evaluateExpression_withSources s env (env.bindSource m key).sources] at hreads
    exact hreads

theorem Xml.Forest.Aloof.bindSource {f : Forest} (h : f.Aloof env) (hkey : key ≠ templateKey) :
    f.Aloof (env.bindSource m key) :=
  Forest.AllKinds.mono (fun _ hk e he a ha hdirective d hd =>
    (hk e he a ha hdirective d hd).bindSource hkey) h

end BindSource

namespace ElementState

/-! ## The state below which a copy is walked -/

/-- `s` is what a copy of the element `e` is resolved below when `e` itself is
resolved below `s'` and names one source. -/
structure Rebound (env : Environment) (m : String) (key : XPath.DocKey) (e : Element)
    (s s' : ElementState) : Prop where
  sources : s.sources = .single key
  moniker : s.moniker = some m
  namespaces : ∀ source, env.docs[key]? = some source →
    s.namespaces = expressionNamespaces source env.defaultPrefix
  fetch : e.declares .fetch = false → s.fetch = s'.fetch
  required : e.declares .required = false → s.required = s'.required
  multiBranch : e.declares .multiBranch = false → s.multiBranch = s'.multiBranch

variable {env : Environment} {m : String} {key : XPath.DocKey} {source : Document} {e : Element}
  {s s' : ElementState} {ds : Declarations}

theorem declares_eq_false (hds : e.attributes.foldlM addDeclaration [] = .ok (⟨.sources, m⟩ :: ds))
    {d : Directive} (hd : d ≠ .sources) (h : ¬ ∃ x ∈ ds, x.directive = d) :
    e.declares d = false := by
  rw [Element.declares, ← Declarations.declares_of_foldlM hds, ← Bool.not_eq_true]
  intro hdeclared
  obtain ⟨x, hx, rfl⟩ := Declarations.exists_of_declares hdeclared
  rcases List.mem_cons.1 hx with rfl | hx
  · exact hd rfl
  · exact h ⟨x, hx, rfl⟩

theorem resolveAll_sources {env : Environment} {g : SourceGroup}
    (hg : env.sources.group? m = some g) (hm : (s.declaration .sources).expression = m) :
    resolveAll env s (⟨.sources, m⟩ :: ds) =
      resolveAll env { s.bindNamespaces env g.primary with sources := g, moniker := some m } ds := by
  subst hm
  rw [resolveAll, List.foldlM_cons, resolveDirective, bindSources_of_some env hg]
  rfl

/-- The copy and the element, once this one has bound its source. -/
theorem Rebound.abreast (h : Rebound env m key e s s') (hsource : env.docs[key]? = some source)
    (hkey : key ≠ templateKey)
    (hds : e.attributes.foldlM addDeclaration [] = .ok (⟨.sources, m⟩ :: ds)) (t : Document) :
    Abreast ds (some key) (fun d => ∃ x ∈ ds, x.directive = d) (s.inherit 0 ds)
      { (s'.inherit 0 (⟨.sources, m⟩ :: ds)).bindNamespaces ((env.bindSource m key).setTemplate t)
          (some key) with sources := .single key, moniker := some m } := by
  have hbound : { (s'.inherit 0 (⟨.sources, m⟩ :: ds)).bindNamespaces
        ((env.bindSource m key).setTemplate t) (some key) with
        sources := .single key, moniker := some m } =
      { s.inherit 0 ds with
        sources := .single key, declared := ⟨.sources, m⟩ :: ds, fetch := s'.fetch,
        required := s'.required, multiBranch := s'.multiBranch } := by
    have hdoc : ((env.bindSource m key).setTemplate t).docs[key]? = some source :=
      (getElem?_docs_setTemplate hkey).trans hsource
    simp only [bindNamespaces, Option.bind_some, hdoc, inherit, h.moniker, h.namespaces source hsource]
    rfl
  rw [hbound]
  refine .intro rfl ?_ rfl (fun d hd => ?_) (fun hd => ?_) (fun hd => ?_) fun hd => ?_
  · change s.sources.primary = some key
    rw [h.sources]
    rfl
  · rw [Declarations.expression?_cons, if_neg (Ne.symm hd)]
  · exact (h.fetch (declares_eq_false hds (by decide) hd)).symm
  · exact (h.required (declares_eq_false hds (by decide) hd)).symm
  · exact (h.multiBranch (declares_eq_false hds (by decide) hd)).symm

end ElementState

end LabelTemplate
