import LabelTemplate.Proofs.Export.Settling
import LabelTemplate.Proofs.Walk.Drafting
import LabelTemplate.Proofs.Walk.Rekeying
import LabelTemplate.Proofs.Walk.Sources
import LabelTemplate.Proofs.Writing.Trimming

/-!
# What a label says, told by the tree of its template

Where no directive reads the template, all that a build and an export make of
it is known from its tree: the walk drafts it, the draft is settled, and unused
declarations go (`Template.label_answered`).  Two templates can then be compared by
their trees.

`TemplateInput.Aloof` says that none does.  With the built-in functions only it
can be seen from the texts of the directives, since a group holds the template
only under its own moniker and only `self` leads to it (`aloof_of_builtins`).
Loading puts the template in one place and uses it nowhere else
(`SourceMap.build_alike`).  So two templates with related drafts have related
labels (`labels_alike`).
-/

namespace LabelTemplate

open Xml Document Outcome XPath

/-! ## Loading beside a template -/

namespace Loaded

/-- Loading beside another template. -/
structure Beside (d : Document) (l l' : Loaded) : Prop where
  docs_pos : 0 < l.docs.size
  docs : l'.docs = l.docs.setIfInBounds templateKey d
  paths : l'.paths = l.paths

variable {fs : Files} {d : Document} {l l' : Loaded}

theorem Beside.add (h : Beside d l l') (x : Document) {paths paths' : List (PathKey × DocKey)}
    (hpaths : paths' = paths) :
    Beside d { docs := l.docs.push x, paths } { docs := l'.docs.push x, paths := paths' } where
  docs_pos := by simp
  docs := by
    rw [h.docs]
    refine Array.ext_getElem? fun k => ?_
    simp only [Array.getElem?_push, Array.getElem?_setIfInBounds, Array.size_setIfInBounds,
      Array.size_push, templateKey]
    have hpos := h.docs_pos
    by_cases hk : 0 = k
    · subst hk
      simp [hpos, Nat.ne_of_lt hpos]
    · simp [hk]
  paths := hpaths

theorem Beside.load (h : Beside d l l') (i : SourceInput) :
    Alike (fun r r' => r'.1 = r.1 ∧ Beside d r.2 r'.2) (l.load fs i) (l'.load fs i) := by
  have hsize : l'.docs.size = l.docs.size := by rw [h.docs, Array.size_setIfInBounds]
  cases i with
  | document x => exact .ok ⟨hsize, h.add x h.paths⟩
  | path p =>
    unfold Loaded.load
    simp only [h.paths]
    cases l.paths.lookup (PathKey.of p) with
    | some key => exact .ok ⟨rfl, h⟩
    | none =>
      refine (Related.refl (r := Eq) (fun _ => rfl) (Document.ofFile fs p)).bind ?_
      rintro x _ rfl
      exact .ok ⟨hsize, h.add x (by rw [show (l'.add x).1 = (l.add x).1 from hsize]; exact congrArg _ h.paths)⟩

theorem Beside.loadAll (h : Beside d l l') (inputs : List SourceInput) :
    Alike (fun r r' => r'.1 = r.1 ∧ Beside d r.2 r'.2) (l.loadAll fs inputs)
      (l'.loadAll fs inputs) := by
  induction inputs generalizing l l' with
  | nil => exact .ok ⟨rfl, h⟩
  | cons i inputs ih =>
    refine (h.load i).bind fun r r' hr => ?_
    obtain ⟨key, l₁⟩ := r
    obtain ⟨key', l₁'⟩ := r'
    obtain ⟨rfl, h₁⟩ := hr
    refine (ih h₁).bind fun r r' hr => ?_
    obtain ⟨keys, l₂⟩ := r
    obtain ⟨keys', l₂'⟩ := r'
    obtain ⟨rfl, h₂⟩ := hr
    exact .ok ⟨rfl, h₂⟩

theorem Beside.bindSpec {m : SourceMap} (h : Beside d l l') (spec : SourceSpec) :
    Alike (fun r r' => r'.1 = r.1 ∧ Beside d r.2 r'.2) (bindSpec fs (m, l) spec)
      (bindSpec fs (m, l') spec) := by
  refine (h.loadAll spec.inputs).bind fun r r' hr => ?_
  obtain ⟨keys, l₁⟩ := r
  obtain ⟨keys', l₁'⟩ := r'
  obtain ⟨rfl, h₁⟩ := hr
  refine (Related.refl (r := Eq) (fun _ => rfl) _).bind ?_
  rintro g _ rfl
  exact .ok ⟨rfl, h₁⟩

end Loaded

/-- The sources of a run do not depend on the template beside them. -/
theorem SourceMap.build_alike (fs : Files) (d d' : Document) (specs : List SourceSpec)
    (includeTemplate : Bool) :
    Alike (fun r r' => r'.1 = r.1 ∧ r'.2 = r.2.setIfInBounds templateKey d')
      (SourceMap.build fs d specs includeTemplate) (SourceMap.build fs d' specs includeTemplate) := by
  have hstart : Loaded.Beside d' { docs := #[d] } { docs := #[d'] } := ⟨by simp, rfl, rfl⟩
  have hload : Alike (fun r r' => r'.1 = r.1 ∧ Loaded.Beside d' r.2 r'.2)
      (specs.foldlM (Loaded.bindSpec fs) ([], { docs := #[d] }))
      (specs.foldlM (Loaded.bindSpec fs) ([], { docs := #[d'] })) := by
    refine Related.foldlM ⟨rfl, hstart⟩ fun spec _ r r' hr => ?_
    obtain ⟨m, l⟩ := r
    obtain ⟨m', l'⟩ := r'
    obtain ⟨rfl, h⟩ := hr
    exact h.bindSpec spec
  refine hload.bind fun r r' hr => ?_
  obtain ⟨m, l⟩ := r
  obtain ⟨m', l'⟩ := r'
  obtain ⟨rfl, h⟩ := hr
  cases includeTemplate with
  | false => exact .ok ⟨rfl, h.docs⟩
  | true =>
    cases htaken : (m'.group? templateMoniker).isSome with
    | true =>
      simp only [if_true, htaken]
      exact .error trivial
    | false =>
      simp only [if_true, htaken]
      exact .ok ⟨rfl, h.docs⟩

/-! ## Templates that do not read themselves -/

/-- An expression calls for the template. -/
def callsSelf (text : String) : Bool :=
  match Expr.parse text with
  | .ok e => decide ((directivePrefix, "self") ∈ e.called)
  | .error _ => false

/-- A directive reads the template, which may or may not be among the sources. -/
def Xml.Attribute.readsTemplate (includeTemplate : Bool) (a : Attribute) : Bool :=
  isDirectiveAttribute a &&
    match Directive.ofName? a.name.localName with
    | some .sources => includeTemplate && a.value == templateMoniker
    | some _ => callsSelf a.value
    | none => false

/-- Some directive in the document reads the template, if the functions are the
built-in ones. -/
def Xml.Document.readsTemplate (includeTemplate : Bool) (d : Document) : Bool :=
  d.elements.any fun e => e.attributes.any (·.readsTemplate includeTemplate)

theorem aloof_of_readsTemplate {env : Environment} (hregistry : env.registry = Builtins.registry)
    (hdistinct : env.sources.Distinct) {includeTemplate : Bool}
    (hapart : ∀ moniker g, env.sources.group? moniker = some g → templateKey ∈ g.members →
      includeTemplate = true ∧ moniker = templateMoniker) {e : Element}
    (h : e.attributes.any (·.readsTemplate includeTemplate) = false) : e.Aloof env := by
  intro a ha hdirective d hname
  have hreads : a.readsTemplate includeTemplate = false := by simpa using List.any_eq_false.1 h a ha
  rw [Attribute.readsTemplate, hdirective, hname, Bool.true_and] at hreads
  constructor
  · rintro hsources g hg
    have hsources : d = .sources := hsources
    subst hsources
    refine ⟨hdistinct _ _ hg, fun hmember => ?_⟩
    obtain ⟨hinclude, hmoniker⟩ := hapart _ _ hg hmember
    have hmoniker : a.value = templateMoniker := hmoniker
    simp [hinclude, hmoniker] at hreads
  · intro hne
    have hne : d ≠ .sources := hne
    refine readsNoTemplate_of_called hregistry fun e he hcalled => ?_
    have hcalls : callsSelf a.value = false := by
      cases d <;> first | exact hreads | exact absurd rfl hne
    have he : Expr.parse a.value = .ok e := he
    rw [callsSelf, he] at hcalls
    exact (of_decide_eq_false hcalls) hcalled

/-- Whether directives read the template does not depend on which template there
is. -/
theorem Xml.Element.Aloof.of_setTemplate {env : Environment} {d : Document} {e : Element}
    (h : e.Aloof (env.setTemplate d)) (hpos : 0 < env.docs.size) : e.Aloof env := by
  intro a ha hdirective directive hname
  obtain ⟨hsources, hevaluation⟩ := h a ha hdirective directive hname
  refine ⟨hsources, fun hne s n t hs hprimary => ?_⟩
  have hother : ∀ t, (env.setTemplate d).setTemplate t = env.setTemplate t := fun t => by
    simp only [Environment.setTemplate, Array.setIfInBounds_setIfInBounds]
  have hset := hevaluation hne s n t hs hprimary
  have hself := hevaluation hne s s.node env.template hs hprimary
  rw [hother] at hset
  rw [hother, Engine.setTemplate_template hpos] at hself
  exact hset.trans hself.symm

/-! ## The label -/

namespace TemplateInput

/-- The environment in which a template is walked first. -/
def environment (input : TemplateInput) (d : Document) (sources : SourceMap)
    (docs : Documents) : Environment where
  docs := docs
  sources := sources
  registry := input.registry
  context := input.context
  clock := input.clock
  templateNamespaces := expressionNamespaces d input.options.defaultPrefix
  defaultPrefix := input.options.defaultPrefix

/-- No directive of the template reads the template. -/
def Aloof (fs : Files) (input : TemplateInput) : Prop :=
  ∀ given d sources docs, input.template = some given → given.Gives fs d →
    SourceMap.build fs d input.sources input.options.includeTemplateSource = .ok (sources, docs) →
      ∀ e ∈ d.elements, e.Aloof (input.environment d sources docs)

/-- With the built-in functions only it can be seen from the directives that none
reads the template. -/
theorem aloof_of_builtins {fs : Files} {input : TemplateInput}
    (hregistry : input.registry = Builtins.registry)
    (hreads : ∀ given d, input.template = some given → given.Gives fs d →
      d.readsTemplate input.options.includeTemplateSource = false) : input.Aloof fs := by
  intro given d sources docs hgiven hgives hsources e he
  have hregistry : (input.environment d sources docs).registry = Builtins.registry := hregistry
  obtain ⟨keys, hassigns⟩ := SourceMap.assigns_of_build hsources
  refine aloof_of_readsTemplate hregistry (SourceMap.distinct_of_build hsources)
    hassigns.template ?_
  simpa using List.any_eq_false.1 (hreads given d hgiven hgives) e he

/-- The same input with another template. -/
def withTemplate (input : TemplateInput) (template : Option SourceInput) (keep : Bool) :
    TemplateInput :=
  { input with template, options := { input.options with keepTemplateComments := keep } }

end TemplateInput

/-- The prefixes for expressions are those that the root declares. -/
theorem expressionNamespaces_congr {d d' : Document} {t t' : Tree} (hd : d.WellFormed)
    (hd' : d'.WellFormed) (ht : Spells d [d.root] t.forest) (ht' : Spells d' [d'.root] t'.forest)
    (h : t'.element.namespaces = t.element.namespaces) (defaultPrefix : String) :
    expressionNamespaces d' defaultPrefix = expressionNamespaces d defaultPrefix := by
  have hscope {d : Document} {t : Tree} (hd : d.WellFormed)
      (ht : Spells d [d.root] t.forest) :
      d.namespacesInScope d.root = t.element.namespaces.foldl .bind .fixed := by
    have hchain : d.selfAndAncestors d.root = [d.root] := by
      unfold selfAndAncestors
      cases d.size with
      | zero => rfl
      | succ k => rw [chainUp, hd.root_parent]
    rw [namespacesInScope, hchain, List.reverse_singleton, List.foldl_cons, List.foldl_nil,
      ht.element?_eq]
  rw [expressionNamespaces, expressionNamespaces, hscope hd ht, hscope hd' ht', h]

theorem Xml.Forest.allKinds_of_elements {P : Element → Prop} {f : Forest}
    (h : ∀ e ∈ f.elements, P e) : f.AllKinds fun k => ∀ e, k.element? = some e → P e := by
  induction f with
  | nil => trivial
  | node kind line kids rest ihkids ihrest =>
    have hsub : ∀ e, kind.element? = some e ∨ e ∈ kids.elements ∨ e ∈ rest.elements → P e :=
      fun e he => h e (by
        cases kind with
        | element e' =>
          rw [NodeKind.element?, Option.some.injEq] at he
          simpa [Forest.elements, eq_comm] using he
        | comment text => simpa [Forest.elements, NodeKind.element?] using he)
    exact ⟨fun e he => hsub e (.inl he), ihkids fun e he => hsub e (.inr (.inl he)),
      ihrest fun e he => hsub e (.inr (.inr he))⟩

theorem Xml.Forest.aloof_of_elements {env : Environment} {f : Forest}
    (h : ∀ e ∈ f.elements, e.Aloof env) : f.Aloof env := allKinds_of_elements h

/-- Loading the template leaves it so, with or without its comments. -/
theorem TemplateInput.Aloof.loaded {fs : Files} {input : TemplateInput} (h : input.Aloof fs)
    {given : SourceInput} {d : Document} (hgiven : input.template = some given)
    (hgives : given.Gives fs d) (hwf : d.WellFormed) (keep : Bool) {sources : SourceMap}
    {docs : Documents} (hsources : SourceMap.build fs (if keep then d else d.stripComments)
      input.sources input.options.includeTemplateSource = .ok (sources, docs)) :
    ∀ e ∈ d.elements,
      e.Aloof (input.environment (if keep then d else d.stripComments) sources docs) := by
  intro e he
  cases keep with
  | true => exact h given d sources docs hgiven hgives hsources e he
  | false =>
    have hsame := SourceMap.build_alike fs d.stripComments d input.sources
      input.options.includeTemplateSource
    have hsources : SourceMap.build fs d.stripComments input.sources
      input.options.includeTemplateSource = .ok (sources, docs) := hsources
    rw [hsources] at hsame
    obtain ⟨⟨sources', docs'⟩, hsources', hkept, hreplaced⟩ := hsame.exists_right
    have hkept : sources' = sources := hkept
    have hreplaced : docs' = docs.setIfInBounds templateKey d := hreplaced
    subst hkept hreplaced
    have haloof := h given d _ _ hgiven hgives hsources' e he
    have hpos := docs_pos_of_build hsources
    obtain ⟨f, hf, -⟩ := hwf.exists_spells [d.root] fun n hn =>
      List.mem_singleton.1 hn ▸ hwf.root_lt_size
    obtain ⟨t, rfl⟩ := hf.exists_tree hwf.root_isElement
    have hprefixes := expressionNamespaces_congr (t := ⟨t.element, t.line, t.kids.withoutComments⟩)
      hwf.stripComments hwf (spells_stripComments hwf hf) hf rfl input.options.defaultPrefix
    refine Element.Aloof.of_setTemplate (d := d) ?_ hpos
    have henv : (input.environment d.stripComments sources' docs).setTemplate d =
        input.environment d sources' (docs.setIfInBounds templateKey d) := by
      unfold TemplateInput.environment
      simp only [hprefixes]
      rfl
    exact henv ▸ haloof

namespace Template

/-- The label has a given prolog, and a given forest without the declarations
that no name uses. -/
structure Labelled (prolog : List Misc) (f : Forest) (label : Document) : Prop where
  wellFormed : label.WellFormed
  prolog : label.prolog = prolog
  spells : Spells label [label.root] f.cleaned

variable {fs : Files} {input : TemplateInput} {d : Document} {sources : SourceMap}
  {docs : Documents} {env : Environment} {t : Tree}

/-- A walk that stops at an element which its source lacks ends in that error. -/
def SameLack (stop : TreeWalk.Stop) (err : Error) : Prop :=
  ∀ at_, stop = .missing at_ → err.Lacks at_

/-- The walk of a template makes the draft of its tree. -/
theorem walk_answered (hsources : SourceMap.build fs d input.sources
      input.options.includeTemplateSource = .ok (sources, docs))
    (hwf : d.WellFormed) (henv : input.environment d sources docs = env.setTemplate d)
    (hpos : 0 < env.docs.size) (ht : Spells d [d.root] t.forest) (haloof : t.forest.Aloof env)
    {fuel : Nat} (hfuel : Engine.depthBound d ≤ fuel + 1) :
    Related SameLack (fun δ (e : Engine) => e.RunsIn env ∧ e.template.prolog = d.prolog ∧
        Drafted env e.template [e.template.root] δ e.deferred)
      (DraftWalk.root env fuel t) (Engine.walk { env := input.environment d sources docs }) := by
  have hdocs := docs_pos_of_build hsources
  let e₀ : Engine := { env := input.environment d sources docs }
  have htemplate : e₀.template = d := template_of_build hsources
  have hrun : e₀.RunsIn env := ⟨hpos, by rw [htemplate]; exact henv, by rwa [htemplate]⟩
  have hfinal : ∀ (δ : Draft) (e : Engine), (e.RunsIn env ∧ Inside e₀.template e₀.template.root e.template ∧
      Drafted env e.template [e₀.template.root] δ e.deferred) → e.RunsIn env ∧
        e.template.prolog = d.prolog ∧ Drafted env e.template [e.template.root] δ e.deferred := by
    rintro δ e ⟨hrun', hinside, hdrafted⟩
    refine ⟨hrun', hinside.frame.prolog.trans (by rw [htemplate]), ?_⟩
    rwa [hinside.frame.root]
  obtain ⟨hwalk, hfuelled⟩ := Engine.process_eq_walk hdocs hrun.wellFormed
    (SourceMap.distinct_of_build hsources) (htemplate.symm ▸ hfuel)
  have hanswered := (DraftWalk.root_answered hrun (by rwa [htemplate]) haloof rfl fuel).mono hfinal
  rcases hanswered with hexhausted | halike
  · exact absurd hexhausted hfuelled
  · rw [hwalk] at halike
    change Related SameLack _ _ e₀.walk
    cases hresult : e₀.walk with
    | ok e =>
      rw [hresult] at halike
      obtain ⟨δ, hδ, h⟩ := Related.exists_left (b := e) halike
      rw [hδ]
      exact .ok h
    | error err =>
      rw [hresult] at halike
      generalize DraftWalk.root env fuel t = x at halike
      cases halike with
      | error htells =>
        refine .error fun at_ hat => ?_
        obtain ⟨_, ⟨⟩, hlacks⟩ := htells at_ hat
        exact hlacks

theorem mapDocument_self {t : Template} (h : 0 < t.environment.docs.size) :
    t.mapDocument (fun _ => t.document) = t := by
  obtain ⟨⟨⟨env, deferred⟩, snapshot⟩, options⟩ := t
  have hsame : env.setTemplate env.template = env := Engine.setTemplate_template h
  change Template.mk ⟨⟨env.setTemplate env.template, deferred⟩, snapshot⟩ options = _
  rw [hsame]

/-- The comparison of structures decides nothing about a template that was
built. -/
theorem finish_of_build {t : Template} (hbuild : build fs input = .ok t)
    (htemplate : ∀ d, input.template = some (.document d) → d.WellFormed) :
    t.exporter.finish = do
      let x ← t.exporter.resolveFills
      let x ← x.prune
      x.checkPopulation
      return x := by
  obtain ⟨hpos, -, -⟩ := walked_of_build hbuild htemplate
  obtain ⟨-, -, -, -, -, -, -, -, -, -, -, hsnapshot⟩ := build_eq_ok hbuild
  cases hskip : input.options.skipStructureCheck with
  | true =>
    rw [hskip, if_pos rfl] at hsnapshot
    exact Exporter.finish_of_unchecked hpos hsnapshot
  | false =>
    obtain ⟨hstep, hqueue⟩ := inStep_of_build hbuild hskip htemplate (SameOutline.refl t.document)
    rw [mapDocument_self hpos] at hstep hqueue
    exact hstep.finish hqueue

/-- A template is built when its tree is drafted. -/
theorem build_answered (hload : loadTemplate fs input = .ok d)
    (hsources : SourceMap.build fs d input.sources input.options.includeTemplateSource =
      .ok (sources, docs))
    (hwf : d.WellFormed) (henv : input.environment d sources docs = env.setTemplate d)
    (hpos : 0 < env.docs.size) (ht : Spells d [d.root] t.forest) (haloof : t.forest.Aloof env)
    {fuel : Nat} (hfuel : Engine.depthBound d ≤ fuel + 1) :
    Related SameLack (fun δ t => t.exporter.engine.RunsIn env ∧ t.document.prolog = d.prolog ∧
        Drafted env t.document [t.document.root] δ t.exporter.engine.deferred)
      (DraftWalk.root env fuel t) (build fs input) := by
  have hsame : build fs input = do
      let engine ← Engine.walk { env := input.environment d sources docs }
      let snapshot := if input.options.skipStructureCheck then none else some engine.template
      return { exporter := { engine, snapshot }, options := input.options } := by
    unfold build
    rw [hload]
    change (SourceMap.build fs d input.sources input.options.includeTemplateSource >>= _) = _
    rw [hsources]
    rfl
  rw [hsame, ← bind_pure (DraftWalk.root env fuel t)]
  exact (walk_answered hsources hwf henv hpos ht haloof hfuel).bind fun δ e h => .ok h

/-- A label, told by the tree of its template. -/
theorem label_answered (hload : loadTemplate fs input = .ok d)
    (hsources : SourceMap.build fs d input.sources input.options.includeTemplateSource =
      .ok (sources, docs))
    (htemplate : ∀ d, input.template = some (.document d) → d.WellFormed) (hwf : d.WellFormed)
    (henv : input.environment d sources docs = env.setTemplate d) (hpos : 0 < env.docs.size)
    (ht : Spells d [d.root] t.forest) (haloof : t.forest.Aloof env) {fuel : Nat}
    (hfuel : Engine.depthBound d ≤ fuel + 1) :
    Alike (Labelled d.prolog) (DraftWalk.root env fuel t >>= Draft.label)
      (build fs input >>= finalize) := by
  have hbuild := (build_answered hload hsources hwf henv hpos ht haloof hfuel).mono
    (p := fun _ _ => True) (fun _ _ _ => trivial) fun _ _ h => h
  refine hbuild.results.bind fun δ t' h => ?_
  obtain ⟨⟨hrun, hprolog, hdrafted⟩, -, hok⟩ := h
  obtain ⟨-, -, hwalked⟩ := walked_of_build hok htemplate
  have hsettles := Exporter.settles hrun hdrafted hwalked.outer_first
  rw [← finish_of_build hok htemplate] at hsettles
  unfold finalize
  rw [← bind_pure δ.label]
  refine hsettles.bind fun f x hx => .ok ?_
  obtain ⟨hwf', hprolog', hf⟩ := hx
  obtain ⟨hclean, hcleanProlog⟩ := cleanupNamespaces_keeps hwf'
  exact ⟨hclean, hcleanProlog.trans (hprolog'.trans hprolog), spells_cleanupNamespaces hwf' hf⟩

/-! ## Two templates -/

section Pair

variable {template : Option SourceInput} {keep : Bool} {d' : Document} {t' : Tree}
  {r : Forest → Forest → Prop}

theorem wellFormed_of_loadTemplate (hload : loadTemplate fs input = .ok d)
    (htemplate : ∀ d, input.template = some (.document d) → d.WellFormed) : d.WellFormed := by
  obtain ⟨given, d₀, hgiven, hgives, rfl⟩ := loadTemplate_eq_ok hload
  exact (wellFormed_of_gives (fun d hd => htemplate d (hd ▸ hgiven)) hgives).stripped _

theorem build_eq_error {err : Error} (hload : loadTemplate fs input = .ok d)
    (hsources : SourceMap.build fs d input.sources input.options.includeTemplateSource =
      .error err) : build fs input = .error err := by
  unfold build
  rw [hload]
  change (SourceMap.build fs d input.sources input.options.includeTemplateSource >>= _) = _
  rw [hsources]
  rfl

/-- A well-formed document has a tree. -/
theorem exists_spells_tree (hwf : d.WellFormed) : ∃ t : Tree, Spells d [d.root] t.forest := by
  obtain ⟨f, hf, -⟩ := hwf.exists_spells [d.root] fun n hn =>
    List.mem_singleton.1 hn ▸ hwf.root_lt_size
  obtain ⟨t, rfl⟩ := hf.exists_tree hwf.root_isElement
  exact ⟨t, hf⟩

/-- Templates with related drafts have related labels, unless the first one stops
at an element that its source lacks. -/
theorem labels_alike_or_lacks {Q : Location → Prop} (hload : loadTemplate fs input = .ok d)
    (hload' : loadTemplate fs (input.withTemplate template keep) = .ok d')
    (htemplate : ∀ d, input.template = some (.document d) → d.WellFormed)
    (htemplate' : ∀ d, template = some (.document d) → d.WellFormed)
    (ht : Spells d [d.root] t.forest) (ht' : Spells d' [d'.root] t'.forest)
    (hnamespaces : t'.element.namespaces = t.element.namespaces)
    (hdrafts : ∀ sources docs, SourceMap.build fs d input.sources
        input.options.includeTemplateSource = .ok (sources, docs) →
      t.forest.Aloof (input.environment d sources docs) ∧
        t'.forest.Aloof (input.environment d sources docs) ∧
        ∀ fuel, Alike r
            (DraftWalk.root (input.environment d sources docs) fuel t >>= Draft.label)
            (DraftWalk.root (input.environment d sources docs) fuel t' >>= Draft.label) ∨
          ∃ at_, Q at_ ∧
            DraftWalk.root (input.environment d sources docs) fuel t = .error (.missing at_)) :
    Alike (fun l l' => ∃ f f', r f f' ∧ Labelled d.prolog f l ∧ Labelled d'.prolog f' l')
        (build fs input >>= finalize)
        (build fs (input.withTemplate template keep) >>= finalize) ∨
      ∃ at_ err, Q at_ ∧ build fs input = .error err ∧ err.Lacks at_ := by
  have hwf := wellFormed_of_loadTemplate hload htemplate
  have hwf' := wellFormed_of_loadTemplate hload' htemplate'
  have hsame := SourceMap.build_alike fs d d' input.sources input.options.includeTemplateSource
  cases hsources : SourceMap.build fs d input.sources input.options.includeTemplateSource with
  | error err =>
    rw [hsources] at hsame
    cases hsources' : SourceMap.build fs d' input.sources input.options.includeTemplateSource with
    | ok p =>
      rw [hsources'] at hsame
      cases hsame
    | error err' =>
      rw [build_eq_error hload hsources, build_eq_error hload' hsources']
      exact .inl (.error trivial)
  | ok p =>
    obtain ⟨sources, docs⟩ := p
    rw [hsources] at hsame
    obtain ⟨⟨sources', docs'⟩, hsources', hkept, hreplaced⟩ := hsame.exists_right
    have hkept : sources' = sources := hkept
    have hreplaced : docs' = docs.setIfInBounds templateKey d' := hreplaced
    subst hkept hreplaced
    obtain ⟨haloof, haloof', hdrafts'⟩ := hdrafts _ docs hsources
    have hpos := docs_pos_of_build hsources
    let env := input.environment d sources' docs
    have henv : env = env.setTemplate d := by
      have htop : env.template = d := template_of_build hsources
      rw [← htop]
      exact (Engine.setTemplate_template hpos).symm
    have henv' : (input.withTemplate template keep).environment d' sources'
        (docs.setIfInBounds templateKey d') = env.setTemplate d' := by
      have hprefixes := expressionNamespaces_congr hwf hwf' ht ht' hnamespaces
        input.options.defaultPrefix
      unfold TemplateInput.environment
      simp only [TemplateInput.withTemplate, hprefixes]
      rfl
    let fuel := max (Engine.depthBound d) (Engine.depthBound d')
    have hfuel : Engine.depthBound d ≤ fuel + 1 := Nat.le_succ_of_le (Nat.le_max_left _ _)
    have hfuel' : Engine.depthBound d' ≤ fuel + 1 := Nat.le_succ_of_le (Nat.le_max_right _ _)
    rcases hdrafts' fuel with halike | ⟨at_, hat, hmissing⟩
    · have hlabel := label_answered hload hsources htemplate hwf henv hpos ht haloof hfuel
      have hlabel' := label_answered hload' hsources' htemplate' hwf' henv' hpos ht' haloof' hfuel'
      have hfirst : Alike (fun l f' => ∃ f, r f f' ∧ Labelled d.prolog f l)
          (build fs input >>= finalize) (DraftWalk.root env fuel t' >>= Draft.label) :=
        hlabel.symm.trans halike fun l f f' hl hf => ⟨f, hf, hl⟩
      refine .inl (hfirst.trans hlabel' fun l f' l' h hl' => ?_)
      obtain ⟨f, hf, hl⟩ := h
      exact ⟨f, f', hf, hl, hl'⟩
    · have hbuild := build_answered hload hsources hwf henv hpos ht haloof hfuel
      rw [hmissing] at hbuild
      generalize build fs input = y at hbuild ⊢
      cases hbuild with
      | error hlacks => exact .inr ⟨at_, _, hat, rfl, hlacks at_ rfl⟩

/-- Templates with related drafts have related labels. -/
theorem labels_alike (hload : loadTemplate fs input = .ok d)
    (hload' : loadTemplate fs (input.withTemplate template keep) = .ok d')
    (htemplate : ∀ d, input.template = some (.document d) → d.WellFormed)
    (htemplate' : ∀ d, template = some (.document d) → d.WellFormed)
    (ht : Spells d [d.root] t.forest) (ht' : Spells d' [d'.root] t'.forest)
    (hnamespaces : t'.element.namespaces = t.element.namespaces)
    (hdrafts : ∀ sources docs, SourceMap.build fs d input.sources
        input.options.includeTemplateSource = .ok (sources, docs) →
      t.forest.Aloof (input.environment d sources docs) ∧
        t'.forest.Aloof (input.environment d sources docs) ∧
        ∀ fuel, Alike r
          (DraftWalk.root (input.environment d sources docs) fuel t >>= Draft.label)
          (DraftWalk.root (input.environment d sources docs) fuel t' >>= Draft.label)) :
    Alike (fun l l' => ∃ f f', r f f' ∧ Labelled d.prolog f l ∧ Labelled d'.prolog f' l')
      (build fs input >>= finalize)
      (build fs (input.withTemplate template keep) >>= finalize) := by
  have hlabels := labels_alike_or_lacks (Q := fun _ => False) hload hload' htemplate htemplate' ht
    ht' hnamespaces fun sources docs hsources => by
      obtain ⟨haloof, haloof', halike⟩ := hdrafts sources docs hsources
      exact ⟨haloof, haloof', fun fuel => .inl (halike fuel)⟩
  exact hlabels.resolve_right fun ⟨_, _, hnone, _⟩ => hnone

end Pair

end Template

end LabelTemplate
