import LabelTemplate.Proofs.Reading.Run
import LabelTemplate.Proofs.Walk.Invariant
import LabelTemplate.Proofs.Walk.Loading
import LabelTemplate.Template.Build

/-!
# What a build gives

A build walks a template document with its sources beside it.
`build_eq_ok` takes a successful build apart into what was loaded and the
walk; `sound_of_build` is the invariant of the walk at its end, for documents
that have it before.
-/

namespace LabelTemplate

open Xml Document

/-! ## Loading -/

namespace Loaded

/-- The template comes first, and every document is the template or one of
the inputs `ok`. -/
def Holds (fs : Files) (template : Document) (ok : SourceInput → Prop) (l : Loaded) : Prop :=
  l.docs[0]? = some template ∧ ∀ d ∈ l.docs, d = template ∨ ∃ i, ok i ∧ i.Gives fs d

variable {fs : Files} {template : Document} {ok : SourceInput → Prop} {l l' : Loaded}

theorem Holds.add (h : l.Holds fs template ok) {i : SourceInput} {d : Document} (hi : ok i)
    (hd : i.Gives fs d) (paths : List (PathKey × XPath.DocKey)) :
    Holds fs template ok { docs := l.docs.push d, paths } := by
  refine ⟨?_, fun d' hd' => ?_⟩
  · obtain ⟨hlt, -⟩ := Array.getElem?_eq_some_iff.1 h.1
    rw [Array.getElem?_push_lt hlt, ← Array.getElem?_eq_getElem hlt]
    exact h.1
  · rcases Array.mem_push.1 hd' with hd' | rfl
    · exact h.2 d' hd'
    · exact .inr ⟨i, hi, hd⟩

theorem Holds.load (h : l.Holds fs template ok) {i : SourceInput} (hi : ok i)
    {key : XPath.DocKey} (hok : l.load fs i = .ok (key, l')) : l'.Holds fs template ok := by
  obtain ⟨d, rfl, -, rfl⟩ | ⟨p, rfl, -, rfl⟩ | ⟨p, d, rfl, -, hd, -, rfl⟩ := load_eq_ok hok
  · exact h.add hi rfl _
  · exact h
  · exact h.add hi hd _

theorem Holds.loadAll {inputs : List SourceInput} (hinputs : ∀ i ∈ inputs, ok i)
    (h : l.Holds fs template ok) {keys : List XPath.DocKey}
    (hok : l.loadAll fs inputs = .ok (keys, l')) : l'.Holds fs template ok := by
  induction inputs generalizing l keys with
  | nil =>
    cases hok
    exact h
  | cons i inputs ih =>
    obtain ⟨key, l₁, keys', h₁, h₂, -⟩ := loadAll_cons_eq_ok.1 hok
    exact ih (fun j hj => hinputs j (List.mem_cons_of_mem _ hj))
      (h.load (hinputs i List.mem_cons_self) h₁) h₂

end Loaded

/-- The documents of a run are its template, under key 0, and its sources. -/
theorem docs_of_build {fs : Files} {template : Document} {specs : List SourceSpec}
    {includeTemplate : Bool} {sources : SourceMap} {docs : XPath.Documents}
    (h : SourceMap.build fs template specs includeTemplate = .ok (sources, docs)) :
    docs[0]? = some template ∧ ∀ d ∈ docs, d = template ∨
      ∃ i, (∃ spec ∈ specs, i ∈ spec.inputs) ∧ i.Gives fs d := by
  obtain ⟨m, l, hrun, rfl, -⟩ := SourceMap.build_eq_ok_iff.1 h
  refine Outcome.foldlM_keeps (P := fun state : SourceMap × Loaded =>
    state.2.Holds fs template fun i => ∃ spec ∈ specs, i ∈ spec.inputs) ?_ ?_ hrun
  · rintro spec hspec ⟨m, l⟩ ⟨m', l'⟩ hholds hstep
    obtain ⟨keys, hload, -⟩ := Loaded.bindSpec_eq_ok.1 hstep
    exact hholds.loadAll (fun i hi => ⟨spec, hspec, hi⟩) hload
  · exact ⟨rfl, fun d hd => .inl (by simpa using hd)⟩

section Loading

variable {fs : Files} {template : Document} {specs : List SourceSpec} {includeTemplate : Bool}
  {sources : SourceMap} {docs : XPath.Documents}
  (h : SourceMap.build fs template specs includeTemplate = .ok (sources, docs))

include h

theorem docs_pos_of_build : 0 < docs.size := by
  obtain ⟨hfirst, -⟩ := docs_of_build h
  obtain ⟨hpos, -⟩ := Array.getElem?_eq_some_iff.1 hfirst
  exact hpos

/-- What a run takes for its template is the one that was loaded. -/
theorem template_of_build : docs.getD templateKey (.ofRoot (.plain "")) = template := by
  obtain ⟨hfirst, -⟩ := docs_of_build h
  rw [Array.getD_eq_getD_getElem?, templateKey, hfirst, Option.getD_some]

end Loading

/-! ## Groups -/

/-- Every group is one of distinct documents. -/
def SourceMap.Distinct (m : SourceMap) : Prop :=
  ∀ moniker g, m.group? moniker = some g → g.members.Nodup

namespace SourceMap

theorem distinct_nil : SourceMap.Distinct [] := by
  intro moniker g hg
  cases hg

theorem Distinct.bind {m : SourceMap} (h : m.Distinct) {g : SourceGroup} (hg : g.members.Nodup)
    (bound : String) : (m.bind bound g).Distinct := by
  intro moniker g' hg'
  rw [group?_bind] at hg'
  split at hg'
  · cases hg'
    exact hg
  · exact h moniker g' hg'

/-- What holds of every group that is made holds of the groups of a run. -/
theorem groups_of_build {P : SourceGroup → Prop}
    (hmade : ∀ keys : List XPath.DocKey, keys ≠ [] → keys.Nodup → P (.ofKeys keys))
    (hself : P (.single templateKey))
    {fs : Files} {template : Document} {specs : List SourceSpec} {includeTemplate : Bool}
    {sources : SourceMap} {docs : XPath.Documents}
    (h : SourceMap.build fs template specs includeTemplate = .ok (sources, docs)) :
    ∀ moniker g, sources.group? moniker = some g → P g := by
  have hbind : ∀ {m : SourceMap}, (∀ moniker g, m.group? moniker = some g → P g) →
      ∀ {g : SourceGroup}, P g → ∀ bound moniker g', (m.bind bound g).group? moniker = some g' →
        P g' := by
    intro m hm g hg bound moniker g' hg'
    rw [group?_bind] at hg'
    split at hg'
    · cases hg'
      exact hg
    · exact hm moniker g' hg'
  obtain ⟨m, l, hrun, -, hsources⟩ := build_eq_ok_iff.1 h
  have hmap : ∀ moniker g, m.group? moniker = some g → P g := by
    refine Outcome.foldlM_keeps (P := fun state : SourceMap × Loaded =>
      ∀ moniker g, state.1.group? moniker = some g → P g) ?_ (fun _ _ hg => by cases hg) hrun
    rintro spec _ ⟨m, l⟩ ⟨m', l'⟩ hm hstep
    obtain ⟨keys, -, ⟨hne, hnodup⟩, rfl⟩ := Loaded.bindSpec_eq_ok.1 hstep
    exact hbind hm (hmade keys hne hnodup) _
  by_cases hinclude : includeTemplate = true
  · rw [if_pos hinclude] at hsources
    obtain ⟨-, rfl⟩ := hsources
    exact hbind hmap hself _
  · rw [if_neg hinclude] at hsources
    exact hsources ▸ hmap

/-- Loading gives no group with one document twice. -/
theorem distinct_of_build {fs : Files} {template : Document} {specs : List SourceSpec}
    {includeTemplate : Bool} {sources : SourceMap} {docs : XPath.Documents}
    (h : SourceMap.build fs template specs includeTemplate = .ok (sources, docs)) :
    sources.Distinct :=
  groups_of_build (fun keys _ hnodup => (SourceGroup.members_ofKeys keys).symm ▸ hnodup)
    (List.nodup_singleton templateKey) h

/-- Every group that is loaded has a primary document. -/
theorem primary_of_build {fs : Files} {template : Document} {specs : List SourceSpec}
    {includeTemplate : Bool} {sources : SourceMap} {docs : XPath.Documents}
    (h : SourceMap.build fs template specs includeTemplate = .ok (sources, docs)) :
    ∀ moniker g, sources.group? moniker = some g → g.primary.isSome = true := by
  refine groups_of_build (P := (·.primary.isSome = true)) (fun keys hne _ => ?_) rfl h
  exact List.isSome_head?.2 hne

end SourceMap

/-! ## Building -/

/-- With or without its comments a document is well formed. -/
theorem Xml.Document.WellFormed.stripped {d : Document} (hd : d.WellFormed) (keep : Bool) :
    (if keep then d else d.stripComments).WellFormed := by
  split
  · exact hd
  · exact hd.stripComments

/-- A document that is read is well formed, one that is given if it was before. -/
theorem wellFormed_of_gives {fs : Files} {given : SourceInput} {d : Document}
    (hgiven : ∀ d, given = .document d → d.WellFormed) (h : given.Gives fs d) : d.WellFormed := by
  cases given with
  | document d' =>
    cases h
    exact hgiven d rfl
  | path p =>
    obtain ⟨text, -, h⟩ := Outcome.bind_eq_ok.1 h
    obtain ⟨d', hd', h⟩ := Outcome.bind_eq_ok.1 h
    cases h
    have hwf := wellFormed_of_parse (Outcome.mapError_eq_ok.1 hd')
    exact hwf.congr rfl (fun _ => rfl) (fun _ => rfl) fun _ hm => hm

namespace Template

theorem loadTemplate_of_gives {fs : Files} {input : TemplateInput} {given : SourceInput}
    {d : Document} (hgiven : input.template = some given) (hgives : given.Gives fs d) :
    loadTemplate fs input =
      .ok (if input.options.keepTemplateComments then d else d.stripComments) := by
  unfold loadTemplate
  rw [hgiven]
  cases given with
  | document d₀ =>
    cases hgives
    rfl
  | path p =>
    have hfile : Document.ofFile fs p = .ok d := hgives
    dsimp only
    rw [hfile]
    rfl

theorem loadTemplate_eq_ok {fs : Files} {input : TemplateInput} {d : Document}
    (h : loadTemplate fs input = .ok d) :
    ∃ given d₀, input.template = some given ∧ given.Gives fs d₀ ∧
      d = if input.options.keepTemplateComments then d₀ else d₀.stripComments := by
  unfold loadTemplate at h
  cases hinput : input.template with
  | none =>
    rw [hinput] at h
    cases h
  | some given =>
    rw [hinput] at h
    cases given with
    | path p =>
      obtain ⟨d₀, hd₀, h⟩ := Outcome.bind_eq_ok.1 h
      cases h
      exact ⟨_, d₀, rfl, hd₀, rfl⟩
    | document d₀ =>
      cases h
      exact ⟨_, d₀, rfl, rfl, rfl⟩

/-- The parts of a build that succeeded. -/
theorem build_eq_ok {fs : Files} {input : TemplateInput} {t : Template}
    (h : Template.build fs input = .ok t) :
    ∃ (given : SourceInput) (d₀ : Document) (e₀ : Engine),
      input.template = some given ∧ given.Gives fs d₀ ∧
      e₀.template = (if input.options.keepTemplateComments then d₀ else d₀.stripComments) ∧
      0 < e₀.env.docs.size ∧ e₀.env.sources.Distinct ∧ e₀.deferred = {} ∧
      (∀ d ∈ e₀.env.docs, d = e₀.template ∨
        ∃ i, (∃ spec ∈ input.sources, i ∈ spec.inputs) ∧ i.Gives fs d) ∧
      e₀.walk = .ok t.exporter.engine ∧
      t.exporter.snapshot =
        if input.options.skipStructureCheck then none else some t.exporter.engine.template := by
  obtain ⟨d, hd, h⟩ := Outcome.bind_eq_ok.1 h
  obtain ⟨⟨sources, docs⟩, hdocs, h⟩ := Outcome.bind_eq_ok.1 h
  obtain ⟨engine, hwalk, h⟩ := Outcome.bind_eq_ok.1 h
  cases h
  obtain ⟨-, hmem⟩ := docs_of_build hdocs
  obtain ⟨given, d₀, hgiven, hgives, rfl⟩ := loadTemplate_eq_ok hd
  refine ⟨given, d₀, _, hgiven, hgives, ?_, ?_, ?_, ?_, ?_, hwalk, rfl⟩
  · exact template_of_build hdocs
  · exact docs_pos_of_build hdocs
  · exact SourceMap.distinct_of_build hdocs
  · rfl
  · intro d hd
    rcases hmem d hd with rfl | h
    · exact .inl (template_of_build hdocs).symm
    · exact .inr h

/-- The walk of a build ends in a sound engine, if it starts from documents
that are. -/
theorem sound_of_build {P : NodeKind → Prop} (hP : EditStable P) {fs : Files}
    {input : TemplateInput} {t : Template} (h : Template.build fs input = .ok t)
    (htemplate : ∀ given d, input.template = some given → given.Gives fs d →
      d.WellFormed ∧ d.AllKinds P)
    (hsources : ∀ spec ∈ input.sources, ∀ i ∈ spec.inputs, ∀ d, i.Gives fs d → d.AllKinds P) :
    t.exporter.engine.Sound P ∧
      ∃ given d, input.template = some given ∧ given.Gives fs d ∧ t.document.prolog = d.prolog := by
  obtain ⟨given, d₀, e₀, hgiven, hgives, he₀, hpos, -, hdeferred, hdocs, hwalk, -⟩ := build_eq_ok h
  obtain ⟨hwf, hkinds⟩ := htemplate given d₀ hgiven hgives
  have hwf₀ : e₀.template.WellFormed := he₀ ▸ hwf.stripped _
  have hkinds₀ : e₀.template.AllKinds P := by
    rw [he₀]
    split
    · exact hkinds
    · exact hkinds.stripComments
  have hsound : e₀.Sound P := by
    refine ⟨hpos, hwf₀, fun d hd => ?_, by simp [hdeferred]⟩
    rcases hdocs d hd with rfl | ⟨i, ⟨spec, hspec, hi⟩, hgives⟩
    · exact hkinds₀
    · exact hsources spec hspec i hi d hgives
  obtain ⟨hsound', hprolog⟩ := Engine.Sound.walk hP hsound hwalk
  refine ⟨hsound', given, d₀, hgiven, hgives, hprolog.trans ?_⟩
  rw [he₀]
  split
  · rfl
  · exact prolog_stripComments d₀

/-- A template that is read is well-formed, so only one that is handed over has to be. -/
theorem sound_of_build_wellFormed {fs : Files} {input : TemplateInput} {t : Template}
    (h : Template.build fs input = .ok t)
    (htemplate : ∀ d, input.template = some (.document d) → d.WellFormed) :
    t.exporter.engine.Sound fun _ => True := by
  have hstable : EditStable fun _ => True :=
    ⟨fun _ _ h => h, fun _ _ _ h => h, fun _ _ _ _ _ h => h⟩
  refine (sound_of_build hstable h (fun given d hgiven hgives => ⟨?_, fun _ _ _ => trivial⟩)
    fun _ _ _ _ _ _ _ _ _ => trivial).1
  exact wellFormed_of_gives (fun d' hd' => htemplate d' (hd' ▸ hgiven)) hgives

end Template

end LabelTemplate
