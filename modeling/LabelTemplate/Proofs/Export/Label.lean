import LabelTemplate.Proofs.Arena.Path
import LabelTemplate.Proofs.Walk.Build
import LabelTemplate.Proofs.Writing.Meaning

/-!
# What a label says when it is read

A label is made of a template and of what is fetched from sources, which come
with the prefixes of their own documents.  The names in it are as well
resolved as in the documents (`NodeKind.Sayable` is kept by the walk and by
the export), so `parse_toXml_means` applies: the written label says what the
label says exactly if no element wants or declares a prefix for two
namespaces (`label_means`).

Fetching does not make sure of that.  `clashing` is a template and a source
whose attribute takes away the namespace of the element it is fetched for.
-/

namespace LabelTemplate

open Xml Document

/-! ## Documents that were read -/

namespace Xml

namespace Document

/-- The document was read from a text, and its names are names in XML. -/
structure IsRead (d : Document) : Prop where
  source : ∃ text d₀ url, parse text = .ok d₀ ∧ d = { d₀ with url }
  names : ∀ n e, d.element? n = some e → e.XmlNames

theorem IsRead.spec {d : Document} (h : d.IsRead) :
    d.WellFormed ∧ d.AllKinds NodeKind.Sayable ∧ ∀ m ∈ d.prolog, m.Legible := by
  obtain ⟨⟨text, d₀, url, hparse, rfl⟩, hnames⟩ := h
  have hwf := wellFormed_of_parse hparse
  obtain ⟨prolog, e, line, kids, hprolog, htree, rfl⟩ := legible_of_parse hparse
  refine ⟨hwf.congr rfl (fun _ => rfl) (fun _ => rfl) fun _ hn => hn, ?_, hprolog⟩
  have hspells : Spells (ofTree prolog e line kids) [0] (.node (.element e) line kids .nil) :=
    spells_ofForest (.element e) line kids prolog
  have hkinds : (ofTree prolog e line kids).AllKinds fun k =>
      ∀ e, k.element? = some e → e.XmlNames := allKinds_iff.2 hnames
  exact allKinds_ofForest (htree.sayable (hspells.allKinds hkinds)) prolog

end Document

/-! ## Names in the walk -/

/-- Setting an attribute keeps the names there are, and adds its own only if no
other has the same expanded name. -/
theorem Element.attributes_setAttribute (e : Element) (name : QName) (value : String) :
    ((e.setAttribute name value).attributes.map (·.name) = e.attributes.map (·.name)) ∨
      (name ∉ e.attributes.map (·.name) ∧
        (e.setAttribute name value).attributes.map (·.name) = e.attributes.map (·.name) ++ [name]) := by
  have hgo : ∀ as : List Attribute,
      (setAttribute.go name value as).map (·.name) = as.map (·.name) ∨
        (name ∉ as.map (·.name) ∧
          (setAttribute.go name value as).map (·.name) = as.map (·.name) ++ [name]) := by
    intro as
    induction as with
    | nil => exact .inr ⟨by simp, rfl⟩
    | cons a as ih =>
      rw [setAttribute.go]
      by_cases hsame : a.name.sameExpanded name = true
      · rw [if_pos hsame]
        exact .inl rfl
      · rw [if_neg hsame]
        have hne : name ≠ a.name := by
          rintro rfl
          exact hsame (QName.hasName_self _)
        rcases ih with ih | ⟨hnew, ih⟩
        · exact .inl (by rw [List.map_cons, ih, List.map_cons])
        · refine .inr ⟨?_, by rw [List.map_cons, ih, List.map_cons, List.cons_append]⟩
          rw [List.map_cons, List.mem_cons, not_or]
          exact ⟨hne, hnew⟩
  exact hgo e.attributes

/-- An attribute of one element can be set on another. -/
theorem Element.Sayable.setAttribute {e source : Element} {a : Attribute}
    (ha : a ∈ source.attributes) (hsource : (NodeKind.element source).Sayable)
    (he : (NodeKind.element e).Sayable) :
    (NodeKind.element (e.setAttribute a.name a.value)).Sayable := by
  obtain ⟨hresolved, hname, hattributes, hprefixes⟩ := he
  have hnew : ∀ b ∈ (e.setAttribute a.name a.value).attributes, ∃ x : Element,
      (NodeKind.element x).Sayable ∧ ∃ c ∈ x.attributes, b.name = c.name := by
    intro b hb
    have hmem : b.name ∈ (e.setAttribute a.name a.value).attributes.map (·.name) :=
      List.mem_map_of_mem hb
    have hold : b.name ∈ e.attributes.map (·.name) ∨ b.name = a.name := by
      rcases e.attributes_setAttribute a.name a.value with hsame | ⟨-, hmore⟩
      · exact .inl (hsame ▸ hmem)
      · rw [hmore, List.mem_append, List.mem_singleton] at hmem
        exact hmem
    rcases hold with hold | hold
    · obtain ⟨c, hc, hcb⟩ := List.mem_map.1 hold
      exact ⟨e, ⟨hresolved, hname, hattributes, hprefixes⟩, c, hc, hcb.symm⟩
    · exact ⟨source, hsource, a, ha, hold⟩
  refine ⟨⟨fun q hq => ?_, fun b hb hpfx => ?_, fun b hb value => ?_, ?_, hresolved.prefixes⟩, hname,
    fun b hb => ?_, hprefixes⟩
  · rcases List.mem_cons.1 hq with rfl | hq
    · exact hresolved.names _ List.mem_cons_self
    · obtain ⟨b, hb, rfl⟩ := List.mem_map.1 hq
      obtain ⟨x, hx, c, hc, hbc⟩ := hnew b hb
      rw [hbc]
      exact hx.1.names _ (List.mem_cons_of_mem _ (List.mem_map_of_mem hc))
  · obtain ⟨x, hx, c, hc, hbc⟩ := hnew b hb
    rw [hbc] at hpfx ⊢
    exact hx.1.plain c hc hpfx
  · obtain ⟨x, hx, c, hc, hbc⟩ := hnew b hb
    rw [hbc]
    exact hx.1.undeclared c hc value
  · rcases e.attributes_setAttribute a.name a.value with hsame | ⟨hfresh, hmore⟩
    · rw [hsame]
      exact hresolved.distinct
    · rw [hmore, List.nodup_append]
      refine ⟨hresolved.distinct, by simp, fun q hq q' hq' hqq => hfresh ?_⟩
      rw [← List.mem_singleton.1 hq', ← hqq]
      exact hq
  · obtain ⟨x, hx, c, hc, hbc⟩ := hnew b hb
    rw [hbc]
    exact hx.2.2.1 c hc

theorem editStable_sayable : EditStable NodeKind.Sayable where
  setText _ text h := Element.Sayable.fewer h (List.Sublist.refl _) (List.Sublist.refl _) text
  fewerAttributes e _ hkept h := Element.Sayable.fewer h hkept (List.Sublist.refl _) e.text
  setAttribute _ _ _ ha hsource he := Element.Sayable.setAttribute ha hsource he

/-- Dropping unused declarations leaves everything else. -/
theorem cleanupNamespaces_spec {d : Document} (hd : d.WellFormed)
    (hkinds : d.AllKinds NodeKind.Sayable) :
    d.cleanupNamespaces.WellFormed ∧ d.cleanupNamespaces.AllKinds NodeKind.Sayable ∧
      d.cleanupNamespaces.prolog = d.prolog := by
  unfold cleanupNamespaces
  generalize d.usedNamespaces = used
  generalize d.descendantElements d.root = ns
  induction ns generalizing d with
  | nil => exact ⟨hd, hkinds, rfl⟩
  | cons n ns ih =>
    obtain ⟨hwf, hkinds', hprolog⟩ := ih (hd.updateElement n _)
      (hkinds.updateElement n fun e he =>
        Element.Sayable.fewer he (List.Sublist.refl _) List.filter_sublist e.text)
    exact ⟨hwf, hkinds', hprolog⟩

end Xml

/-! ## The export -/

namespace Exporter

variable {P : NodeKind → Prop} {x x' : Exporter}

/-- Fills keep the invariant of the walk. -/
theorem sound_of_resolveFills (hP : EditStable P) (h : x.engine.Sound P)
    (hok : x.resolveFills = .ok x') :
    x'.engine.Sound P ∧ x'.document.prolog = x.document.prolog := by
  obtain ⟨e, he, hok⟩ := Outcome.bind_eq_ok.1 hok
  cases hok
  have hstart : Engine.Sound P { x.engine with deferred := x.engine.deferred.takeFills.2 } :=
    ⟨h.docs_pos, h.wellFormed, h.kinds, fun item hitem =>
      h.queued item (List.mem_append_right _ hitem)⟩
  refine Outcome.foldlM_keeps
    (P := fun e : Engine => e.Sound P ∧ e.template.prolog = x.document.prolog)
    (fun item _ e₁ e₂ ⟨h₁, hprolog⟩ hstep => ?_) ⟨hstart, rfl⟩ he
  obtain ⟨v, -, hstep⟩ := Outcome.bind_eq_ok.1 hstep
  split at hstep
  · cases hstep
    exact ⟨h₁, hprolog⟩
  · obtain ⟨d, hd, hstep⟩ := Outcome.bind_eq_ok.1 hstep
    cases hstep
    obtain ⟨text, rfl⟩ := Engine.applyFill_spec hd
    refine ⟨h₁.setTemplate (h₁.wellFormed.updateElement item.node _)
      (hP.allKinds_setText h₁.template_kinds item.node _)
      (keeps_updateElement (fun _ => True) _ item.node _), ?_⟩
    rw [Engine.template_setTemplate h₁.docs_pos]
    exact hprolog

/-- So does pruning. -/
theorem sound_of_prune (h : x.engine.Sound P) (hok : x.prune = .ok x') :
    x'.engine.Sound P ∧ x'.document.prolog = x.document.prolog := by
  let start : Exporter :=
    { x with engine := { x.engine with deferred := x.engine.deferred.takeRequireds.2 } }
  have hfold : x.engine.deferred.takeRequireds.1.foldlM pruneItem start = .ok x' := hok
  have hstart : start.engine.Sound P :=
    ⟨h.docs_pos, h.wellFormed, h.kinds, fun item hitem =>
      h.queued item (List.mem_append_left _ (by
        simpa [start, Deferred.takeRequireds] using hitem))⟩
  refine Outcome.foldlM_keeps
    (P := fun y : Exporter => y.engine.Sound P ∧ y.document.prolog = x.document.prolog)
    (fun item _ y₁ y₂ ⟨h₁, hprolog⟩ hstep => ?_) ⟨hstart, rfl⟩ hfold
  obtain ⟨⟨required, state⟩, -, hstep⟩ := Outcome.bind_eq_ok.1 hstep
  simp only at hstep
  split at hstep
  · cases hstep
    refine ⟨h₁.setTemplate (h₁.wellFormed.detach item.node)
      (h₁.template_kinds.congr fun m => by simp) (keeps_detach _ item.node), ?_⟩
    have hdocument : (y₁.drop item.node).document = y₁.document.detach item.node :=
      Engine.template_setTemplate h₁.docs_pos _
    rw [hdocument, prolog_detach]
    exact hprolog
  · cases hstep
    exact ⟨h₁, hprolog⟩

/-- The steps of the export keep the invariant of the walk. -/
theorem sound_of_finish (hP : EditStable P) (h : x.engine.Sound P) (hok : x.finish = .ok x') :
    x'.engine.Sound P ∧ x'.document.prolog = x.document.prolog := by
  obtain ⟨x₁, hfills, hok⟩ := Outcome.bind_eq_ok.1 hok
  obtain ⟨x₂, hprune, hok⟩ := Outcome.bind_eq_ok.1 hok
  obtain ⟨_, -, hok⟩ := Outcome.bind_eq_ok.1 hok
  obtain ⟨_, -, hok⟩ := Outcome.bind_eq_ok.1 hok
  cases hok
  obtain ⟨h₁, hprolog₁⟩ := sound_of_resolveFills hP h hfills
  obtain ⟨h₂, hprolog₂⟩ := sound_of_prune h₁ hprune
  exact ⟨h₂, hprolog₂.trans hprolog₁⟩

end Exporter

namespace Template

/-- A written label says what the label says exactly if none of its elements
wants or declares a prefix for two namespaces. -/
theorem label_means {fs : Files} {input : TemplateInput} {t : Template} {label : Document}
    (hbuild : Template.build fs input = .ok t) (hfinalize : t.finalize = .ok label)
    (htemplate : ∀ given d, input.template = some given → given.Gives fs d → d.IsRead)
    (hsources : ∀ spec ∈ input.sources, ∀ i ∈ spec.inputs, ∀ d, i.Gives fs d → d.IsRead) :
    (∃ d, parse label.toXml = .ok d ∧ d.meanings = label.meanings) ↔
      ∀ e ∈ label.elements, e.Unambiguous := by
  obtain ⟨hsound, given, d₀, hgiven, hgives, hprolog⟩ := sound_of_build editStable_sayable hbuild
    (fun given d hgiven hgives =>
      ⟨(htemplate given d hgiven hgives).spec.1, (htemplate given d hgiven hgives).spec.2.1⟩)
    fun spec hspec i hi d hgives => (hsources spec hspec i hi d hgives).spec.2.1
  obtain ⟨x, hx, hfinalize⟩ := Outcome.bind_eq_ok.1 hfinalize
  cases hfinalize
  obtain ⟨hsound', hprolog'⟩ := Exporter.sound_of_finish editStable_sayable hsound hx
  obtain ⟨hwf, hkinds, hprolog''⟩ :=
    cleanupNamespaces_spec hsound'.wellFormed hsound'.template_kinds
  refine parse_toXml_means hwf hkinds fun m hm => (htemplate given d₀ hgiven hgives).spec.2.2 m ?_
  rw [← hprolog]
  exact (hprolog''.trans hprolog') ▸ hm

/-- A template whose element is in the namespace `u` of its own prefix `p`. -/
def clashingTemplate : Document :=
  .ofTree [] { name := .plain "a", namespaces := [⟨some "p", "u"⟩] } (some 1)
    (.node (.element
      { name := ⟨some "p", some "u", "b"⟩
        attributes := [⟨⟨some directivePrefix, some directiveNamespace, "sources"⟩, "s"⟩,
          ⟨⟨some directivePrefix, some directiveNamespace, "fetch"⟩, "true()"⟩]
        namespaces := [⟨some directivePrefix, directiveNamespace⟩] }) (some 1) .nil .nil)

/-- A source where `p` is another namespace, which an attribute is in. -/
def clashingSource : Document :=
  .ofTree [] { name := .plain "a", namespaces := [⟨some "q", "u"⟩, ⟨some "p", "v"⟩] } (some 1)
    (.node (.element
      { name := ⟨some "q", some "u", "b"⟩
        attributes := [⟨⟨some "p", some "v", "k"⟩, "1"⟩]
        text := some "t" }) (some 1) .nil .nil)

def clashing : TemplateInput :=
  { template := some (.document clashingTemplate)
    sources := [⟨"s", [.document clashingSource]⟩] }

theorem isRead_clashing : clashingTemplate.IsRead ∧ clashingSource.IsRead := by
  have htemplate : parse ("<a xmlns:p='u'>" ++
      "<p:b xmlns:pt='urn:passthrough' pt:sources='s' pt:fetch='true()'/></a>") =
      .ok clashingTemplate := by decide +kernel
  have hsource : parse "<a xmlns:q='u' xmlns:p='v'><q:b p:k='1'>t</q:b></a>" =
      .ok clashingSource := by decide +kernel
  exact ⟨⟨⟨_, _, none, htemplate, rfl⟩, forall_element?_of_nodes (by decide)⟩,
    ⟨⟨_, _, none, hsource, rfl⟩, forall_element?_of_nodes (by decide)⟩⟩

/-- The label of the clashing template does not say what it says when it is
written and read. -/
theorem label_means_clashing :
    ∃ t label, Template.build {} clashing = .ok t ∧ t.finalize = .ok label ∧
      ¬ ∃ d, parse label.toXml = .ok d ∧ d.meanings = label.meanings := by
  have hrun : ((Template.build {} clashing).toOption.bind (·.finalize.toOption)).all
      (fun label => decide (∀ e ∈ label.elements, e.Unambiguous)) = false := by decide +kernel
  cases hlabel : (Template.build {} clashing).toOption.bind (·.finalize.toOption) with
  | none =>
    rw [hlabel] at hrun
    cases hrun
  | some label =>
    rw [hlabel] at hrun
    obtain ⟨t, ht, hfinalize⟩ := Option.bind_eq_some_iff.1 hlabel
    have hbuild := Outcome.toOption_eq_some.1 ht
    have hlabel' := Outcome.toOption_eq_some.1 hfinalize
    refine ⟨t, label, hbuild, hlabel', fun hmeans => of_decide_eq_false hrun ?_⟩
    refine (label_means hbuild hlabel' (fun given d hgiven hgives => ?_)
      fun spec hspec i hi d hgives => ?_).1 hmeans
    · cases hgiven
      cases hgives
      exact isRead_clashing.1
    · rw [List.mem_singleton.1 hspec] at hi
      rw [List.mem_singleton.1 hi] at hgives
      cases hgives
      exact isRead_clashing.2

end Template

end LabelTemplate
