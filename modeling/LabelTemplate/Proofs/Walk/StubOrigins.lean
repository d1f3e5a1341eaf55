import LabelTemplate.Proofs.Walk.Rebound
import LabelTemplate.Proofs.Walk.Stubs
import LabelTemplate.Proofs.Writing.Trimming

/-!
# What stubs were in the template

The walk takes the directive that asks for copies from an element before it walks the
copies, so a state is not resolved from the directives that the template was given
with.  Every element that it comes to is one of the template, or a copy of one, without
some attributes for sources and repetitions (`Tree.CopyIn`), which is passed on from
turn to turn.  A stub that a build fails with was therefore given with no other
directives than these two (`Template.stub_of_build`); it may have been given with them.
-/

namespace LabelTemplate

open Xml XPath Document Outcome

/-! ## Where elements come from -/

namespace Xml

/-- The second element is the first one without some of the directives that ask for
copies. -/
structure Element.Sheds (e e' : Element) : Prop where
  plain : e'.stripDirectives = e.stripDirectives
  shed : ∀ a ∈ e.attributes, a ∉ e'.attributes →
    Directive.sources.names a = true ∨ Directive.multi.names a = true

namespace Element.Sheds

variable {e e' : Element}

theorem refl (e : Element) : e.Sheds e := ⟨rfl, fun _ ha hnot => absurd ha hnot⟩

theorem removeDirective (h : e.Sheds e') {d : Directive} (hd : d = .sources ∨ d = .multi) :
    e.Sheds (e'.removeDirective d) where
  plain := (stripDirectives_removeDirective e' d).trans h.plain
  shed a ha hnot := by
    by_cases hkept : a ∈ e'.attributes
    · have hname : d.names a = true := by
        by_contra hname
        exact hnot ((List.mem_eraseP_of_neg hname).2 hkept)
      rcases hd with rfl | rfl
      · exact .inl hname
      · exact .inr hname
    · exact h.shed a ha hkept

theorem name_eq (h : e.Sheds e') : e'.name = e.name := by
  have hname := congrArg Element.name h.plain
  exact hname

end Element.Sheds

/-- The tree is that of an element of a document or of a copy of one: it may lack
directives that ask for copies, and comments. -/
def Tree.CopyIn (d : Document) (u : Tree) : Prop :=
  ∃ n w, Within d d.root n ∧ Spells d [n] (Tree.forest w) ∧ w.element.Sheds u.element ∧
    u.line = w.line ∧ u.kids.hasElement = w.kids.hasElement

namespace Tree.CopyIn

variable {d : Document} {u : Tree}

theorem removeDirective (h : u.CopyIn d) {x : Directive} (hx : x = .sources ∨ x = .multi) :
    (u.mapElement (·.removeDirective x)).CopyIn d := by
  obtain ⟨n, w, hn, hw, hsheds, hrest⟩ := h
  exact ⟨n, w, hn, hw, hsheds.removeDirective hx, hrest⟩

theorem withoutComments (h : u.CopyIn d) : CopyIn d { u with kids := u.kids.withoutComments } := by
  obtain ⟨n, w, hn, hw, hsheds, hline, hkids⟩ := h
  exact ⟨n, w, hn, hw, hsheds, hline, (Forest.hasElement_withoutComments _).trans hkids⟩

end Tree.CopyIn

theorem Forest.Every.withoutComments {P : Tree → Prop}
    (hP : ∀ u, P u → P { u with kids := u.kids.withoutComments }) {f : Forest} (h : f.Every P) :
    f.withoutComments.Every P := by
  induction f with
  | nil => trivial
  | node kind line kids rest ihkids ihrest =>
    cases kind with
    | comment text => exact ihrest h
    | element e => exact ⟨hP _ h.1, ihkids h.2.1, ihrest h.2.2⟩

/-- The trees below attached nodes are those of elements of the document. -/
theorem Document.Spells.every_copyIn {d : Document} (hd : d.Linked) {ns : List NodeId}
    {f : Forest} (hf : Spells d ns f) (hns : ∀ n ∈ ns, Within d d.root n) :
    f.Every (Tree.CopyIn d) := by
  induction hf with
  | nil => trivial
  | @node n ns x kids rest hx hkids _ ihkids ihrest =>
    have hn := hns n List.mem_cons_self
    have hinner := ihkids fun c hc => within_of_parent?
      ((hd.parent_iff_child n c).2 (children_of_node? hx ▸ hc)) hn
    have hbeside := ihrest fun m hm => hns m (List.mem_cons_of_mem _ hm)
    obtain ⟨kind, parent, children, line⟩ := x
    cases kind with
    | comment text => exact hbeside
    | element e =>
      have hspells : Spells d [n] (Tree.forest ⟨e, line, kids⟩) := .node hx hkids .nil
      exact ⟨⟨n, ⟨e, line, kids⟩, hn, hspells, .refl e, rfl, rfl⟩, hinner, hbeside⟩

/-- So are they after the comments were stripped. -/
theorem Document.WellFormed.exists_every_copyIn {d : Document} (hd : d.WellFormed) (keep : Bool) :
    ∃ u : Tree, Spells (if keep then d else d.stripComments)
      [(if keep then d else d.stripComments).root] u.forest ∧ u.forest.Every (Tree.CopyIn d) := by
  obtain ⟨f, hf, -⟩ := hd.exists_spells [d.root] (by simpa using hd.root_lt_size)
  have hall := hf.every_copyIn hd.linked fun n hn => List.mem_singleton.1 hn ▸ within_self _ _
  cases keep with
  | true =>
    obtain ⟨u, rfl⟩ := hf.exists_tree hd.root_isElement
    exact ⟨u, hf, hall⟩
  | false =>
    have hstripped := spells_stripComments hd hf
    obtain ⟨u, hu⟩ := hstripped.exists_tree hd.stripComments.root_isElement
    exact ⟨u, hu ▸ hstripped, hu ▸ hall.withoutComments fun _ => Tree.CopyIn.withoutComments⟩

end Xml

namespace Engine

variable {env : Environment} {e : Engine} {t : Turn} {d : Document}

theorem keptByCopies_copyIn (d : Document) : KeptByCopies (Tree.CopyIn d) := fun _ hu =>
  ⟨hu.removeDirective (.inl rfl), hu.removeDirective (.inr rfl)⟩

/-- A stub that the walk comes to is an element of the template, or a copy of one, that
declares nothing there but sources and repetitions. -/
theorem exists_hollow (hrun : e.RunsIn env) (hdistinct : env.sources.Distinct) {u₀ : Tree}
    (hu₀ : Spells e.template [e.template.root] u₀.forest)
    (hall : u₀.forest.Every (Tree.CopyIn d)) (hreach : (Turn.first e).Reaches t)
    (hstub : t.engine.template.IsStub t.node) :
    ∃ n, Within d d.root n ∧ d.location n = t.location ∧ d.IsHollow n ∧
      ∀ a ∈ d.attributes n, isDirectiveAttribute a = true →
        Directive.sources.names a = true ∨ Directive.multi.names a = true := by
  have hsound := hreach.sound hdistinct (keptByCopies_copyIn d)
    (Turn.sound_first hrun hu₀ hall)
  obtain ⟨u, hu, -, hcopy⟩ := hsound.exists_tree hstub.hollow.isComment_eq
  obtain ⟨n, w, hn, hw, hsheds, hline, hkids⟩ := hcopy.top
  obtain ⟨⟨hclass, hleaf⟩, hbare⟩ := hstub
  have hname : d.name? n = t.engine.template.name? t.node := by
    rw [Document.name?, Document.name?, hw.element?_eq, hu.element?_eq, Option.map_some,
      Option.map_some, hsheds.name_eq]
  refine ⟨n, hn, ?_, ⟨hname ▸ hclass, ?_⟩, fun a ha hdirective => ?_⟩
  · rw [Turn.location, hw.location_eq, hu.location_eq, Tree.location, Tree.location, hline,
      hsheds.name_eq]
  · rw [hw.hasElementChildren_eq, ← hkids, ← hu.hasElementChildren_eq]
    exact hleaf
  · rw [hw.attributes_eq] at ha
    refine hsheds.shed a ha fun hkept => ?_
    rw [hbare a (hu.attributes_eq ▸ hkept)] at hdirective
    cases hdirective

end Engine

/-! ## Builds -/

theorem ofFile_noStub (fs : Files) (path : String) :
    FailsWith Error.NoStub (Document.ofFile fs path) :=
  (FailsWith.mapError_of_forall (p := Error.NoStub) _ fun _ => rfl).bind fun _ =>
    (FailsWith.mapError_of_forall (p := Error.NoStub) _ fun _ => rfl).bind fun _ => .ok _

theorem loadTemplate_noStub (fs : Files) (input : TemplateInput) :
    FailsWith Error.NoStub (Template.loadTemplate fs input) := by
  unfold Template.loadTemplate
  cases input.template with
  | none => exact .error rfl
  | some given =>
    cases given with
    | path p => exact (ofFile_noStub fs p).bind fun _ => .ok _
    | document d => exact .ok _

theorem buildSources_noStub (fs : Files) (template : Document) (specs : List SourceSpec)
    (includeTemplate : Bool) :
    FailsWith Error.NoStub (SourceMap.build fs template specs includeTemplate) := by
  have hload : ∀ (l : Loaded) (i : SourceInput), FailsWith Error.NoStub (l.load fs i) := by
    intro l i
    unfold Loaded.load
    split
    · exact .ok _
    · split
      · exact .ok _
      · exact (ofFile_noStub fs _).bind fun _ => .ok _
  have hloadAll : ∀ (inputs : List SourceInput) (l : Loaded),
      FailsWith Error.NoStub (l.loadAll fs inputs) := by
    intro inputs
    induction inputs with
    | nil => exact fun _ => .ok _
    | cons i inputs ih =>
      exact fun l => (hload l i).bind fun loaded => (ih loaded.2).bind fun _ => .ok _
  have hspecs : ∀ start, FailsWith Error.NoStub (specs.foldlM (Loaded.bindSpec fs) start) :=
    fun start => FailsWith.foldlM fun spec _ state => (hloadAll _ _).bind fun _ =>
      (FailsWith.mapError_of_forall (p := Error.NoStub) _ fun _ => rfl).bind fun _ => .ok _
  refine (hspecs _).bind fun loaded => ?_
  dsimp only
  split
  · split
    · exact .error rfl
    · exact .ok _
  · exact .ok _

namespace Template

/-- A build that fails with a stub has loaded everything, and its walk fails so. -/
theorem exists_of_build_eq_stub {fs : Files} {input : TemplateInput} {l : Location}
    (h : Template.build fs input = .error (.node .stub l)) :
    ∃ (given : SourceInput) (d : Document) (e : Engine), input.template = some given ∧
      given.Gives fs d ∧
      e.template = (if input.options.keepTemplateComments then d else d.stripComments) ∧
      0 < e.env.docs.size ∧ e.env.sources.Distinct ∧ e.env.registry = input.registry ∧
      e.walk = .error (.node .stub l) := by
  obtain h | ⟨d₀, hd₀, h⟩ := bind_eq_error.1 h
  · cases (loadTemplate_noStub fs input).of_eq_error h
  obtain h | ⟨⟨sources, docs⟩, hdocs, h⟩ := bind_eq_error.1 h
  · cases (buildSources_noStub fs d₀ _ _).of_eq_error h
  obtain h | ⟨engine, -, h⟩ := bind_eq_error.1 h
  · obtain ⟨given, d, hgiven, hgives, rfl⟩ := loadTemplate_eq_ok hd₀
    exact ⟨given, d, _, hgiven, hgives, template_of_build hdocs, docs_pos_of_build hdocs,
      SourceMap.distinct_of_build hdocs, rfl, h⟩
  · cases h

/-- Where a build fails because a class is a stub, an element of the template as it was
given is a class with no element in it that declares nothing but sources and how often
it is repeated: these two directives are gone from a copy before its state is
resolved, and do not keep it from being taken for a stub. -/
theorem stub_of_build {fs : Files} {input : TemplateInput} {l : Location}
    (hregistry : input.registry.FailsWith Error.NoStub)
    (hgiven : ∀ d, input.template = some (.document d) → d.WellFormed)
    (h : Template.build fs input = .error (.node .stub l)) :
    ∃ given d n, input.template = some given ∧ SourceInput.Gives fs given d ∧
      Within d d.root n ∧ d.location n = l ∧ d.IsHollow n ∧
      ∀ a ∈ d.attributes n, isDirectiveAttribute a = true →
        Directive.sources.names a = true ∨ Directive.multi.names a = true := by
  obtain ⟨given, d, e, htemplate, hgives, he, hdocs, hdistinct, hsame, hwalk⟩ :=
    exists_of_build_eq_stub h
  have hd : d.WellFormed := wellFormed_of_gives (fun d' hd' => hgiven d' (hd' ▸ htemplate)) hgives
  have hrun : e.RunsIn e.env :=
    ⟨hdocs, (Engine.setTemplate_template hdocs).symm, he ▸ hd.stripped _⟩
  obtain ⟨t, hreach, hstub, rfl⟩ :=
    (Engine.walk_eq_stub_iff hrun hdistinct (hsame ▸ hregistry)).1 hwalk
  obtain ⟨u, hu, hall⟩ := hd.exists_every_copyIn input.options.keepTemplateComments
  obtain ⟨n, hn⟩ := Engine.exists_hollow hrun hdistinct (by rwa [he]) hall hreach hstub
  exact ⟨given, d, n, htemplate, hgives, hn⟩

/-- A template with a class that is fetched from every document of a group. -/
def boundClass : Document :=
  .ofTree []
    { name := .plain "a", attributes := [directive "sources" "p", directive "fetch" "true()"] } none
    (.node (.element { name := .plain "Foo", attributes := [directive "sources" "s"] }) none
      .nil .nil)
where
  directive (name value : String) : Attribute :=
    ⟨⟨some directivePrefix, some directiveNamespace, name⟩, value⟩

/-- A document with that class. -/
def withClass (text : String) : Document :=
  .ofTree [] { name := .plain "a" } none
    (.node (.element { name := .plain "Foo", text := some text }) none .nil .nil)

/-- The class is bound to two documents that have it. -/
def boundClassInput : TemplateInput where
  template := some (.document boundClass)
  sources :=
    [⟨"p", [.document (.ofRoot (.plain "a"))]⟩,
      ⟨"s", [.document (withClass "1"), .document (withClass "2")]⟩]

/-- The class is refused as a stub, though it declares something. -/
theorem stub_of_build_boundClass :
    Template.build {} boundClassInput = .error (.node .stub ⟨some "Foo", none⟩) ∧
      ∃ n, boundClass.location n = ⟨some "Foo", none⟩ ∧ boundClass.IsHollow n ∧
        ∃ a ∈ boundClass.attributes n, Directive.sources.names a = true := by
  have hplace : (failure? (Template.build {} boundClassInput)).bind Error.stub? =
      some ⟨some "Foo", none⟩ := by
    decide +kernel
  obtain ⟨err, herr, hstub⟩ := Option.bind_eq_some_iff.1 hplace
  obtain rfl := Error.stub?_eq_some.1 hstub
  have hbuild := failure?_eq_some.1 herr
  have hwf : boundClass.WellFormed :=
    wellFormed_ofTree (by simp [Forest.Proper, NodeKind.isElement, NodeKind.element?]) _
  obtain ⟨given, d, n, hgiven, hgives, hn, hl, hhollow, -⟩ := stub_of_build
    Builtins.registry_noStub (fun d hd => by cases hd; exact hwf) hbuild
  cases hgiven
  cases hgives
  have hlt : n < 2 := hwf.lt_size_of_within_root hn
  obtain rfl | rfl := Nat.le_one_iff_eq_zero_or_eq_one.1 (Nat.le_of_lt_succ hlt)
  · exact absurd hl (by decide +kernel)
  · exact ⟨hbuild, 1, hl, hhollow, boundClass.directive "sources" "s", by decide +kernel,
      by decide +kernel⟩

end Template

end LabelTemplate
