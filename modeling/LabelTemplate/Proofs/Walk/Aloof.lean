import LabelTemplate.Proofs.Walk.Declared
import LabelTemplate.Template.Walk

/-!
# Expressions that do not read the template

An expression sees the template through its documents, through the element
whose directive it belongs to and through extension functions.
`ReadsNoTemplate` is about none of these ways in particular: it says that the
value an expression comes to is the same for every template and every element
of it.  `Declared.Aloof` adds that a directive does not bind the template as a
source.

Where the directives of an element are aloof its state is the same up to the
element in every template in which the element declares the same
(`resolve_twin`).
-/

namespace LabelTemplate

open Xml Outcome

/-! ## Aloof directives -/

/-- The value of a directive is the same whatever the template is and wherever
in it the element stands, as long as the element is bound to a source. -/
def ReadsNoTemplate (env : Environment) (x : Declared) : Prop :=
  ∀ (s : ElementState) (n : Option NodeId) (t : Document), s.declaration x.directive = x →
    s.sources.primary ≠ some templateKey →
      ({ s with node := n }.evaluateExpression (env.setTemplate t) x.directive).toOption =
        (s.evaluateExpression env x.directive).toOption

/-- A group of distinct documents without the template. -/
structure SourceGroup.Outside (g : SourceGroup) : Prop where
  nodup : g.members.Nodup
  no_template : templateKey ∉ g.members

theorem SourceGroup.Outside.primary_ne {g : SourceGroup} (h : g.Outside) :
    g.primary ≠ some templateKey := by
  intro hp
  refine h.no_template ?_
  simp [members, hp]

/-- The primary document comes first and nowhere else. -/
theorem SourceGroup.primary_last {g : SourceGroup} (hnodup : g.members.Nodup) :
    ∀ key ∈ g.members.reverse.dropLast, some key ≠ g.primary := by
  intro key hkey
  rw [List.dropLast_reverse, List.mem_reverse] at hkey
  cases hp : g.primary with
  | none => simp
  | some k =>
    simp only [members, hp, Option.toList_some, List.singleton_append, List.tail_cons,
      List.nodup_cons] at hkey hnodup
    rintro ⟨⟩
    exact hnodup.1 hkey

structure Declared.Aloof (env : Environment) (x : Declared) : Prop where
  sources : x.directive = .sources →
    ∀ g, env.sources.group? x.expression = some g → g.Outside
  evaluation : x.directive ≠ .sources → ReadsNoTemplate env x

/-- Every directive that the element declares is aloof. -/
def Xml.Element.Aloof (env : Environment) (e : Element) : Prop :=
  ∀ a ∈ e.attributes, isDirectiveAttribute a = true →
    ∀ d, Directive.ofName? a.name.localName = some d → Declared.Aloof env ⟨d, a.value⟩

theorem Xml.Element.Aloof.sublist {env : Environment} {e : Element} (h : e.Aloof env)
    {kept : List Attribute} (hkept : kept.Sublist e.attributes) :
    Element.Aloof env { e with attributes := kept } :=
  fun a ha => h a (hkept.mem ha)

/-- What an element declares is aloof when its attributes are. -/
theorem Declarations.aloof_of_foldlM {env : Environment} {as : List Attribute} {ds : Declarations}
    (has : ∀ a ∈ as, isDirectiveAttribute a = true →
      ∀ d, Directive.ofName? a.name.localName = some d → Declared.Aloof env ⟨d, a.value⟩)
    (h : as.foldlM addDeclaration [] = .ok ds) : ∀ x ∈ ds, Declared.Aloof env x := by
  refine keeps_of_insert (P := fun ds => ∀ x ∈ ds, Declared.Aloof env x)
    (fun a ha hdirective d hd ds hds x hx => ?_) (by simp) h
  rcases mem_insert hx with rfl | hx
  · exact has a ha hdirective d hd
  · exact hds x hx

/-! ## Twin states -/

namespace ElementState

/-- The same state for another element. -/
def Twin (s s' : ElementState) : Prop := ∃ n, s = { s' with node := n }

theorem Twin.refl (s : ElementState) : s.Twin s := ⟨s.node, rfl⟩

variable {env : Environment} {t t' : Document}

theorem getElem?_docs_setTemplate {key : XPath.DocKey} (hkey : key ≠ templateKey) :
    (env.setTemplate t).docs[key]? = env.docs[key]? :=
  Array.getElem?_setIfInBounds_ne (Ne.symm hkey)

theorem evaluateExpression_related (t t' : Document) {s s' : ElementState} (h : s.Twin s') {d : Directive}
    (hd : ReadsNoTemplate env (s'.declaration d)) (hs : s'.sources.primary ≠ some templateKey) :
    Alike Eq (s.evaluateExpression (env.setTemplate t) d)
      (s'.evaluateExpression (env.setTemplate t') d) := by
  obtain ⟨n, rfl⟩ := h
  exact .of_toOption_eq ((hd s' n t rfl hs).trans (hd s' s'.node t' rfl hs).symm)

theorem bindNamespaces_twin (env : Environment) (t t' : Document) {s s' : ElementState} (h : s.Twin s')
    {key : Option XPath.DocKey} (hkey : key ≠ some templateKey) :
    (s.bindNamespaces (env.setTemplate t) key).Twin
      (s'.bindNamespaces (env.setTemplate t') key) := by
  obtain ⟨n, rfl⟩ := h
  unfold bindNamespaces
  cases key with
  | none => exact ⟨n, rfl⟩
  | some key =>
    have hne : key ≠ templateKey := fun h => hkey (congrArg some h)
    simp only [Option.bind_some, getElem?_docs_setTemplate hne]
    cases env.docs[key]? with
    | none => exact ⟨n, rfl⟩
    | some d => exact ⟨n, rfl⟩

theorem rebindSource_twin (env : Environment) (t t' : Document) {s s' : ElementState}
    (h : s.Twin s') {key : XPath.DocKey} (hkey : key ≠ templateKey) :
    (s.rebindSource key (env.setTemplate t)).Twin (s'.rebindSource key (env.setTemplate t')) := by
  obtain ⟨n, rfl⟩ := h
  have h : Twin { s' with sources := .single key, node := n }
    { s' with sources := .single key } := ⟨n, rfl⟩
  exact bindNamespaces_twin env t t' h fun h => hkey (Option.some.inj h)

end ElementState

end LabelTemplate
