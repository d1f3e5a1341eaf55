import LabelTemplate.Proofs.Walk.Telling

/-!
# Telling a fill to wait

An element with a fill is given one more directive, `defer`, which is true.  Its
state is then the old one but for that (`ElementState.Defers`): the directive takes
its place among the others in the order of resolution, it can be evaluated
because a source is bound by then, and nothing that is resolved after it looks at
it (`resolveAll_insert_defer`).  What elements below inherit, the value of the fill
and whether the element is required stay the same (`Defers.heritage_eq`,
`Defers.quiet_evalFill_eq`, `Defers.required_eq`).
-/

namespace LabelTemplate

open Xml Outcome
open TreeWalk (quiet)

namespace ElementState

/-- The state with other declarations, told whether to defer. -/
def deferring (ds : Declarations) (b : Bool) (s : ElementState) : ElementState :=
  { s with declared := ds, defer := b }

section Deferring

variable {env : Environment} {s s' : ElementState} {d : Directive} {ds : Declarations} {b : Bool}

theorem deferring_eq (ds : Declarations) (b : Bool) (s : ElementState) :
    s.deferring ds b = s.retold ds (some b) none := rfl

/-- With `defer` declared as well an element comes to the same state, but for
that. -/
theorem resolveAll_insert_defer (env : Environment) {parent : ElementState} (hfill : ds.declares .fill = true)
    (hdefer : ds.declares .defer = false) (hsorted : ds.Sorted) (hbound : ¬ Unbound parent ds)
    (hgroups : ∀ m g, env.sources.group? m = some g → g.primary.isSome = true) :
    resolveAll env (parent.inherit 0 (ds.insert ⟨.defer, "true()"⟩))
        (ds.insert ⟨.defer, "true()"⟩) =
      (resolveAll env (parent.inherit 0 ds) ds).map
        (deferring (ds.insert ⟨.defer, "true()"⟩) true) := by
  have hvalue : (ds.insert ⟨.defer, "true()"⟩).expression? .defer = some "true()" := by
    rw [Declarations.expression?_insert, if_pos rfl]
  have hother : ∀ {b} (s : ElementState) (d : Directive), s.declared = ds → d ≠ .defer →
      (s.deferring (ds.insert ⟨.defer, "true()"⟩) b).resolveDirective env d =
        (s.resolveDirective env d).map (deferring (ds.insert ⟨.defer, "true()"⟩) b) := by
    intro b s d hs hd
    rw [deferring_eq]
    refine resolveDirective_retold (fun h => absurd h hd) (fun _ => rfl) ?_
    rw [hs, Declarations.expression?_told hd]
  refine resolveAll_insert env (parent.inherit 0 ds)
    (deferring (ds.insert ⟨.defer, "true()"⟩) false) _ hdefer (by decide) hsorted rfl hgroups
    (fun hnone => ?_) (fun s d hs hd => hother s d hs hd) (fun s key _ hkey => ?_)
    (fun s d hs hd => hother s d hs ?_)
  · refine Bool.eq_false_iff.2 fun hempty => hbound ⟨?_, hnone, hempty⟩
    rintro rfl
    cases hfill
  · have hdeclaration : ((s.deferring (ds.insert ⟨.defer, "true()"⟩) false).declaration
        .defer).expression = "true()" := by
      rw [declaration, deferring, hvalue, Option.getD_some]
    change (s.deferring (ds.insert ⟨.defer, "true()"⟩) false).store env .defer = _
    rw [store, evaluateExpression_true rfl hdeclaration hkey]
    rfl
  · rintro rfl
    exact absurd hd (by decide)

/-- The second state is the first one of an element that is told to defer its
fill. -/
structure Defers (s s' : ElementState) : Prop where
  fill : s.declares .fill = true
  defer : s.defer = false
  eq : ∃ ds : Declarations, s' = s.deferring ds true ∧
    ∀ d, d ≠ .defer → ds.expression? d = s.declared.expression? d

namespace Defers

variable (h : s.Defers s')

include h

theorem heritage_eq : s'.heritage = s.heritage := by
  obtain ⟨ds, rfl, -⟩ := h.eq
  rfl

theorem declares_eq (hd : d ≠ .defer) : s'.declares d = s.declares d := by
  obtain ⟨ds, rfl, hsame⟩ := h.eq
  rw [declares, declares, Declarations.declares, Declarations.declares, deferring, hsame d hd]

theorem evaluateExpression_eq (hd : d ≠ .defer) :
    s'.evaluateExpression env d = s.evaluateExpression env d := by
  obtain ⟨ds, rfl, hsame⟩ := h.eq
  rw [deferring_eq, evaluateExpression_retold (hsame d hd)]

theorem quiet_evalFill_eq : quiet (s'.evalFill env) = quiet (s.evalFill env) := by
  rw [evalFill, evalFill, h.declares_eq (by decide), h.evaluateExpression_eq (by decide)]
  refine TreeWalk.quiet_congr ?_
  rw [h.fill]
  refine (Related.refl (r := Eq) (fun _ => rfl) (s.evaluateExpression env .fill)).bind ?_
  rintro v _ rfl
  cases v with
  | text t => exact .ok rfl
  | texts values => exact .ok rfl
  | boolean b => exact .error trivial
  | integer n => exact .error trivial

theorem required_eq : DraftWalk.required env s' = DraftWalk.required env s := by
  rw [DraftWalk.required, DraftWalk.required, h.declares_eq (by decide)]
  split
  · rename_i hrequired
    obtain ⟨ds, rfl, hsame⟩ := h.eq
    have hdeclares : (s.deferring ds true).declares .required = true := by
      rw [h.declares_eq (by decide), hrequired]
    rw [evalRequired, evalRequired, if_pos hdeclares, if_pos hrequired, deferring_eq,
      store_retold (fun h => by cases h) (fun _ => rfl) (hsame .required (by decide))]
    cases s.store env .required <;> rfl
  · rfl

theorem rebindSource_heritage_eq (key : XPath.DocKey) :
    (s'.rebindSource key env).heritage = (s.rebindSource key env).heritage := by
  obtain ⟨ds, rfl, -⟩ := h.eq
  unfold rebindSource bindNamespaces
  cases (some key).bind (env.docs[·]?) <;> rfl

end Defers

end Deferring

end ElementState

namespace Xml

/-- The attribute that defers a fill. -/
def deferAttribute (pfx : Option String) : Attribute :=
  ⟨⟨pfx, some directiveNamespace, Directive.defer.name⟩, "true()"⟩

/-- The element with its fill deferred. -/
def Element.deferred (pfx : Option String) (e : Element) : Element :=
  { e with attributes := e.attributes ++ [deferAttribute pfx] }

/-- The element has a fill, and nothing about when it is written. -/
structure Element.Deferrable (e : Element) : Prop where
  fill : e.declares .fill = true
  defer : e.declares .defer = false

namespace Element

variable {pfx : Option String} {e : Element}

theorem stripDirectives_deferred (pfx : Option String) (e : Element) :
    (e.deferred pfx).stripDirectives = e.stripDirectives := stripDirectives_told pfx .defer e

theorem Deferrable.removeDirective (h : e.Deferrable) {d : Directive} (hd : d ≠ .fill) :
    (e.removeDirective d).Deferrable where
  fill := by rw [declares_removeDirective (Ne.symm hd), h.fill]
  defer := by
    refine Bool.eq_false_iff.2 fun hdeclares => ?_
    obtain ⟨a, ha, hname⟩ := List.any_eq_true.1 hdeclares
    have hdeclares : e.declares .defer = true :=
      List.any_eq_true.2 ⟨a, List.eraseP_sublist.mem ha, hname⟩
    rw [h.defer] at hdeclares
    cases hdeclares

theorem removeDirective_deferred {d : Directive} (hd : d ≠ .defer) (e : Element) :
    (e.deferred pfx).removeDirective d = (e.removeDirective d).deferred pfx :=
  removeDirective_told hd e

theorem Aloof.deferred {env : Environment} (h : e.Aloof env) : (e.deferred pfx).Aloof env :=
  h.told rfl

end Element

end Xml

/-! ## The state of an element -/

namespace DraftWalk

open ElementState (resolveAll)

variable {env : Environment} {pfx : Option String} {parent s s' : ElementState} {e : Element}
  {line : Option Nat} {kids : Forest}

/-- What the checks ask of a state does not change when a fill is deferred. -/
theorem valid_iff_of_defers (h : s.Defers s') (name : Option QName) :
    s.Valid parent name false ↔ s'.Valid parent name false := by
  have hdeclared : ∀ {s : ElementState}, s.declares .fill = true → s.declared ≠ [] := by
    rintro s hfill hnil
    rw [ElementState.declares, hnil] at hfill
    cases hfill
  have hfill' : s'.declares .fill = true := by rw [h.declares_eq (by decide), h.fill]
  have hfill := h.fill
  obtain ⟨ds, rfl, -⟩ := h.eq
  constructor
  · exact fun hvalid => ⟨hvalid.required, fun _ => hfill', fun hinner => Bool.noConfusion hinner.2,
      hvalid.reorder, hvalid.multi, hvalid.group, fun hstub => hdeclared hfill' hstub.2.2⟩
  · exact fun hvalid => ⟨hvalid.required, fun _ => hfill, fun hinner => Bool.noConfusion hinner.2,
      hvalid.reorder, hvalid.multi, hvalid.group, fun hstub => hdeclared hfill hstub.2.2⟩

/-- The directives of an element come to a state that defers the fill, also in
another template. -/
theorem resolveAll_deferred {ds : Declarations}
    (hgroups : ∀ m g, env.sources.group? m = some g → g.primary.isSome = true)
    (hout : parent.sources.Outside) (hfill : ds.declares .fill = true)
    (hdefer : ds.declares .defer = false) (hsorted : ds.Sorted)
    (hbound : ¬ ElementState.Unbound parent ds)
    (haloof : ∀ x ∈ ds.insert ⟨.defer, "true()"⟩, Declared.Aloof env x) (u u' : Document) :
    Alike ElementState.Defers (resolveAll (env.setTemplate u) (parent.inherit 0 ds) ds)
      (resolveAll (env.setTemplate u') (parent.inherit 0 (ds.insert ⟨.defer, "true()"⟩))
        (ds.insert ⟨.defer, "true()"⟩)) := by
  have hall := ElementState.resolveAll_insert_defer (env.setTemplate u) hfill hdefer hsorted
    hbound hgroups
  refine (ElementState.resolveAll_elsewhere haloof hout u u' hall).mono (fun _ _ h => h) ?_
  rintro s _ ⟨rfl, hkept, -⟩
  have hdeclared : s.declared = ds := hkept.declared
  refine ⟨?_, ?_, ds.insert ⟨.defer, "true()"⟩, rfl, fun d hd => ?_⟩
  · rw [ElementState.declares, hdeclared, hfill]
  · exact hkept.defer (Declarations.not_mem_of_declares hdefer)
  · rw [hdeclared, Declarations.expression?_told hd]

/-- The state of a leaf that is told to defer its fill. -/
theorem state_deferred (hdocs : 0 < env.docs.size)
    (hgroups : ∀ m g, env.sources.group? m = some g → g.primary.isSome = true)
    (hout : parent.sources.Outside) (he : e.Deferrable) (haloof : e.Aloof env)
    (hleaf : kids.hasElement = false) (pfx : Option String) :
    Alike ElementState.Defers (state env parent ⟨e, line, kids⟩)
      (state env parent ⟨e.deferred pfx, line, kids⟩) := by
  refine state_told (e := e) (d := .defer) hdocs rfl (fun ds hds => ?_)
    (fun ds u u' hds hbound => ?_) fun s s' h => ?_
  · have hfill : ds.declares .fill = true := (Declarations.declares_of_foldlM hds .fill).trans he.fill
    have hne : ∀ {ds : Declarations}, ds.declares .fill = true → ds ≠ [] := by
      rintro ds hfill rfl
      cases hfill
    have hfill' : (ds.insert ⟨.defer, "true()"⟩).declares .fill = true := by
      rw [Declarations.declares, Declarations.expression?_told (by decide)]
      exact hfill
    rw [ElementState.Unbound, ElementState.Unbound, Declarations.declares, Declarations.declares,
      Declarations.expression?_told (by decide)]
    simp only [hne hfill, hne hfill', not_false_eq_true, ne_eq]
  · have hdeclarations := Declarations.foldlM_told pfx .defer e
    rw [hds] at hdeclarations
    exact resolveAll_deferred hgroups hout
      ((Declarations.declares_of_foldlM hds .fill).trans he.fill)
      ((Declarations.declares_of_foldlM hds .defer).trans he.defer)
      (Declarations.sorted_of_foldlM hds) hbound
      (Declarations.aloof_of_foldlM haloof.deferred hdeclarations) u u'
  · rw [hleaf]
    exact valid_iff_of_defers h _

end DraftWalk

end LabelTemplate
