import LabelTemplate.Proofs.Walk.Telling

/-!
# Saying that an element is required

Every element is required unless it is said otherwise, and where nothing says so
an element can be told that it is.  Its state is then the old one, but where
nothing is fetched it is left open whether the element is required, until the
export (`ElementState.Requires`), and the elements below take that over.  To
resolve their states makes no difference (`DraftWalk.state_needing`).
-/

namespace LabelTemplate

open Xml Outcome
open TreeWalk (quiet)

namespace ElementState

/-- That something is required, or that this is left open. -/
def needed (decided : Bool) : Option Bool := if decided then some true else none

theorem needed_ne (decided : Bool) : needed decided ≠ some false := by
  cases decided <;> nofun

/-- The state with another decision on what is required. -/
def needing (r : Option Bool) (s : ElementState) : ElementState := { s with required := r }

variable {env : Environment} {s s' : ElementState} {ds : Declarations}

theorem needing_eq (r : Option Bool) (s : ElementState) :
    s.needing r = s.retold s.declared none (some r) := rfl

/-- No other directive looks at what is required. -/
theorem resolveAll_needing (hnone : ds.declares .required = false) (hs : s.declared = ds)
    (r : Option Bool) :
    resolveAll env (s.needing r) ds = (resolveAll env s ds).map (needing r) := by
  refine resolveAll_map (fun x hx s hs => ?_) hs
  have hne : x.directive ≠ .required := fun hd => Declarations.not_mem_of_declares hnone ⟨x, hx, hd⟩
  rw [needing_eq, resolveDirective_retold (fun _ => rfl) (fun hd => absurd hd hne) rfl]
  cases hstep : s.resolveDirective env x.directive with
  | error err => rfl
  | ok a =>
    rw [← (step_of_resolveDirective hstep).kept.declared]
    rfl

/-- The second state is the first one of an element that is told that it is
required. -/
structure Requires (s s' : ElementState) : Prop where
  required : s.required = some true
  undeclared : s.declares .required = false
  source : ∃ key, s.sources.primary = some key
  eq : ∃ ds : Declarations, ds.expression? .required = some "true()" ∧
    (∀ d, d ≠ .required → ds.expression? d = s.declared.expression? d) ∧
    s' = s.retold ds none (some (needed s.fetch))

/-- With `required` declared as well an element comes to the same state, but for
what is required. -/
theorem resolveAll_insert_required (env : Environment) {parent : ElementState} (r : Option Bool)
    (hnone : ds.declares .required = false) (hsorted : ds.Sorted)
    (hgroups : ∀ m g, env.sources.group? m = some g → g.primary.isSome = true)
    (hbound : ds.declares .sources = false → parent.sources.isEmpty = false) :
    resolveAll env ((parent.needing r).inherit 0 (ds.insert ⟨.required, "true()"⟩))
        (ds.insert ⟨.required, "true()"⟩) =
      (resolveAll env (parent.inherit 0 ds) ds).map fun s =>
        s.retold (ds.insert ⟨.required, "true()"⟩) none
          (some (needed s.fetch)) := by
  have hvalue : (ds.insert ⟨.required, "true()"⟩).expression? .required = some "true()" := by
    rw [Declarations.expression?_insert, if_pos rfl]
  have hother : ∀ (s : ElementState) (d : Directive), s.declared = ds → d ≠ .required →
      (ds.insert ⟨.required, "true()"⟩).expression? d = s.declared.expression? d :=
    fun s d hs hd => by rw [hs, Declarations.expression?_told hd]
  refine resolveAll_insert env (parent.inherit 0 ds)
    (retold (ds.insert ⟨.required, "true()"⟩) none (some r)) _ hnone (by decide) hsorted rfl hgroups
    hbound (fun s d hs hd => ?_) (fun s key _ hkey => ?_) fun s d hs hd => ?_
  · exact resolveDirective_retold (fun _ => rfl) (fun h => absurd h hd) (hother s d hs hd)
  · generalize ds.insert ⟨.required, "true()"⟩ = ds' at hvalue ⊢
    have hdeclaration : ((s.retold ds' none (some r)).declaration .required).expression = "true()" := by
      rw [declaration, retold, hvalue, Option.getD_some]
    change (if s.fetch then (s.retold ds' none (some r)).store env .required
      else .ok (s.retold ds' none (some none))) = _
    cases s.fetch with
    | false => rfl
    | true =>
      rw [if_pos rfl, store, evaluateExpression_true rfl hdeclaration hkey]
      rfl
  · have hne : d ≠ .required := fun h => by
      rw [h] at hd
      exact absurd hd (Nat.lt_irrefl _)
    have hfetch : d ≠ .fetch := fun h => by
      rw [h] at hd
      exact absurd hd (by decide)
    rw [resolveDirective_retold (fun _ => rfl) (fun h => absurd h hne) (hother s d hs hne)]
    cases hstep : s.resolveDirective env d with
    | error err => rfl
    | ok a =>
      have hsame : a.fetch = s.fetch :=
        (step_of_resolveDirective hstep).kept.fetch (Ne.symm hfetch)
      rw [← hsame]
      rfl

namespace Requires

variable (h : s.Requires s')

include h

theorem heritage_eq :
    s'.heritage = (s.needing (needed s.fetch)).heritage := by
  obtain ⟨ds, -, -, rfl⟩ := h.eq
  rfl

theorem rebindSource_heritage_eq (key : XPath.DocKey) :
    (s'.rebindSource key env).heritage =
      ((s.rebindSource key env).needing (needed s.fetch)).heritage := by
  obtain ⟨ds, -, -, rfl⟩ := h.eq
  unfold rebindSource bindNamespaces
  cases (some key).bind (env.docs[·]?) <;> rfl

/-- At the export the element is required, as it is when nothing is said. -/
theorem required_eq (env : Environment) : DraftWalk.required env s = none ∧
    DraftWalk.required env s' = some (.ok true) := by
  obtain ⟨ds, hvalue, -, rfl⟩ := h.eq
  obtain ⟨key, hkey⟩ := h.source
  refine ⟨by rw [DraftWalk.required, h.undeclared]; rfl, ?_⟩
  generalize (some (needed s.fetch) : Option (Option Bool)) = r
  have hdeclares : (s.retold ds none r).declares .required = true := by
    rw [declares, retold, Declarations.declares, hvalue]
    rfl
  have hdeclaration : ((s.retold ds none r).declaration .required).expression = "true()" := by
    rw [declaration, retold, hvalue, Option.getD_some]
  have hstore : (s.retold ds none r).store env .required =
      .ok ((s.retold ds none r).needing (some true)) := by
    rw [store, evaluateExpression_true rfl hdeclaration hkey]
    rfl
  rw [DraftWalk.required, if_pos hdeclares, evalRequired, if_pos hdeclares, hstore]
  rfl

end Requires

end ElementState

/-! ## The state of an element -/

namespace DraftWalk

open ElementState (resolveAll needing)

variable {env : Environment} {pfx : Option String} {parent : ElementState} {e : Element}
  {line : Option Nat} {kids kids' : Forest} {t : Tree}

/-- An element that says nothing of what is required takes it from above. -/
theorem state_needing (hdocs : 0 < env.docs.size) (hnone : t.element.declares .required = false)
    (hrequired : parent.required = some true) {r : Option Bool} (hr : r ≠ some false) :
    Alike (fun s s' => s' = s.needing r ∧ s.required = some true ∧ s.declares .required = false)
      (state env parent t) (state env (parent.needing r) t) := by
  cases hds : t.element.attributes.foldlM addDeclaration [] with
  | error fault =>
    have hfails : ∀ parent, state env parent t = .error .failed := fun parent =>
      TreeWalk.state_of_error hdocs hds
    rw [hfails, hfails]
    exact .error trivial
  | ok ds =>
    have hundeclared : ds.declares .required = false :=
      (Declarations.declares_of_foldlM hds .required).trans hnone
    change Alike _ (TreeWalk.state env parent t.outline)
      (TreeWalk.state env (parent.needing r) t.outline)
    refine TreeWalk.state_alike hdocs hdocs hds hds Iff.rfl ?_ ?_
    · have hinherit : (parent.needing r).inherit 0 ds = (parent.inherit 0 ds).needing r := rfl
      rw [hinherit, ElementState.resolveAll_needing hundeclared rfl r]
      cases hs : resolveAll (env.setTemplate t.outline.document) (parent.inherit 0 ds) ds with
      | error err => exact .error trivial
      | ok s =>
        have hkept := ElementState.kept_resolveAll hs
        refine .ok ⟨rfl, ?_, ?_⟩
        · exact (hkept.required (Declarations.not_mem_of_declares hundeclared)).trans hrequired
        · rw [ElementState.declares, hkept.declared]
          exact hundeclared
    · rintro s _ ⟨rfl, hs, -⟩
      constructor
      · exact fun h => ⟨fun hboth => hr hboth.2, h.defer, h.fill, h.reorder, h.multi, h.group, h.stub⟩
      · refine fun h => ⟨fun hboth => ?_, h.defer, h.fill, h.reorder, h.multi, h.group, h.stub⟩
        rw [hrequired] at hboth
        cases hboth.2

/-- The state of an element that is told that it is required. -/
theorem state_requires (hdocs : 0 < env.docs.size)
    (hgroups : ∀ m g, env.sources.group? m = some g → g.primary.isSome = true)
    (hout : parent.sources.Outside) (hrequired : parent.required = some true)
    (haloof : e.Aloof env) (hnone : e.declares .required = false)
    (hbound : e.declares .sources = false → parent.sources.isEmpty = false)
    (hinner : kids.hasElement = true) (hinner' : kids'.hasElement = true) {r : Option Bool}
    (hr : r ≠ some false) (pfx : Option String) :
    Alike ElementState.Requires (state env parent ⟨e, line, kids⟩)
      (state env (parent.needing r) ⟨e.told pfx .required, line, kids'⟩) := by
  have hbound' : ∀ {ds}, e.attributes.foldlM addDeclaration [] = .ok ds →
      ds.declares .sources = false → parent.sources.isEmpty = false := fun hds hsources =>
    hbound (by rwa [Declarations.declares_of_foldlM hds] at hsources)
  refine state_told hdocs (hinner'.trans hinner.symm) (fun ds hds => iff_of_false ?_ ?_)
    (fun ds u u' hds _ => ?_) fun s s' h => ?_
  · rintro ⟨-, hsources, hempty⟩
    rw [hbound' hds hsources] at hempty
    cases hempty
  · rintro ⟨-, hsources, hempty⟩
    rw [Declarations.declares, Declarations.expression?_told (by decide)] at hsources
    have hempty : parent.sources.isEmpty = true := hempty
    rw [hbound' hds hsources] at hempty
    cases hempty
  · have hdeclarations := Declarations.foldlM_told pfx .required e
    rw [hds] at hdeclarations
    have hundeclared : ds.declares .required = false :=
      (Declarations.declares_of_foldlM hds .required).trans hnone
    have hsorted := Declarations.sorted_of_foldlM hds
    have hout' : (parent.needing r).sources.Outside := hout
    refine (ElementState.resolveAll_elsewhere
      (Declarations.aloof_of_foldlM (haloof.told rfl) hdeclarations) hout' u u'
      (ElementState.resolveAll_insert_required (env.setTemplate u) r hundeclared hsorted hgroups
        (hbound' hds))).mono (fun _ _ h => h) ?_
    rintro s _ ⟨rfl, hkept, hs⟩
    have hdeclared : s.declared = ds := hkept.declared
    refine ⟨?_, ?_, ElementState.exists_primary hsorted hs hgroups (hbound' hds), _, ?_, ?_, rfl⟩
    · exact (hkept.required (Declarations.not_mem_of_declares hundeclared)).trans hrequired
    · rw [ElementState.declares, hdeclared]
      exact hundeclared
    · rw [Declarations.expression?_insert, if_pos rfl]
    · exact fun d hd => by rw [hdeclared, Declarations.expression?_told hd]
  · have hrefuse : ¬ parent.required = some false := fun h => by
      rw [hrequired] at h
      cases h
    obtain ⟨ds, -, hsame, rfl⟩ := h.eq
    have hfill : Declarations.declares ds .fill = s.declares .fill := by
      rw [ElementState.declares, Declarations.declares, Declarations.declares,
        hsame .fill (by decide)]
    rw [hinner]
    constructor
    · intro h
      exact ⟨fun hboth => hr hboth.2, fun hdefer => hfill.trans (h.defer hdefer),
        fun hboth => h.fill ⟨hfill.symm.trans hboth.1, rfl⟩, h.reorder, h.multi, h.group,
        fun hstub => by cases hstub.2.1⟩
    · intro h
      exact ⟨fun hboth => hrefuse hboth.2, fun hdefer => hfill.symm.trans (h.defer hdefer),
        fun hboth => h.fill ⟨hfill.trans hboth.1, rfl⟩, h.reorder, h.multi, h.group,
        fun hstub => by cases hstub.2.1⟩

end DraftWalk

end LabelTemplate
