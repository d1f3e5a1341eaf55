import LabelTemplate.Proofs.Walk.Drafting
import LabelTemplate.Proofs.Walk.Members

/-!
# Telling an element that something is true

An element is given one more directive, with the expression `true()`
(`Element.told`).  The directive takes its place among the others in the order of
resolution (`Declarations.foldlM_told`), and what is resolved before and after it
is resolved as it was (`resolveAll_insert`), as long as nothing else looks at it:
`ElementState.retold` is a state of which only the declarations, and what `defer`
and `required` set, may differ.
-/

namespace LabelTemplate

open Xml Outcome

/-! ## Elements -/

/-- The attribute that says that a directive is true. -/
def Directive.trueAttribute (pfx : Option String) (d : Directive) : Attribute :=
  ⟨⟨pfx, some directiveNamespace, d.name⟩, "true()"⟩

theorem Directive.names_trueAttribute (pfx : Option String) (d : Directive) :
    d.names (d.trueAttribute pfx) = true := by
  simp [names, trueAttribute, QName.hasName]

theorem Directive.names_trueAttribute_of_ne (pfx : Option String) {d d' : Directive} (h : d' ≠ d) :
    d'.names (d.trueAttribute pfx) = false :=
  Bool.eq_false_iff.2 fun hname => h (eq_of_names hname (names_trueAttribute pfx d))

namespace Xml.Element

/-- The element with one more directive, which is true. -/
def told (pfx : Option String) (d : Directive) (e : Element) : Element :=
  { e with attributes := e.attributes ++ [d.trueAttribute pfx] }

variable {pfx : Option String} {d : Directive} {e : Element}

theorem stripDirectives_told (pfx : Option String) (d : Directive) (e : Element) :
    (e.told pfx d).stripDirectives = e.stripDirectives := by
  have hfilter : (e.attributes ++ [d.trueAttribute pfx]).filter (!isDirectiveAttribute ·) =
      e.attributes.filter (!isDirectiveAttribute ·) := by
    rw [List.filter_append]
    exact List.append_nil _
  rw [stripDirectives, stripDirectives, told, hfilter]

theorem removeDirective_told {d' : Directive} (hd : d' ≠ d) (e : Element) :
    (e.told pfx d).removeDirective d' = (e.removeDirective d').told pfx d := by
  have hother := Directive.names_trueAttribute_of_ne pfx hd
  have herase : (e.attributes ++ [d.trueAttribute pfx]).eraseP d'.names =
      e.attributes.eraseP d'.names ++ [d.trueAttribute pfx] := by
    rw [List.eraseP_append]
    split
    · rfl
    · rename_i hany
      have hkept : e.attributes.eraseP d'.names = e.attributes :=
        List.eraseP_of_forall_not (by simpa using hany)
      have hlast : [d.trueAttribute pfx].eraseP d'.names =
          [d.trueAttribute pfx] :=
        List.eraseP_of_forall_not (by simpa using hother)
      rw [hkept, hlast]
  exact congrArg (fun as => { e with attributes := as }) herase

theorem Aloof.told {env : Environment} (h : e.Aloof env) (hboolean : d.types.boolean = true) :
    (e.told pfx d).Aloof env := by
  intro a ha hdirective d' hname
  rcases List.mem_append.1 ha with ha | ha
  · exact h a ha hdirective d' hname
  · cases List.mem_singleton.1 ha
    have hd : d' = d := Option.some.inj (hname.symm.trans (Directive.ofName?_name d))
    subst hd
    refine ⟨fun hsources => ?_, fun _ => ElementState.readsNoTemplate_true hboolean⟩
    have hsources : d' = .sources := hsources
    rw [hsources] at hboolean
    cases hboolean

end Xml.Element

/-! ## Declarations -/

namespace Declarations

/-- A directive that was not declared is put somewhere between the others. -/
theorem exists_insert {x : Declared} {ds : Declarations} (h : ds.declares x.directive = false) :
    ∃ front back, ds = front ++ back ∧ ds.insert x = front ++ x :: back := by
  induction ds with
  | nil => exact ⟨[], [], rfl, rfl⟩
  | cons y ds ih =>
    rw [declares, expression?_cons] at h
    rw [insert]
    by_cases hsame : y.directive = x.directive
    · rw [if_pos hsame] at h
      cases h
    · rw [if_neg hsame] at h
      rw [if_neg (Ne.symm hsame)]
      split
      · exact ⟨[], y :: ds, rfl, rfl⟩
      · obtain ⟨front, back, hds, hinsert⟩ := ih h
        exact ⟨y :: front, back, congrArg (y :: ·) hds, congrArg (y :: ·) hinsert⟩

theorem foldlM_told (pfx : Option String) (d : Directive) (e : Element) :
    (e.told pfx d).attributes.foldlM addDeclaration [] =
      (e.attributes.foldlM addDeclaration []).map (insert ⟨d, "true()"⟩) := by
  rw [Element.told, List.foldlM_append]
  cases e.attributes.foldlM addDeclaration [] with
  | error fault => rfl
  | ok ds =>
    have hadded : addDeclaration ds (d.trueAttribute pfx) = .ok (ds.insert ⟨d, "true()"⟩) :=
      addDeclaration_eq_ok.2
        (.inr ⟨d, d.names_trueAttribute pfx, (by decide : "true()".isEmpty = false), rfl⟩)
    exact (bind_pure _).trans hadded

/-- The other directives are declared as they were. -/
theorem expression?_told {d d' : Directive} {ds : Declarations} (h : d' ≠ d) :
    (ds.insert ⟨d, "true()"⟩).expression? d' = ds.expression? d' := by
  rw [expression?_insert, if_neg (Ne.symm h)]

theorem not_mem_of_declares {ds : Declarations} {d : Directive} (h : ds.declares d = false) :
    ¬ ∃ x ∈ ds, x.directive = d := by
  rintro ⟨x, hx, rfl⟩
  rw [declares_of_mem hx] at h
  cases h

end Declarations

/-! ## States -/

namespace ElementState

variable {env : Environment} {s s₀ : ElementState} {d : Directive} {ds : Declarations}

/-- The state with other declarations, and perhaps with other decisions on
whether to defer and on what is required. -/
def retold (ds : Declarations) (defer : Option Bool) (required : Option (Option Bool))
    (s : ElementState) : ElementState :=
  { s with declared := ds, defer := defer.getD s.defer, required := required.getD s.required }

section Retold

variable {defer : Option Bool} {required : Option (Option Bool)}

theorem declaration_retold (h : ds.expression? d = s.declared.expression? d) :
    (s.retold ds defer required).declaration d = s.declaration d := by
  rw [declaration, declaration, retold, h]

theorem focus_retold (h : ds.expression? d = s.declared.expression? d) :
    (s.retold ds defer required).focus d = s.focus d := by
  rw [focus, focus, declaration_retold h]
  rfl

theorem evaluateExpression_retold (h : ds.expression? d = s.declared.expression? d) :
    (s.retold ds defer required).evaluateExpression env d = s.evaluateExpression env d := by
  rw [← evaluateExpression_focus, focus_retold h, evaluateExpression_focus]

theorem notCastable_retold {α : Type} (h : ds.expression? d = s.declared.expression? d)
    (shown : String) :
    ((s.retold ds defer required).notCastable env d shown : Except Error α) =
      s.notCastable env d shown := by
  rw [← notCastable_focus, focus_retold h, notCastable_focus]

variable (hdefer : d = .defer → defer = none) (hrequired : d = .required → required = none)
  (h : ds.expression? d = s.declared.expression? d)

include hdefer hrequired h

theorem store_retold : (s.retold ds defer required).store env d =
    (s.store env d).map (retold ds defer required) := by
  have hfails : ∀ shown,
      ((s.retold ds defer required).notCastable env d shown : Except Error ElementState) =
        (s.notCastable env d shown).map (retold ds defer required) := fun shown => by
    rw [notCastable_retold h]
    rfl
  unfold store
  rw [evaluateExpression_retold h]
  cases s.evaluateExpression env d with
  | error e => rfl
  | ok v =>
    cases d with
    | sources => exact hfails _
    | fill => exact hfails _
    | multi => cases v <;> first | rfl | exact hfails _
    | multiBranch => cases v <;> first | rfl | exact hfails _
    | fetch => cases v <;> first | rfl | exact hfails _
    | reorder => cases v <;> first | rfl | exact hfails _
    | defer =>
      rw [hdefer rfl] at hfails ⊢
      cases v <;> first | rfl | exact hfails _
    | required =>
      rw [hrequired rfl] at hfails ⊢
      cases v <;> first | rfl | exact hfails _

theorem resolveDirective_retold : (s.retold ds defer required).resolveDirective env d =
    (s.resolveDirective env d).map (retold ds defer required) := by
  have hstore : (s.retold ds defer required).store env d =
      (s.store env d).map (retold ds defer required) := store_retold hdefer hrequired h
  cases d with
  | fill => rfl
  | fetch => exact hstore
  | multi => exact hstore
  | multiBranch => exact hstore
  | reorder => exact hstore
  | defer => exact hstore
  | required =>
    have hfetch : (s.retold ds defer required).fetch = s.fetch := rfl
    rw [resolveDirective, resolveDirective, hfetch]
    split
    · exact hstore
    · rw [hrequired rfl]
      rfl
  | sources =>
    rw [resolveDirective, resolveDirective]
    unfold bindSources
    rw [declaration_retold h]
    dsimp only
    cases env.sources.group? (s.declaration .sources).expression with
    | none => rfl
    | some g =>
      dsimp only [bindNamespaces]
      cases g.primary.bind (env.docs[·]?) <;> rfl

end Retold

/-! ### All directives -/

theorem resolveAll_append (env : Environment) (s : ElementState) (xs ys : Declarations) :
    resolveAll env s (xs ++ ys) = resolveAll env s xs >>= fun s => resolveAll env s ys :=
  List.foldlM_append

/-- A change of the state that no directive of a list sees. -/
theorem resolveAll_map {f : ElementState → ElementState} {xs : Declarations}
    (h : ∀ x ∈ xs, ∀ s, s.declared = ds →
      (f s).resolveDirective env x.directive = (s.resolveDirective env x.directive).map f)
    (hs : s.declared = ds) : resolveAll env (f s) xs = (resolveAll env s xs).map f := by
  induction xs generalizing s with
  | nil => rfl
  | cons x xs ih =>
    obtain ⟨hx, hxs⟩ := List.forall_mem_cons.1 h
    rw [resolveAll, resolveAll, List.foldlM_cons, List.foldlM_cons, hx s hs]
    cases hstep : s.resolveDirective env x.directive with
    | error e => rfl
    | ok a => exact ih hxs ((step_of_resolveDirective hstep).kept.declared.trans hs)

/-- A source is bound once the directives that bind one are resolved. -/
theorem exists_primary {front : Declarations} (hsorted : front.Sorted)
    (h : resolveAll env s₀ front = .ok s)
    (hgroups : ∀ m g, env.sources.group? m = some g → g.primary.isSome = true)
    (hbound : front.declares .sources = false → s₀.sources.isEmpty = false) :
    ∃ key, s.sources.primary = some key := by
  refine Option.isSome_iff_exists.1 ?_
  cases hsources : front.declares .sources with
  | true => exact hgroups _ _ (resolved_sources hsorted h hsources)
  | false =>
    have hsame : s.sources = s₀.sources :=
      ((kept_resolveAll h).sources (Declarations.not_mem_of_declares hsources)).1
    rw [hsame]
    simpa [SourceGroup.isEmpty] using hbound hsources

/-- One more directive: `before` is how the states in front of it change and
`after` how those behind it do. -/
theorem resolveAll_insert (env : Environment) (s₀ : ElementState) {x : Declared}
    (before after : ElementState → ElementState) (hx : ds.declares x.directive = false)
    (hrank : Directive.sources.rank < x.directive.rank)
    (hsorted : ds.Sorted) (hdeclared : s₀.declared = ds)
    (hgroups : ∀ m g, env.sources.group? m = some g → g.primary.isSome = true)
    (hbound : ds.declares .sources = false → s₀.sources.isEmpty = false)
    (hbefore : ∀ s d, s.declared = ds → d ≠ x.directive →
      (before s).resolveDirective env d = (s.resolveDirective env d).map before)
    (hstep : ∀ s key, s.declared = ds → s.sources.primary = some key →
      (before s).resolveDirective env x.directive = .ok (after s))
    (hafter : ∀ s d, s.declared = ds → x.directive.rank < d.rank →
      (after s).resolveDirective env d = (s.resolveDirective env d).map after) :
    resolveAll env (before s₀) (ds.insert x) = (resolveAll env s₀ ds).map after := by
  obtain ⟨front, back, hds, hinsert⟩ := Declarations.exists_insert hx
  have hsorted' := hsorted.insert x
  rw [hinsert] at hsorted'
  have hback : ∀ y ∈ back, x.directive.rank < y.directive.rank :=
    (List.pairwise_cons.1 (List.pairwise_append.1 hsorted').2.1).1
  have hfront : ∀ y ∈ front, y.directive ≠ x.directive := fun y hy hd =>
    Declarations.not_mem_of_declares hx ⟨y, hds ▸ List.mem_append_left _ hy, hd⟩
  have hsources : front.declares .sources = false → ds.declares .sources = false := by
    intro hnone
    refine Bool.eq_false_iff.2 fun hdeclares => ?_
    obtain ⟨y, hy, hd⟩ := Declarations.exists_of_declares hdeclares
    rcases List.mem_append.1 (hds ▸ hy) with hy | hy
    · exact Declarations.not_mem_of_declares hnone ⟨y, hy, hd⟩
    · -- what comes after `x` does not bind sources
      have hless := hback y hy
      rw [hd] at hless
      exact absurd hless (Nat.lt_asymm hrank)
  rw [hinsert, resolveAll_append, resolveAll_map (fun y hy s hs => hbefore s _ hs (hfront y hy))
    hdeclared, hds, resolveAll_append]
  cases hresolved : resolveAll env s₀ front with
  | error e => rfl
  | ok s =>
    have hs : s.declared = ds := (kept_resolveAll hresolved).declared.trans hdeclared
    obtain ⟨key, hkey⟩ := exists_primary (List.pairwise_append.1 hsorted').1 hresolved hgroups
      fun hnone => hbound (hsources hnone)
    change resolveAll env (before s) (x :: back) = (resolveAll env s back).map after
    rw [resolveAll, List.foldlM_cons, hstep s key hs hkey]
    exact resolveAll_map (fun y hy s hs => hafter s _ hs (hback y hy)) hs

/-- Where a further directive has a known effect in one template it has it in
every other one. -/
theorem resolveAll_elsewhere {parent parent' : ElementState} {ds' : Declarations}
    {after : ElementState → ElementState} (haloof : ∀ x ∈ ds', Declared.Aloof env x)
    (hout : parent'.sources.Outside) (u u' : Document)
    (h : resolveAll (env.setTemplate u) (parent'.inherit 0 ds') ds' =
      (resolveAll (env.setTemplate u) (parent.inherit 0 ds) ds).map after) :
    Alike (fun s s' => s' = after s ∧ Kept (fun d => ∃ x ∈ ds, x.directive = d) (parent.inherit 0 ds) s ∧
        resolveAll (env.setTemplate u) (parent.inherit 0 ds) ds = .ok s)
      (resolveAll (env.setTemplate u) (parent.inherit 0 ds) ds)
      (resolveAll (env.setTemplate u') (parent'.inherit 0 ds') ds') := by
  have htwins : Alike (Twins ds') (resolveAll (env.setTemplate u') (parent'.inherit 0 ds') ds')
      (resolveAll (env.setTemplate u) (parent'.inherit 0 ds') ds') :=
    resolveAll_twin haloof ⟨.refl _, rfl, hout⟩
  cases hs : resolveAll (env.setTemplate u) (parent.inherit 0 ds) ds with
  | error err =>
    rw [h, hs] at htwins
    generalize resolveAll (env.setTemplate u') _ _ = x at htwins ⊢
    cases htwins
    exact .error trivial
  | ok s =>
    rw [hs] at h
    rw [h] at htwins
    obtain ⟨s', hs', ⟨n, rfl⟩, -, -⟩ := htwins.exists_left
    rw [hs']
    have hnode : n = (after s).node :=
      (kept_resolveAll hs').node.trans (kept_resolveAll h).node.symm
    subst hnode
    exact .ok ⟨rfl, kept_resolveAll hs, rfl⟩

end ElementState

/-! ## The state of an element -/

namespace DraftWalk

open ElementState (resolveAll Unbound)

variable {env : Environment} {pfx : Option String} {parent parent' s : ElementState} {e : Element}
  {line : Option Nat} {kids kids' : Forest} {d : Directive}

/-- Where sources beside the template are bound, they are bound below as well. -/
theorem outside_of_state {t : Tree} (hdocs : 0 < env.docs.size) (hout : parent.sources.Outside)
    (haloof : t.element.Aloof env) (h : state env parent t = .ok s) : s.sources.Outside := by
  have hself : Document.Spells t.outline.document [0] t.outline.forest :=
    TreeWalk.spells_document t.outline
  have htwin := ElementState.resolve_twin (t := t.outline.document) hdocs (.refl parent) hout haloof
    hself.element?_eq hself.element?_eq rfl
  rw [TreeWalk.quiet_eq_ok.1 h] at htwin
  cases htwin with
  | ok h => exact h.outside

/-- A source is bound below an element that names one, or where one was bound. -/
theorem bound_of_state {t : Tree} (hdocs : 0 < env.docs.size)
    (hgroups : ∀ m g, env.sources.group? m = some g → g.primary.isSome = true)
    (hbound : t.element.declares .sources = false → parent.sources.isEmpty = false)
    (h : state env parent t = .ok s) : s.sources.isEmpty = false := by
  obtain ⟨ds, hds, -, hall, -⟩ := (TreeWalk.state_eq_ok (t := t.outline) hdocs).1 h
  have hds : t.element.attributes.foldlM addDeclaration [] = .ok ds := hds
  obtain ⟨key, hkey⟩ := ElementState.exists_primary (Declarations.sorted_of_foldlM hds) hall hgroups
    fun hnone => hbound (by rwa [Declarations.declares_of_foldlM hds] at hnone)
  rw [SourceGroup.isEmpty, hkey]
  rfl

theorem state_of_unbound {t : Tree} {ds : Declarations} (hdocs : 0 < env.docs.size)
    (hds : t.element.attributes.foldlM addDeclaration [] = .ok ds)
    (hunbound : Unbound parent ds) : state env parent t = .error .failed := by
  cases h : state env parent t with
  | error stop =>
    have hstop : stop = .failed := TreeWalk.state_error h
    rw [hstop]
  | ok s =>
    obtain ⟨ds', hds', hbound, -⟩ := (TreeWalk.state_eq_ok (t := t.outline) hdocs).1 h
    cases hds.symm.trans hds'
    exact absurd hunbound hbound

/-- The state of an element that is told something. -/
theorem state_told {r : ElementState → ElementState → Prop} (hdocs : 0 < env.docs.size)
    (hinner : kids'.hasElement = kids.hasElement)
    (hbound : ∀ ds, e.attributes.foldlM addDeclaration [] = .ok ds →
      (Unbound parent ds ↔ Unbound parent' (ds.insert ⟨d, "true()"⟩)))
    (hall : ∀ ds u u', e.attributes.foldlM addDeclaration [] = .ok ds → ¬ Unbound parent ds →
      Alike r (resolveAll (env.setTemplate u) (parent.inherit 0 ds) ds)
        (resolveAll (env.setTemplate u') (parent'.inherit 0 (ds.insert ⟨d, "true()"⟩))
          (ds.insert ⟨d, "true()"⟩)))
    (hvalid : ∀ s s', r s s' → (s.Valid parent (some e.name) kids.hasElement ↔
      s'.Valid parent' (some e.name) kids.hasElement)) :
    Alike r (state env parent ⟨e, line, kids⟩) (state env parent' ⟨e.told pfx d, line, kids'⟩) := by
  have hdeclarations := Declarations.foldlM_told pfx d e
  cases hds : e.attributes.foldlM addDeclaration [] with
  | error fault =>
    rw [hds] at hdeclarations
    have hfails : state env parent ⟨e, line, kids⟩ = .error .failed :=
      TreeWalk.state_of_error hdocs hds
    have hfails' : state env parent' ⟨e.told pfx d, line, kids'⟩ = .error .failed :=
      TreeWalk.state_of_error hdocs hdeclarations
    rw [hfails, hfails']
    exact .error trivial
  | ok ds =>
    rw [hds] at hdeclarations
    by_cases hunbound : Unbound parent ds
    · rw [state_of_unbound hdocs hds hunbound,
        state_of_unbound hdocs hdeclarations ((hbound ds hds).1 hunbound)]
      exact .error trivial
    · refine TreeWalk.state_alike (r := r) hdocs hdocs hds hdeclarations (hbound ds hds)
        (hall ds _ _ hds hunbound) fun s s' h => ?_
      have houtline : (Tree.outline ⟨e, line, kids⟩).kids.hasElement = kids.hasElement :=
        hasElement_outline _
      have houtline' : (Tree.outline ⟨e.told pfx d, line, kids'⟩).kids.hasElement =
        kids.hasElement := (hasElement_outline _).trans hinner
      rw [houtline, houtline']
      exact hvalid s s' h

end DraftWalk

end LabelTemplate
