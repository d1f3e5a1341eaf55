import LabelTemplate.Proofs.Walk.Abreast

/-!
# A copy for one source

An element that names several sources is walked as one copy per source: without
the directive that names them, below a state that is bound to the one source,
and beside the copies for the sources after it.  `Copied` says what it takes
that such a copy is walked as the element would be if its moniker named that
source alone (`Copied.process_eq`).

The states of the two agree in all that elements inherit (`state_copy`).  Where
an element is repeated the branches of the copy are copies of the branches
(`Copied.branch`), so the comparison goes on below them.
-/

namespace LabelTemplate

open Xml Outcome

theorem List.filter_eraseP {α : Type} {p q : α → Bool} (h : ∀ a, p a = true → q a = false)
    (l : List α) : (l.eraseP q).filter p = l.filter p := by
  induction l with
  | nil => rfl
  | cons a l ih =>
    by_cases hq : q a = true
    · have hp : ¬ p a = true := fun hp => by
        rw [h a hp] at hq
        cases hq
      rw [List.eraseP_cons_of_pos hq, List.filter_cons_of_neg hp]
    · rw [List.eraseP_cons_of_neg hq, List.filter_cons, List.filter_cons, ih]

namespace Xml

variable {e : Element} {t : Tree} {d d' : Directive}

theorem Element.filter_removeDirective (hne : d ≠ d') :
    (e.removeDirective d').attributes.filter d.names = e.attributes.filter d.names :=
  List.filter_eraseP (fun _ ha => Bool.eq_false_iff.2 fun ha' =>
    hne (Directive.eq_of_names ha ha')) _

theorem Element.declares_removeDirective (hne : d ≠ d') :
    (e.removeDirective d').declares d = e.declares d := by
  have hany : ∀ as : List Attribute, as.any d.names = !(as.filter d.names).isEmpty := by
    intro as
    rw [Bool.eq_iff_iff]
    simp
  rw [declares, declares, hany, hany, filter_removeDirective hne]

theorem Element.stripDirectives_removeDirective (e : Element) (d : Directive) :
    (e.removeDirective d).stripDirectives = e.stripDirectives := by
  have hfilter : (e.removeDirective d).attributes.filter (!isDirectiveAttribute ·) =
      e.attributes.filter (!isDirectiveAttribute ·) :=
    List.filter_eraseP (fun a ha => Directive.not_names (by simpa using ha) d) _
  simp only [stripDirectives, hfilter]
  rfl

theorem Element.removeDirective_comm (e : Element) (hne : d ≠ d') :
    (e.removeDirective d).removeDirective d' = (e.removeDirective d').removeDirective d := by
  have hcomm : (e.attributes.eraseP d.names).eraseP d'.names =
      (e.attributes.eraseP d'.names).eraseP d.names :=
    List.eraseP_comm fun a _ => Decidable.not_and_iff_or_not.1 fun h =>
      hne (Directive.eq_of_names h.1 h.2)
  exact congrArg (fun as => { e with attributes := as }) hcomm

/-- Where a leaf has the name of a class it declares something else than where
it comes from and how often. -/
def Tree.Describes (t : Tree) : Prop :=
  ElementState.isClassName t.element.name = true → t.kids.hasElement = false →
    ∃ d : Directive, d ≠ .sources ∧ d ≠ .multi ∧ t.element.declares d = true

end Xml

namespace TreeWalk

variable {env : Environment} {m : String} {key : XPath.DocKey} {source : Document}
  {parent parent' : ElementState} {t : Tree} {ds : Declarations}

/-! ## The branches of an element -/

section Branches

variable {s s' : ElementState} {ds' : Declarations} {b : Option Nat}
  (hds : t.element.attributes.foldlM addDeclaration [] = .ok ds)
  (hds' : (t.element.removeDirective .multi).attributes.foldlM addDeclaration [] = .ok ds')

include hds hds'

theorem expression?_branch {d : Directive} (hd : d ≠ .multi) :
    ds'.expression? d = ds.expression? d := by
  rw [Declarations.expression?_of_foldlM hds, Declarations.expression?_of_foldlM hds',
    Element.filter_removeDirective hd]

theorem declares_branch {d : Directive} (hd : d ≠ .multi) : ds'.declares d = ds.declares d := by
  rw [Declarations.declares, Declarations.declares, expression?_branch hds hds' hd]

section Resolved

variable (hsource : env.docs[key]? = some source) (hkey : key ≠ templateKey) {u u' : Document}
  (h : ElementState.resolveAll (env.setTemplate u) (parent.inherit 0 ds) ds = .ok s)
  (h' : ElementState.resolveAll (env.setTemplate u')
    (ElementState.inherit { parent with multiBranch := b } 0 ds') ds' = .ok s')
  (hprimary : s.sources.primary = some key)

include hsource hkey h h' hprimary

/-- An element is bound to the same as its branches. -/
theorem bound_branch : s'.sources = s.sources ∧ s'.namespaces = s.namespaces := by
  have hsorted := Declarations.sorted_of_foldlM hds
  have hsorted' := Declarations.sorted_of_foldlM hds'
  have hdeclares := declares_branch hds hds' (d := .sources) (by decide)
  by_cases hsources : ds.declares .sources = true
  · have hsources' : ds'.declares .sources = true := hdeclares.trans hsources
    have hmoniker : ElementState.declaration (.inherit { parent with multiBranch := b } 0 ds')
        .sources = ElementState.declaration (.inherit parent 0 ds) .sources := by
      simp only [ElementState.declaration, ElementState.inherit,
        expression?_branch hds hds' (d := .sources) (by decide)]
    have hgroup : s'.sources = s.sources := by
      have hs := ElementState.resolved_sources hsorted h hsources
      have hs' := ElementState.resolved_sources hsorted' h' hsources'
      rw [hmoniker] at hs'
      exact Option.some.inj (hs'.symm.trans hs)
    have hdoc : ∀ u : Document, (some key).bind ((env.setTemplate u).docs[·]?) = some source :=
      fun u => (ElementState.getElem?_docs_setTemplate hkey).trans hsource
    refine ⟨hgroup, ?_⟩
    rw [ElementState.resolved_namespaces hsorted h hsources (hprimary ▸ hdoc u),
      ElementState.resolved_namespaces hsorted' h' hsources' (hgroup ▸ hprimary ▸ hdoc u')]
    rfl
  · have hnone : ∀ {ds : Declarations}, ¬ ds.declares .sources = true →
        ¬ ∃ x ∈ ds, x.directive = .sources := by
      rintro ds hd ⟨x, hx, hxd⟩
      exact hd (hxd ▸ Declarations.declares_of_mem hx)
    obtain ⟨hgroup, -, hnamespaces⟩ := (ElementState.kept_resolveAll h).sources (hnone hsources)
    obtain ⟨hgroup', -, hnamespaces'⟩ :=
      (ElementState.kept_resolveAll h').sources (hnone (hdeclares ▸ hsources))
    exact ⟨hgroup'.trans hgroup.symm, hnamespaces'.trans hnamespaces.symm⟩

/-- A directive that sets no fill comes to the same in a branch. -/
theorem evaluateExpression_branch (haloof : t.element.Aloof env) {d : Directive}
    (hd : d ≠ .multi ∧ d ≠ .fill ∧ d ≠ .sources) (hdeclared : ds.declares d = true) :
    Alike Eq (s.evaluateExpression (env.setTemplate u) d)
      (s'.evaluateExpression (env.setTemplate u') d) := by
  obtain ⟨hgroup, hnamespaces⟩ := bound_branch hds hds' hsource hkey h h' hprimary
  have hkept := ElementState.kept_resolveAll h
  have hkept' := ElementState.kept_resolveAll h'
  have hfocus : s.focus d = s'.focus d := by
    simp only [ElementState.focus, ElementState.declaration, hgroup, hnamespaces, hkept.declared,
      hkept'.declared, hkept.node, hkept'.node, ElementState.inherit,
      expression?_branch hds hds' hd.1, if_neg hd.2.1]
  obtain ⟨x, hx, rfl⟩ := Declarations.exists_of_declares hdeclared
  have hmem := Declarations.declaration_mem hx
  have hreads : ReadsNoTemplate env (s.declaration x.directive) := by
    rw [ElementState.declaration, hkept.declared]
    exact (Declarations.aloof_of_foldlM haloof hds _ hmem).evaluation hd.2.2
  exact ElementState.evaluateExpression_alike hfocus hreads (by rw [hprimary]; simpa using hkey)

end Resolved

end Branches

/-- A branch of an element is fetched, and is required, where the element
is. -/
theorem required_branch {s s' : ElementState} {b : Option Nat} (hdocs : 0 < env.docs.size)
    (hsource : env.docs[key]? = some source) (hkey : key ≠ templateKey)
    (haloof : t.element.Aloof env) (h : state env parent t = .ok s)
    (hprimary : s.sources.primary = some key)
    (h' : state env { parent with multiBranch := b } (t.mapElement (·.removeDirective .multi)) =
      .ok s') : s'.fetch = s.fetch ∧ s'.required = s.required := by
  obtain ⟨ds, hds, -, hall, -⟩ := (state_eq_ok hdocs).1 h
  obtain ⟨ds', hds', -, hall', -⟩ := (state_eq_ok hdocs).1 h'
  have hsorted := Declarations.sorted_of_foldlM hds
  have hsorted' := Declarations.sorted_of_foldlM hds'
  have hvalue : ∀ d, d = .fetch ∨ d = .required → ds.declares d = true →
      Alike Eq (s.evaluateExpression (env.setTemplate t.document) d)
        (s'.evaluateExpression (env.setTemplate
          (t.mapElement (·.removeDirective .multi)).document) d) := fun d hd =>
    evaluateExpression_branch hds hds' hsource hkey hall hall' hprimary haloof
      (by rcases hd with rfl | rfl <;> decide)
  have hdeclares : ∀ d, d = .fetch ∨ d = .required → ds'.declares d = ds.declares d :=
    fun d hd => declares_branch hds hds' (by rcases hd with rfl | rfl <;> decide)
  exact ⟨ElementState.fetch_congr hsorted hall hsorted' hall' rfl (hdeclares .fetch (.inl rfl))
      (hvalue .fetch (.inl rfl)),
    ElementState.required_congr hsorted hall hsorted' hall' rfl rfl hdeclares hvalue⟩

/-! ## States -/

/-- The states of a copy and of the element that names one source. -/
structure Bound (key : XPath.DocKey) (s s' : ElementState) : Prop where
  abreast : ∃ ds, ElementState.Abreast ds (some key) (fun _ => False) s s'
  sources : s.sources = .single key
  sources' : s'.sources = .single key

theorem Bound.heritage_eq {s s' : ElementState} (h : Bound key s s') : s.heritage = s'.heritage := by
  obtain ⟨ds, habreast⟩ := h.abreast
  rw [habreast.eq, h.sources', ← h.sources]
  rfl

/-- Neither a refusal of what is required nor one of what is not passes from
one source to the other. -/
structure Untold (env : Environment) (m : String) (key : XPath.DocKey)
    (parent parent' : ElementState) (t : Tree) : Prop where
  optional : parent'.required = some false → parent.required = some false
  required : parent.required = some false →
    ∀ s, state (env.bindSource m key) parent' t = .ok s → s.required ≠ some true

section Copy

variable (hsource : env.docs[key]? = some source) (hkey : key ≠ templateKey)
  (hrebound : ElementState.Rebound env m key t.element parent parent')
  (hds : t.element.attributes.foldlM addDeclaration [] = .ok (⟨.sources, m⟩ :: ds))
  (haloof : ∀ x ∈ ds, Declared.Aloof env x)

include hsource hkey hrebound hds haloof

/-- All directives of a copy beside all of the element. -/
theorem resolveAll_copy (u u' : Document) :
    Alike (fun s s' => Bound key s s' ∧ s.declared = ds ∧ s'.declared = ⟨.sources, m⟩ :: ds)
      (ElementState.resolveAll (env.setTemplate u) (parent.inherit 0 ds) ds)
      (ElementState.resolveAll ((env.bindSource m key).setTemplate u')
        (parent'.inherit 0 (⟨.sources, m⟩ :: ds)) (⟨.sources, m⟩ :: ds)) := by
  obtain ⟨hsorted, hothers⟩ := Declarations.sorted_tail hds
  have hgroup : ((env.bindSource m key).setTemplate u').sources.group? m = some (.single key) :=
    (env.group?_bindSource m m key).trans (if_pos rfl)
  rw [ElementState.resolveAll_sources hgroup rfl]
  refine ((hrebound.abreast hsource hkey hds u').resolveAll (fun h => hkey (Option.some.inj h))
    haloof hsorted fun x hx => ⟨hx, hothers x hx⟩).results.mono (fun _ _ h => h)
      fun s s' ⟨habreast, hs, hs'⟩ => ?_
  have hkept := ElementState.kept_resolveAll hs
  have hkept' := ElementState.kept_resolveAll hs'
  have hnone : ¬ ∃ x ∈ ds, x.directive = .sources := fun ⟨x, hx, hd⟩ => hothers x hx hd
  exact ⟨⟨⟨ds, habreast⟩, (hkept.sources hnone).1.trans hrebound.sources, (hkept'.sources hnone).1⟩,
    hkept.declared, hkept'.declared.trans (ElementState.declared_bindNamespaces _ _ _)⟩

end Copy

theorem state_copy (hdocs : 0 < env.docs.size) (hsource : env.docs[key]? = some source)
    (hkey : key ≠ templateKey) (hrebound : ElementState.Rebound env m key t.element parent parent')
    (hds : t.element.attributes.foldlM addDeclaration [] = .ok ds)
    (hm : t.element.monikers = [m]) (haloof : t.element.Aloof env) (hdescribes : t.Describes)
    (huntold : Untold env m key parent parent' t) :
    Alike (Bound key) (state env parent (t.mapElement (·.removeDirective .sources)))
      (state (env.bindSource m key) parent' t) := by
  obtain ⟨rest, hrest, rfl⟩ := Declarations.foldlM_eraseP_sources hm (by simp) hds
  have haloof' : ∀ x ∈ rest, Declared.Aloof env x :=
    Declarations.aloof_of_foldlM (haloof.sublist List.eraseP_sublist) hrest
  have hall := resolveAll_copy hsource hkey hrebound hds haloof'
    (t.mapElement (·.removeDirective .sources)).document t.document
  have hunbound : ¬ ElementState.Unbound parent rest := by
    rintro ⟨-, -, hempty⟩
    rw [hrebound.sources] at hempty
    cases hempty
  have hunbound' := ElementState.not_unbound_cons parent' m rest
  have hdocs' : 0 < (env.bindSource m key).docs.size := hdocs
  refine (state_alike hdocs hdocs' hrest hds
    (iff_of_false hunbound hunbound') hall.results ?_).mono (fun _ _ h => h) fun _ _ h => h.1.1
  · rintro s s' ⟨⟨⟨⟨_, habreast⟩, hsingle, hsingle'⟩, hdeclared, hdeclared'⟩, -, hs'⟩
    have hfill : s'.declares .fill = s.declares .fill := habreast.declares (by decide)
    constructor
    · intro hvalid
      rw [habreast.eq]
      refine hvalid.rebind _ _ hfill (fun h => ?_) (fun _ _ _ => by rw [hsingle']; rfl) fun h => ?_
      · exact hvalid.required ⟨h.1, huntold.optional h.2⟩
      · rw [hdeclared'] at h
        cases h.2.2
    · intro hvalid
      have hself : s = { s' with sources := s.sources, declared := s.declared } := by
        rw [habreast.eq]
      rw [hself]
      refine hvalid.rebind _ _ hfill.symm (fun h => ?_) (fun _ _ _ => by rw [hsingle]; rfl) fun h => ?_
      · have hstate : state (env.bindSource m key) parent' t = .ok s' :=
          (state_eq_ok hdocs').2 ⟨_, hds, hunbound', hs', hvalid⟩
        exact huntold.required h.2 s' hstate h.1
      · obtain ⟨d, hsources, -, hd⟩ := hdescribes (by simpa using h.1) h.2.1
        rw [Element.declares, ← Declarations.declares_of_foldlM hds, Declarations.declares,
          Declarations.expression?_cons, if_neg hsources.symm, ← hdeclared, h.2.2] at hd
        cases hd

/-! ## Copies -/

theorem monikers_removeDirective {e : Element} {d : Directive} (hd : d ≠ .sources) :
    (e.removeDirective d).monikers = e.monikers := by
  rw [Element.monikers, Element.filter_removeDirective hd.symm]
  rfl

theorem declares_sources {e : Element} (hm : e.monikers = [m]) : e.declares .sources = true := by
  have hmem : m ∈ e.monikers := hm ▸ List.mem_singleton_self m
  obtain ⟨a, ha, -⟩ := List.mem_map.1 hmem
  exact List.any_eq_true.2 ⟨a, List.mem_filter.1 ha⟩

/-- More siblings of its name behind an element do not change what its path
finds in a document. -/
def SameBeside (docs : XPath.Documents) (above : ElementPath) (name : QName) (extra : Nat)
    (key : XPath.DocKey) : Prop :=
  key ≠ templateKey ∧ ∀ source, docs[key]? = some source → ∀ b a,
    source.findAll ((⟨above, b, a + extra⟩ : Place).path name) =
      source.findAll ((⟨above, b, a⟩ : Place).path name)

/-- A tree whose copy for one source, below `parent` and with `extra` more
siblings of its name, is to be compared with the tree itself below `parent'`. -/
structure Copied (env : Environment) (m : String) (key : XPath.DocKey) (above : ElementPath)
    (extra : Nat) (parent parent' : ElementState) (t : Tree) : Prop where
  rebound : ElementState.Rebound env m key t.element parent parent'
  declarations : ∃ ds, t.element.attributes.foldlM addDeclaration [] = .ok ds
  monikers : t.element.monikers = [m]
  aloof : t.forest.Aloof env
  describes : t.Describes
  untold : Untold env m key parent parent' t
  beside : SameBeside env.docs above t.element.name extra key
  kids : t.kids.Monikers fun x => x ≠ m ∧ ∀ g, env.sources.group? x = some g →
    ∀ k ∈ g.members, SameBeside env.docs above t.element.name extra k

section Copied

variable {above : ElementPath} {before after extra : Nat} (hdocs : 0 < env.docs.size)
  (h : Copied env m key above extra parent parent' t)

include hdocs h

theorem Copied.branch (hsource : env.docs[key]? = some source) {s' : ElementState}
    (hs' : state (env.bindSource m key) parent' t = .ok s') (hsources' : s'.sources = .single key)
    (i : Nat) :
    Copied env m key above extra { parent with multiBranch := some i }
      { parent' with multiBranch := some i } (t.mapElement (·.removeDirective .multi)) where
  rebound :=
    have hdeclares : ∀ {d : Directive}, d ≠ .multi →
        (t.element.removeDirective .multi).declares d = t.element.declares d :=
      Element.declares_removeDirective
    { sources := h.rebound.sources
      moniker := h.rebound.moniker
      namespaces := h.rebound.namespaces
      fetch := fun hd => h.rebound.fetch ((hdeclares (d := .fetch) (by decide)).symm.trans hd)
      required := fun hd =>
        h.rebound.required ((hdeclares (d := .required) (by decide)).symm.trans hd)
      multiBranch := fun _ => rfl }
  declarations := h.declarations.elim fun _ hds =>
    Declarations.exists_of_sublist List.eraseP_sublist hds []
  monikers := (monikers_removeDirective (by decide)).trans h.monikers
  aloof := Engine.Aloof.removeDirective h.aloof .multi
  describes := fun hclass hleaf =>
    have ⟨d, hd, hmulti, hdeclared⟩ := h.describes hclass hleaf
    ⟨d, hd, hmulti, (Element.declares_removeDirective hmulti).trans hdeclared⟩
  untold :=
    { optional := h.untold.optional
      required := fun hparent u hu => by
        have hdocs' : 0 < (env.bindSource m key).docs.size := hdocs
        rw [(required_branch hdocs' hsource h.beside.1 ((h.aloof.bindSource h.beside.1).1 _ rfl)
          hs' (by rw [hsources']; rfl) hu).2]
        exact h.untold.required hparent s' hs' }
  beside := h.beside
  kids := h.kids

/-- The copy and the element are walked alike where their branches are. -/
theorem Copied.sameWalk {fuel fuel' : Nat} {s s' : ElementState}
    (hs : state env parent (t.mapElement (·.removeDirective .sources)) = .ok s)
    (hbound : Bound key s s') (hfuel : t.weight ≤ fuel + 1) (hfuel' : t.weight ≤ fuel')
    (hcopies : s.multi ≠ .flag false → ∀ i b a,
      process env fuel { parent with multiBranch := some i } ⟨above, b, a + extra⟩
          ((t.mapElement (·.removeDirective .sources)).mapElement (·.removeDirective .multi)) =
        process (env.bindSource m key) fuel' { parent' with multiBranch := some i } ⟨above, b, a⟩
          (t.mapElement (·.removeDirective .multi))) :
    SameWalk env (env.bindSource m key) (process env fuel) (process (env.bindSource m key) fuel')
      parent parent' s s' ⟨above, before, after + extra⟩ ⟨above, before, after⟩
      (t.mapElement (·.removeDirective .sources)) t := by
  obtain ⟨_, habreast⟩ := hbound.abreast
  have hdeclares : s'.declares .fill = s.declares .fill := habreast.declares (by decide)
  have hprimary : s.sources.primary = some key := by rw [hbound.sources]; rfl
  have hmembers : ∀ k ∈ s.sources.members, SameBeside env.docs above t.element.name extra k := by
    intro k hk
    rw [hbound.sources] at hk
    rw [List.mem_singleton.1 hk]
    exact h.beside
  exact
    { fetch := (congrArg (·.fetch) habreast.eq).symm
      multi := (congrArg (·.multi) habreast.eq).symm
      required := (congrArg (·.required) habreast.eq).symm
      defer := (congrArg (·.defer) habreast.eq).symm
      fill := hdeclares.symm
      primary := by rw [hbound.sources, hbound.sources']
      docs := fun _ _ => rfl
      found := fun k u hk hu => (hmembers k (primary_mem hk)).2 u hu before after
      element := Element.stripDirectives_removeDirective t.element .sources
      line := rfl
      kids := rfl
      copies := fun hmulti copies => by
        have hname : (t.mapElement (·.removeDirective .sources)).element.name = t.element.name :=
          rfl
        refine replicate_congr hname (fun i b a => ?_) copies
        have hcopy := hcopies hmulti i (before + b) (a + after)
        rwa [Nat.add_assoc] at hcopy
      below := fun c hc b a => by
        have hle := Forest.weight_le_of_mem hc
        have hone := Tree.weight_removeDirective_lt (declares_sources h.monikers)
        have hzero : crowd s = 0 := crowd_of_nil (by rw [hbound.sources]; rfl)
        have hzero' : crowd s' = 0 := crowd_of_nil (by rw [hbound.sources']; rfl)
        rw [Tree.weight] at hone
        refine process_congr hdocs (K := SameBeside env.docs above t.element.name extra)
          (fun hk => hk.1 rfl) hbound.heritage_eq hmembers
          (fun k u hk hu => hk.2 u hu before after) (h.aloof.2.1.of_mem_trees hc)
          (Forest.AllKinds.mono (fun _ hk e he x hx => ?_) (h.kids.of_mem_trees hc))
          (by omega) (by omega)
        obtain ⟨hne, hgroup⟩ := hk e he x hx
        exact ⟨(env.group?_bindSource m x key).trans (if_neg hne), hgroup⟩
      value := fun u u' hfill => quiet_congr
        (ElementState.evalFill_alike hfill (hdeclares.trans hfill)
          (habreast.focus_eq (by decide) fun _ hp => hp)
          (aloof_fill hdocs hs (Engine.Aloof.removeDirective h.aloof .sources) hfill)
          fun hp => h.beside.1 (Option.some.inj (hprimary.symm.trans hp))) }

/-- A copy for one source is walked as the element that names this source
alone. -/
theorem Copied.process_eq (hsource : env.docs[key]? = some source) {fuel fuel' : Nat}
    (hfuel : t.weight ≤ fuel) (hfuel' : t.weight < fuel') :
    process env fuel parent ⟨above, before, after + extra⟩
        (t.mapElement (·.removeDirective .sources)) =
      process (env.bindSource m key) fuel' parent' ⟨above, before, after⟩ t := by
  induction fuel generalizing fuel' parent parent' before after t with
  | zero =>
    rw [Tree.weight] at hfuel
    omega
  | succ fuel ih =>
    obtain ⟨fuel', rfl⟩ : ∃ f, fuel' = f + 1 := ⟨fuel' - 1, by omega⟩
    obtain ⟨ds, hds⟩ := h.declarations
    have hstates := state_copy hdocs hsource h.beside.1 h.rebound hds h.monikers (h.aloof.1 _ rfl)
      h.describes h.untold
    simp only [process]
    cases hs : state env parent (t.mapElement (·.removeDirective .sources)) with
    | error stop =>
      cases hs' : state (env.bindSource m key) parent' t with
      | error stop' =>
        rw [state_error hs, state_error hs']
        exact Eq.refl (Except.error Stop.failed)
      | ok s' =>
        rw [hs, hs'] at hstates
        cases hstates
    | ok s =>
      rw [hs] at hstates
      obtain ⟨s', hs', hbound⟩ := hstates.exists_right
      rw [hs']
      have hsecondary : s.sources.secondary.isEmpty = true := by rw [hbound.sources]; rfl
      have hsecondary' : s'.sources.secondary.isEmpty = true := by rw [hbound.sources']; rfl
      refine (if_pos hsecondary).trans (Eq.trans ?_ (if_pos hsecondary').symm)
      refine (h.sameWalk hdocs hs hbound hfuel (by omega) fun hmulti i b a => ?_).walkElement_eq
      have hdeclared : t.element.declares .multi = true :=
        (Element.declares_removeDirective (by decide)).symm.trans
          (declares_multi_of_state hdocs hs hmulti)
      have hless := Tree.weight_removeDirective_lt hdeclared
      have hcomm : (t.mapElement (·.removeDirective .sources)).mapElement
          (·.removeDirective .multi) =
          (t.mapElement (·.removeDirective .multi)).mapElement (·.removeDirective .sources) :=
        congrArg (fun e => { t with element := e })
          (t.element.removeDirective_comm (by decide))
      rw [hcomm]
      exact ih (h.branch hdocs hsource hs' hbound.sources' i) (by omega) (by omega)

end Copied

end TreeWalk

end LabelTemplate
