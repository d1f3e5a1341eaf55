import LabelTemplate.Proofs.Walk.Directives
import LabelTemplate.Proofs.Walk.Splice
import LabelTemplate.Proofs.Walk.Weight

/-!
# What the walk on trees depends on

Each function of the walk on trees gives the same for two visits that agree on
the trees it visits.  It visits copies of an element only where the element
declares the directive that asks for them (`declares_multi_of_state`).
-/

namespace LabelTemplate

open Xml Outcome

namespace TreeWalk

theorem quiet_eq_ok {ε α : Type} {x : Except ε α} {a : α} : quiet x = .ok a ↔ x = .ok a :=
  mapError_eq_ok

theorem quiet_congr {ε ε' α : Type} {x : Except ε α} {y : Except ε' α} (h : Alike Eq x y) :
    quiet x = quiet y := by
  cases h with
  | ok h =>
    rw [h]
    rfl
  | error h => rfl

/-! ## Elements up to directives -/

theorem strip_setAttribute (e : Element) (name : QName) (value : String) :
    (e.setAttribute name value).stripDirectives =
      if isDirectiveAttribute ⟨name, value⟩ then e.stripDirectives
      else e.stripDirectives.setAttribute name value := by
  have hkeep : ∀ as : List Attribute,
      (Element.setAttribute.go name value as).filter (!isDirectiveAttribute ·) =
        if isDirectiveAttribute ⟨name, value⟩ then as.filter (!isDirectiveAttribute ·)
        else Element.setAttribute.go name value (as.filter (!isDirectiveAttribute ·)) := by
    intro as
    induction as with
    | nil =>
      by_cases h : isDirectiveAttribute ⟨name, value⟩ = true <;>
        simp [Element.setAttribute.go, h]
    | cons a as ih =>
      have hvalue : isDirectiveAttribute { a with value } = isDirectiveAttribute a := rfl
      by_cases hsame : a.name.sameExpanded name = true
      · have hname : isDirectiveAttribute ⟨name, value⟩ = isDirectiveAttribute a := by
          simp only [QName.sameExpanded, QName.hasName, Bool.and_eq_true, beq_iff_eq] at hsame
          simp only [isDirectiveAttribute, hsame.1]
        by_cases h : isDirectiveAttribute a = true <;>
          simp [Element.setAttribute.go, hsame, hname, hvalue, h]
      · by_cases h : isDirectiveAttribute a = true <;>
          by_cases h' : isDirectiveAttribute ⟨name, value⟩ = true <;>
          simp_all [Element.setAttribute.go]
  simp only [Element.stripDirectives, Element.setAttribute, hkeep]
  split <;> rfl

theorem strip_takeContent {e e' : Element} (h : e.stripDirectives = e'.stripDirectives)
    (as : List Attribute) (text : Option String) :
    (e.takeContent as text).stripDirectives = (e'.takeContent as text).stripDirectives := by
  have hattributes : ∀ (as : List Attribute) (e e' : Element),
      e.stripDirectives = e'.stripDirectives →
      (as.foldl (fun e a => e.setAttribute a.name a.value) e).stripDirectives =
        (as.foldl (fun e a => e.setAttribute a.name a.value) e').stripDirectives := by
    intro as
    induction as with
    | nil => exact fun _ _ h => h
    | cons a as ih =>
      intro e e' h
      refine ih _ _ ?_
      rw [strip_setAttribute, strip_setAttribute, h]
  have h := hattributes as e e' h
  simp only [Element.stripDirectives, Element.mk.injEq] at h
  simp only [Element.takeContent, Element.stripDirectives, Element.mk.injEq]
  exact ⟨h.1, h.2.1, h.2.2.1, trivial⟩

/-! ## The state of a tree -/

theorem spells_document (t : Tree) : Document.Spells t.document [0] t.forest :=
  Document.spells_graft (by simp) t.forest

variable {env : Environment} {parent s : ElementState} {t : Tree}

theorem attributes_document (hdocs : 0 < env.docs.size) (t : Tree) :
    (env.setTemplate t.document).template.attributes 0 = t.element.attributes := by
  rw [env.template_setTemplate hdocs, (spells_document t).attributes_eq]

theorem declarations_document (hdocs : 0 < env.docs.size) (t : Tree) :
    (env.setTemplate t.document).template.declarations 0 =
      (t.element.attributes.foldlM addDeclaration []).mapError
        (.node · (t.document.location 0)) := by
  rw [env.template_setTemplate hdocs, Document.declarations, (spells_document t).attributes_eq]

/-- What the checks of a state ask of the element itself. -/
theorem checked_document (hdocs : 0 < env.docs.size) (t : Tree) :
    (env.setTemplate t.document).template.name? 0 = some t.element.name ∧
      (env.setTemplate t.document).template.hasElementChildren 0 = t.kids.hasElement := by
  rw [env.template_setTemplate hdocs, Document.name?, (spells_document t).element?_eq]
  exact ⟨rfl, (spells_document t).hasElementChildren_eq⟩

theorem state_eq_ok (hdocs : 0 < env.docs.size) :
    state env parent t = .ok s ↔ ∃ ds, t.element.attributes.foldlM addDeclaration [] = .ok ds ∧
      ¬ ElementState.Unbound parent ds ∧
      ElementState.resolveAll (env.setTemplate t.document) (.inherit parent 0 ds) ds = .ok s ∧
        s.Valid parent (some t.element.name) t.kids.hasElement := by
  obtain ⟨hname, hinner⟩ := checked_document hdocs t
  rw [state, quiet_eq_ok, ElementState.resolve_eq_ok, declarations_document hdocs, hname, hinner]
  simp only [mapError_eq_ok]

theorem state_of_error {fault : NodeFault} (hdocs : 0 < env.docs.size)
    (h : t.element.attributes.foldlM addDeclaration [] = .error fault) :
    state env parent t = .error .failed := by
  rw [state, ElementState.resolve, declarations_document hdocs, h]
  rfl

theorem state_error {stop : Stop} (h : state env parent t = .error stop) : stop = .failed := by
  rw [state, quiet] at h
  cases hresolve : ElementState.resolve (env.setTemplate t.document) parent 0 with
  | ok s =>
    rw [hresolve] at h
    cases h
  | error e =>
    rw [hresolve] at h
    exact (Except.error.inj h).symm

theorem state_eq_of_alike {env' : Environment} {parent' : ElementState} {t' : Tree}
    (h : Alike Eq (state env parent t) (state env' parent' t')) :
    state env parent t = state env' parent' t' := by
  cases hs : state env parent t <;> cases hs' : state env' parent' t' <;> rw [hs, hs'] at h
  · rw [state_error hs, state_error hs']
  · cases h
  · cases h
  · cases h with
    | ok h => rw [h]

/-- The states of two trees side by side. -/
theorem state_alike {env' : Environment} {parent' : ElementState} {t' : Tree}
    {ds ds' : Declarations} {r : ElementState → ElementState → Prop} (hdocs : 0 < env.docs.size)
    (hdocs' : 0 < env'.docs.size) (hds : t.element.attributes.foldlM addDeclaration [] = .ok ds)
    (hds' : t'.element.attributes.foldlM addDeclaration [] = .ok ds')
    (hbound : ElementState.Unbound parent ds ↔ ElementState.Unbound parent' ds')
    (hall : Alike r (ElementState.resolveAll (env.setTemplate t.document) (parent.inherit 0 ds) ds)
      (ElementState.resolveAll (env'.setTemplate t'.document) (parent'.inherit 0 ds') ds'))
    (hvalid : ∀ s s', r s s' → (s.Valid parent (some t.element.name) t.kids.hasElement ↔
      s'.Valid parent' (some t'.element.name) t'.kids.hasElement)) :
    Alike r (state env parent t) (state env' parent' t') := by
  refine Related.mapError (ElementState.resolve_alike ?_ ?_ hbound hall fun s s' hs => ?_)
    fun _ _ _ => trivial
  · exact (declarations_document hdocs t).trans (mapError_eq_ok.2 hds)
  · exact (declarations_document hdocs' t').trans (mapError_eq_ok.2 hds')
  · obtain ⟨hname, hinner⟩ := checked_document hdocs t
    obtain ⟨hname', hinner'⟩ := checked_document hdocs' t'
    rw [hname, hinner, hname', hinner']
    exact hvalid s s' hs

/-- An element is repeated only where it says so. -/
theorem declares_multi_of_state (hdocs : 0 < env.docs.size) (h : state env parent t = .ok s)
    (hmulti : s.multi ≠ .flag false) : t.element.declares .multi = true := by
  have hdeclared := ElementState.declares_multi_of_resolve (quiet_eq_ok.1 h) hmulti
  rw [attributes_document hdocs] at hdeclared
  exact List.any_eq_true.2 hdeclared

/-- The sources of an element are those of its parent or a group that it
names. -/
theorem sources_of_state (hdocs : 0 < env.docs.size) (h : state env parent t = .ok s) :
    s.sources = parent.sources ∨ ∃ a ∈ t.element.attributes,
      Directive.sources.names a = true ∧ env.sources.group? a.value = some s.sources := by
  have hsources := ElementState.sources_of_resolve (quiet_eq_ok.1 h)
  rwa [attributes_document hdocs] at hsources

/-! ## The same visits -/

section Visits

variable {visit visit' : Visit} {state' parent' : ElementState} {place place' : Place} {t' : Tree}

theorem walkKids_congr {above above' : ElementPath} {f : Forest}
    (h : ∀ t ∈ f.trees, ∀ b a, visit s ⟨above, b, a⟩ t = visit' state' ⟨above', b, a⟩ t)
    (done : Forest) :
    walkKids visit s above done f = walkKids visit' state' above' done f := by
  induction f generalizing done with
  | nil => rfl
  | node kind line kids rest _ ih =>
    cases kind with
    | comment text => exact ih h _
    | element e =>
      simp only [walkKids]
      rw [h ⟨e, line, kids⟩ List.mem_cons_self]
      exact bind_congr fun left => ih (fun t ht => h t (List.mem_cons_of_mem _ ht)) _

theorem walkCopies_congr (hname : t.element.name = t'.element.name)
    (h : ∀ i b a, visit { s with multiBranch := some i } ⟨place.above, place.before + b,
        a + place.after⟩ t =
      visit' { state' with multiBranch := some i } ⟨place'.above, place'.before + b,
        a + place'.after⟩ t')
    (i copies : Nat) (done : Forest) :
    walkCopies visit s place t i copies done = walkCopies visit' state' place' t' i copies done := by
  induction copies generalizing i done with
  | zero => rfl
  | succ copies ih =>
    simp only [walkCopies]
    rw [← hname, h]
    exact bind_congr fun left => ih _ _

theorem replicate_congr (hname : t.element.name = t'.element.name)
    (h : ∀ i b a, visit { s with multiBranch := some i } ⟨place.above, place.before + b,
        a + place.after⟩ (t.mapElement (·.removeDirective .multi)) =
      visit' { state' with multiBranch := some i } ⟨place'.above, place'.before + b,
        a + place'.after⟩ (t'.mapElement (·.removeDirective .multi)))
    (copies : Nat) :
    replicate visit s place t copies = replicate visit' state' place' t' copies := by
  unfold replicate
  refine walkCopies_congr ?_ ?_ 0 (copies + 1) .nil
  · exact hname
  · exact h

theorem walkSources_congr {env' : Environment} {keys : List XPath.DocKey}
    (hname : t.element.name = t'.element.name)
    (h : ∀ key ∈ keys, ∀ a, visit (s.rebindSource key env) ⟨place.above, place.before,
        a + place.after⟩ t =
      visit' (state'.rebindSource key env') ⟨place'.above, place'.before, a + place'.after⟩ t')
    (done : Forest) :
    walkSources env visit s place t keys done =
      walkSources env' visit' state' place' t' keys done := by
  induction keys generalizing done with
  | nil => rfl
  | cons key keys ih =>
    simp only [walkSources]
    rw [← hname, h key List.mem_cons_self]
    exact bind_congr fun left => ih (fun k hk => h k (List.mem_cons_of_mem _ hk)) _

/-- Two elements that are walked alike: their states agree, their paths find
the same in the source, and so do the visits below them. -/
structure SameWalk (env env' : Environment) (visit visit' : Visit)
    (parent parent' s s' : ElementState) (place place' : Place) (t t' : Tree) : Prop where
  fetch : s.fetch = s'.fetch
  multi : s.multi = s'.multi
  required : s.required = s'.required
  defer : s.defer = s'.defer
  fill : s.declares .fill = s'.declares .fill
  primary : s.sources.primary = s'.sources.primary
  docs : ∀ key, s.sources.primary = some key → env.docs[key]? = env'.docs[key]?
  found : ∀ key source, s.sources.primary = some key → env.docs[key]? = some source →
    source.findAll (place.path t.element.name) = source.findAll (place'.path t'.element.name)
  element : t.element.stripDirectives = t'.element.stripDirectives
  line : t.line = t'.line
  kids : t.kids = t'.kids
  copies : s.multi ≠ .flag false → ∀ copies,
    replicate visit parent place t copies = replicate visit' parent' place' t' copies
  below : ∀ c ∈ t.kids.trees, ∀ b a, visit s ⟨place.path t.element.name, b, a⟩ c =
    visit' s' ⟨place'.path t'.element.name, b, a⟩ c
  value : ∀ u u' : Tree, s.declares .fill = true →
    quiet (s.evalFill (env.setTemplate u.document)) =
      quiet (s'.evalFill (env'.setTemplate u'.document))

variable {env' : Environment} {s' : ElementState}

theorem SameWalk.name (h : SameWalk env env' visit visit' parent parent' s s' place place' t t') :
    t.element.name = t'.element.name :=
  congrArg (·.name) h.element

/-- Such elements are left alike when they stay. -/
theorem SameWalk.finishElement_eq
    (h : SameWalk env env' visit visit' parent parent' s s' place place' t t') {u u' : Tree}
    (helement : u.element.stripDirectives = u'.element.stripDirectives) (hline : u.line = u'.line)
    (hname : u.element.name = t.element.name) (hkids : u.kids = t.kids)
    (hkids' : u'.kids = t'.kids) :
    finishElement env visit s place u = finishElement env' visit' s' place' u' := by
  have hname' : u'.element.name = t'.element.name :=
    ((congrArg (·.name) helement).symm.trans hname).trans h.name
  have htext : u.element.text = u'.element.text := congrArg (·.text) helement
  have hsame : ∀ kids, ({ u with kids }.mapElement (·.stripDirectives)).forest =
      ({ u' with kids }.mapElement (·.stripDirectives)).forest := fun kids => by
    simp only [Tree.forest, Tree.mapElement, helement, hline]
  have hself : (u.mapElement (·.stripDirectives)).forest =
      (u'.mapElement (·.stripDirectives)).forest := by
    simp only [Tree.forest, Tree.mapElement, helement, hline, hkids, hkids', h.kids]
  have htexts : ∀ text, ((u.mapElement ({ · with text })).mapElement (·.stripDirectives)).forest =
      ((u'.mapElement ({ · with text })).mapElement (·.stripDirectives)).forest := fun text => by
    simp only [Element.stripDirectives, Element.mk.injEq] at helement
    simp only [Tree.forest, Tree.mapElement, Element.stripDirectives, helement, hline, hkids, hkids',
      h.kids]
  unfold finishElement TreeWalk.walkContent
  rw [hkids, hkids', ← h.kids, hname, hname', htext, h.fill, h.defer]
  cases t.kids.hasElement with
  | true =>
    simp only [if_true, walkKids_congr h.below]
    cases walkKids visit' s' (place'.path t'.element.name) .nil t.kids with
    | error stop => rfl
    | ok kids => exact congrArg Except.ok (hsame kids)
  | false =>
    simp only [Bool.false_eq_true, if_false]
    by_cases hskip : (!s'.declares .fill || s'.defer) = true
    · simp only [hskip, if_true]
      exact congrArg Except.ok hself
    · have hdeclared : s.declares .fill = true := by
        rw [h.fill]
        simp only [Bool.or_eq_true, Bool.not_eq_true', not_or, Bool.not_eq_false] at hskip
        exact hskip.1
      simp only [hskip, h.value u u' hdeclared]
      cases quiet (s'.evalFill (env'.setTemplate u'.document)) with
      | error stop => rfl
      | ok v =>
        cases v with
        | none => exact congrArg Except.ok hself
        | some v =>
          change ((quiet (v.applyTo (u'.element.text.getD "")) >>= fun text =>
              Except.ok (u.mapElement ({ · with text := some text }))) >>= fun w =>
              Except.ok (w.mapElement (·.stripDirectives)).forest) =
            ((quiet (v.applyTo (u'.element.text.getD "")) >>= fun text =>
              Except.ok (u'.mapElement ({ · with text := some text }))) >>= fun w =>
              Except.ok (w.mapElement (·.stripDirectives)).forest)
          cases quiet (v.applyTo (u'.element.text.getD "")) with
          | error stop => rfl
          | ok text => exact congrArg Except.ok (htexts (some text))

/-- Such elements are walked alike. -/
theorem SameWalk.walkElement_eq
    (h : SameWalk env env' visit visit' parent parent' s s' place place' t t') :
    walkElement env visit parent s place t = walkElement env' visit' parent' s' place' t' := by
  have hstays := h.finishElement_eq h.element h.line rfl rfl rfl
  unfold walkElement
  rw [h.fetch, h.multi]
  cases s'.fetch with
  | false =>
    simp only [Bool.false_eq_true, if_false]
    cases hmulti : s'.multi with
    | flag b => exact hstays
    | count k =>
      have hcopies := h.copies (by rw [h.multi, hmulti]; exact nofun) (k - 1)
      simp only [hcopies, hstays]
  | true =>
    simp only [if_true]
    unfold TreeWalk.fetch
    rw [h.primary]
    cases hkey : s'.sources.primary with
    | none => rfl
    | some key =>
      rw [← h.primary] at hkey
      simp only [← h.docs key hkey]
      cases hsource : env.docs[key]? with
      | none => rfl
      | some source =>
        simp only [← h.found key source hkey hsource, h.required, h.multi, ← h.kids]
        cases source.findAll (place.path t.element.name) with
        | nil =>
          by_cases hrequired : s'.required = some true
          · simp only [hrequired, if_true]
            rfl
          · simp only [hrequired, if_false]
            rfl
        | cons m found =>
          cases found with
          | nil =>
            cases t.kids.hasElement with
            | true => exact hstays
            | false =>
              exact h.finishElement_eq (strip_takeContent h.element _ _) h.line
                (Element.name_takeContent _ _ _) rfl rfl
          | cons m' found =>
            by_cases hcount : s'.multi.expected?.any (· ≠ (m :: m' :: found).length) = true
            · simp only [hcount, if_true]
              rfl
            · have hmulti : s.multi ≠ .flag false := fun hflag => by
                rw [← h.multi, hflag] at hcount
                simp [Multi.expected?] at hcount
              simp only [hcount, h.copies hmulti]
              cases replicate visit' parent' place' t' ((m :: m' :: found).length - 1) with
              | error stop => rfl
              | ok left => rfl


end Visits

end TreeWalk

end LabelTemplate
