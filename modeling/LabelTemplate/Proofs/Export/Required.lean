import LabelTemplate.Proofs.Export.Retouched
import LabelTemplate.Proofs.Walk.Compared
import LabelTemplate.Proofs.Walk.Requiring

/-!
# Elements that are said to be required

Where nothing in a template says what is required, everything is.  To say so of an
element that is bound to a source and has elements inside it makes one difference
only: what is required there is left open until the export, so an element below
it that its source lacks is left out where it would be refused
(`Template.toXml_tellRequired`).

Below the element the states of both walks differ in what is required and in
nothing else (`DraftWalk.Above`).  The drafts are the same but for a decision of
which it is known that the element is required (`Draft.SameNeeds`), and so are
their labels.
-/

namespace LabelTemplate

open Xml Document Outcome
open ElementState (needed)
open TreeWalk (quiet)

/-! ## Trees -/

/-- The second forest is the first one with some elements told that they are
required, and nothing else in it says what is.  `bound` tells that a source is
bound above, `decided` that no such element is above; what stands below one
satisfies `Q`. -/
inductive Xml.Forest.Requires (pfx : Option String) (Q : Location → Prop) :
    (bound decided : Bool) → Forest → Forest → Prop
  | nil {b decided : Bool} : Requires pfx Q b decided .nil .nil
  | comment {b decided : Bool} (text : String) (line : Option Nat) (kids : Forest)
      {rest rest' : Forest} (hrest : Requires pfx Q b decided rest rest') :
      Requires pfx Q b decided (.node (.comment text) line kids rest)
        (.node (.comment text) line kids rest')
  | element {b decided : Bool} {e : Element} (he : e.declares .required = false)
      (line : Option Nat) (hq : decided = false → Q ⟨some e.name.localName, line⟩)
      {kids kids' rest rest' : Forest}
      (hkids : Requires pfx Q (b || e.declares .sources) decided kids kids')
      (hrest : Requires pfx Q b decided rest rest') :
      Requires pfx Q b decided (.node (.element e) line kids rest)
        (.node (.element e) line kids' rest')
  | told {b decided : Bool} {e : Element} (he : e.declares .required = false) (line : Option Nat)
      (hbound : (b || e.declares .sources) = true) {kids kids' rest rest' : Forest}
      (hinner : kids.hasElement = true) (hkids : Requires pfx Q true false kids kids')
      (hrest : Requires pfx Q b decided rest rest') :
      Requires pfx Q b decided (.node (.element e) line kids rest)
        (.node (.element (e.told pfx .required)) line kids' rest')

def Xml.Tree.Requires (pfx : Option String) (Q : Location → Prop) (bound decided : Bool)
    (t t' : Tree) : Prop :=
  t.forest.Requires pfx Q bound decided t'.forest

namespace Xml.Forest.Requires

variable {pfx : Option String} {Q : Location → Prop} {b decided : Bool} {f f' : Forest}

theorem hasElement_eq (h : Requires pfx Q b decided f f') : f'.hasElement = f.hasElement := by
  induction h with
  | nil => rfl
  | comment text line kids _ ih => exact ih
  | element he line hq _ _ _ _ => rfl
  | told he line hbound hinner _ _ _ _ => rfl

theorem named_eq (h : Requires pfx Q b decided f f') (name : QName) :
    f'.named name = f.named name := by
  induction h with
  | nil => rfl
  | comment text line kids _ ih => rw [named, named, ih]
  | element he line hq _ _ _ ih => rw [named, named, ih]
  | told he line hbound hinner _ _ _ ih =>
    rw [named, named, ih]
    rfl

/-- Without elements nothing can be told anything. -/
theorem eq_of_hasElement (h : Requires pfx Q b decided f f') (hleaf : f.hasElement = false) :
    f' = f := by
  induction h with
  | nil => rfl
  | comment text line kids _ ih => rw [ih hleaf]
  | element he line hq _ _ _ _ => cases hleaf
  | told he line hbound hinner _ _ _ _ => cases hleaf

/-- More sources may be bound above. -/
theorem bind (h : Requires pfx Q b decided f f') : Requires pfx Q true decided f f' := by
  induction h with
  | nil => exact .nil
  | comment text line kids _ ih => exact .comment text line kids ih
  | element he line hq _ _ ihkids ihrest => exact .element he line hq ihkids ihrest
  | told he line hbound hinner hkids _ _ ihrest => exact .told he line rfl hinner hkids ihrest

theorem decide (h : Requires pfx Q b decided f f') : Requires pfx Q b true f f' := by
  induction h with
  | nil => exact .nil
  | comment text line kids _ ih => exact .comment text line kids ih
  | element he line hq _ _ ihkids ihrest => exact .element he line nofun ihkids ihrest
  | told he line hbound hinner hkids _ _ ihrest => exact .told he line hbound hinner hkids ihrest

theorem withoutComments (h : Requires pfx Q b decided f f') :
    Requires pfx Q b decided f.withoutComments f'.withoutComments := by
  induction h with
  | nil => exact .nil
  | comment text line kids _ ih => exact ih
  | element he line hq _ _ ihkids ihrest => exact .element he line hq ihkids ihrest
  | @told _ _ e he line hbound kids _ _ _ hinner _ _ ihkids ihrest =>
    exact .told he line hbound ((Forest.hasElement_withoutComments kids).trans hinner) ihkids ihrest

theorem aloof {env : Environment} (h : Requires pfx Q b decided f f') (haloof : f.Aloof env) :
    f'.Aloof env := by
  induction h with
  | nil => trivial
  | comment text line kids _ ih => exact ⟨nofun, haloof.2.1, ih haloof.2.2⟩
  | element he line hq _ _ ihkids ihrest =>
    exact ⟨haloof.1, ihkids haloof.2.1, ihrest haloof.2.2⟩
  | told he line hbound hinner _ _ ihkids ihrest =>
    refine ⟨fun e' he' => ?_, ihkids haloof.2.1, ihrest haloof.2.2⟩
    cases he'
    exact (haloof.1 _ rfl).told rfl

end Xml.Forest.Requires

namespace Xml

variable {pfx : Option String} {Q : Location → Prop} {b decided : Bool} {t t' : Tree}

theorem Element.silent_removeDirective {e : Element} (he : e.declares .required = false)
    (d : Directive) (hd : .required ≠ d) : (e.removeDirective d).declares .required = false :=
  (Element.declares_removeDirective hd).trans he

/-- A copy of an element for some source: what it declares else stays. -/
theorem Tree.Requires.removeSources (ht : t.Requires pfx Q b decided t') :
    (t.mapElement (·.removeDirective .sources)).Requires pfx Q true decided
      (t'.mapElement (·.removeDirective .sources)) := by
  obtain ⟨e, line, kids⟩ := t
  obtain ⟨e', line', kids'⟩ := t'
  cases ht with
  | element he line hq hkids _ =>
    exact .element (Element.silent_removeDirective he _ (by decide)) line hq hkids.bind .nil
  | told he line hbound hinner hkids _ =>
    have htold : Forest.Requires pfx Q true decided _ _ :=
      .told (Element.silent_removeDirective he .sources (by decide)) line rfl hinner hkids .nil
    rwa [← Element.removeDirective_told (by decide)] at htold

theorem Tree.Requires.removeMulti (ht : t.Requires pfx Q b decided t') :
    (t.mapElement (·.removeDirective .multi)).Requires pfx Q b decided
      (t'.mapElement (·.removeDirective .multi)) := by
  obtain ⟨e, line, kids⟩ := t
  obtain ⟨e', line', kids'⟩ := t'
  have hsources : ∀ e : Element,
      (e.removeDirective .multi).declares .sources = e.declares .sources :=
    fun e => Element.declares_removeDirective (by decide)
  cases ht with
  | element he line hq hkids _ =>
    rw [← hsources] at hkids
    exact .element (Element.silent_removeDirective he _ (by decide)) line hq hkids .nil
  | told he line hbound hinner hkids _ =>
    rw [← hsources] at hbound
    have htold : Forest.Requires pfx Q b decided _ _ :=
      .told (Element.silent_removeDirective he .multi (by decide)) line hbound hinner hkids .nil
    rwa [← Element.removeDirective_told (by decide)] at htold

/-- What is told leaves the name of an element and what is a leaf. -/
theorem Tree.Requires.shape (ht : t.Requires pfx Q b decided t') :
    t'.element.name = t.element.name ∧ t'.element.namespaces = t.element.namespaces ∧
      t'.kids.hasElement = t.kids.hasElement := by
  obtain ⟨e, line, kids⟩ := t
  obtain ⟨e', line', kids'⟩ := t'
  cases ht with
  | element he line hq hkids _ => exact ⟨rfl, rfl, hkids.hasElement_eq⟩
  | told he line hbound hinner hkids _ => exact ⟨rfl, rfl, hkids.hasElement_eq⟩

end Xml

theorem retouching_requires (pfx : Option String) (Q : Location → Prop) :
    Retouching (Tree.Requires pfx Q false true) where
  namespaces h := h.shape.2.1
  withoutComments h := Forest.Requires.withoutComments h
  aloof h := Forest.Requires.aloof h

/-! ## Drafts -/

namespace Draft

/-- Drafts that differ in whether it is open that something is required which
turns out to be. -/
inductive SameNeeds : Draft → Draft → Prop
  | nil : SameNeeds .nil .nil
  | node (kind : NodeKind) (line : Option Nat) (fill : Option (Result (Option FillValue)))
      {required required' : Option (Result Bool)}
      (hrequired : required'.getD (.ok true) = required.getD (.ok true))
      {kids kids' rest rest' : Draft} (hkids : SameNeeds kids kids')
      (hrest : SameNeeds rest rest') :
      SameNeeds (.node kind line { fill, required } kids rest)
        (.node kind line { fill, required := required' } kids' rest')

variable {δ δ' ε ε' : Draft}

namespace SameNeeds

theorem refl (δ : Draft) : δ.SameNeeds δ := by
  induction δ with
  | nil => exact .nil
  | node kind line pending kids rest ihkids ihrest => exact .node kind line _ rfl ihkids ihrest

theorem append (h : δ.SameNeeds δ') (h' : ε.SameNeeds ε') : (δ ++ ε).SameNeeds (δ' ++ ε') := by
  induction h with
  | nil => exact h'
  | node kind line fill hrequired hkids _ _ ih => exact .node kind line fill hrequired hkids ih

theorem forest_eq (h : δ.SameNeeds δ') : δ'.forest = δ.forest := by
  induction h with
  | nil => rfl
  | node kind line fill hrequired _ _ ihkids ihrest => rw [forest, forest, ihkids, ihrest]

theorem filled (h : δ.SameNeeds δ') : Alike SameNeeds δ.filled δ'.filled := by
  induction h with
  | nil => exact .ok .nil
  | node kind line fill hrequired _ _ ihkids ihrest =>
    rw [Draft.filled, Draft.filled]
    refine (Related.refl (r := Eq) (fun _ => rfl) (write kind fill)).bind ?_
    rintro kind _ rfl
    exact ihkids.bind fun kids kids' hkids => ihrest.bind fun rest rest' hrest =>
      .ok (.node kind line none hrequired hkids hrest)

theorem pruned_eq (h : δ.SameNeeds δ') : δ'.pruned = δ.pruned := by
  induction h with
  | nil => rfl
  | node kind line fill hrequired _ _ ihkids ihrest =>
    rw [pruned, pruned, ihkids, ihrest, hrequired]

theorem prunedRoot_eq (h : δ.SameNeeds δ') : δ'.prunedRoot = δ.prunedRoot := by
  cases h with
  | nil => rfl
  | node kind line fill hrequired hkids _ =>
    rw [prunedRoot, prunedRoot, hkids.pruned_eq, hrequired]

/-- Their labels are the same. -/
theorem label (h : δ.SameNeeds δ') : Alike Eq δ.label δ'.label := by
  rw [Draft.label, Draft.label]
  refine h.filled.bind fun ε ε' hε => ?_
  rw [hε.prunedRoot_eq]
  exact .refl (fun _ => rfl) _

end SameNeeds

end Draft

/-- Both results are such drafts, or both walks fail; the first one may stop where
the second goes on, at an element that its source lacks. -/
inductive Excused (Q : Location → Prop) : Result Draft → Result Draft → Prop
  | ok {δ δ' : Draft} (h : δ.SameNeeds δ') : Excused Q (.ok δ) (.ok δ')
  | missing {at_ : Location} (hq : Q at_) (y : Result Draft) : Excused Q (.error (.missing at_)) y
  | error {stop stop' : TreeWalk.Stop} : Excused Q (.error stop) (.error stop')

namespace Excused

variable {Q : Location → Prop} {x y : Result Draft} {f g : Draft → Result Draft}

theorem refl (Q : Location → Prop) (x : Result Draft) : Excused Q x x := by
  cases x with
  | error stop => exact .error
  | ok δ => exact .ok (.refl δ)

theorem bind (h : Excused Q x y) (hnext : ∀ δ δ', δ.SameNeeds δ' → Excused Q (f δ) (g δ')) :
    Excused Q (x >>= f) (y >>= g) := by
  cases h with
  | ok h => exact hnext _ _ h
  | missing hq y => exact .missing hq _
  | error => exact .error

theorem comparison (Q : Location → Prop) :
    DraftWalk.Comparison Draft.SameNeeds (fun _ => False) (Excused Q) where
  nil := .nil
  append := .append
  named h name := by rw [h.forest_eq]
  spoilt_left _ h := h
  spoilt_right _ _ h := h
  spoilt_node _ _ _ h := h
  ok := .ok
  bind h hnext _ := h.bind hnext

/-- What is computed before may be related in any way. -/
theorem of_alike {α β : Type} {r : α → β → Prop} {x : Result α} {y : Result β}
    {f : α → Result Draft} {g : β → Result Draft} (h : Alike r x y)
    (hnext : ∀ a b, r a b → Excused Q (f a) (g b)) : Excused Q (x >>= f) (y >>= g) := by
  cases h with
  | ok h => exact hnext _ _ h
  | error => exact .error

/-- Labels are the same, unless the first walk stopped at a missing element. -/
theorem label (h : Excused Q x y) : Alike Eq (x >>= Draft.label) (y >>= Draft.label) ∨
    ∃ at_, Q at_ ∧ x = .error (.missing at_) := by
  cases h with
  | ok h => exact .inl h.label
  | missing hq y => exact .inr ⟨_, hq, rfl⟩
  | error => exact .inl (.error trivial)

end Excused

/-! ## The walk -/

namespace DraftWalk

/-- States from which the elements below inherit the same, but for what is
required: the first one says that everything is, the second one may leave it
open. -/
structure Above (bound decided : Bool) (s s' : ElementState) : Prop where
  heritage : s'.heritage = (s.needing (needed decided)).heritage
  required : s.required = some true
  outside : s.sources.Outside
  bound : bound = true → s.sources.isEmpty = false

/-- The same comment, or a tree and the one in which some elements are told that
they are required, below such states. -/
inductive Faces (env : Environment) (pfx : Option String) (Q : Location → Prop) :
    ElementState × Forest → ElementState × Forest → Prop
  | comment (s s' : ElementState) (text : String) (line : Option Nat) (kids : Forest) :
      Faces env pfx Q (s, .node (.comment text) line kids .nil)
        (s', .node (.comment text) line kids .nil)
  | tree {b decided : Bool} {s s' : ElementState} {t t' : Tree} (hs : Above b decided s s')
      (haloof : t.forest.Aloof env) (ht : t.Requires pfx Q b decided t') :
      Faces env pfx Q (s, t.forest) (s', t'.forest)

/-- What a visit leaves is the same, or excused. -/
abbrev PastTelling (env : Environment) (pfx : Option String) (Q : Location → Prop)
    (visit : Visit) : Prop :=
  Comparison.Visits (Excused Q) (Faces env pfx Q) visit visit

variable {env : Environment} {pfx : Option String} {Q : Location → Prop} {visit : Visit}
  {b decided : Bool} {s s' a a' : ElementState} {t t' : Tree} {site : Site}

theorem Faces.named_eq {v v' : ElementState × Forest} (h : Faces env pfx Q v v') (name : QName) :
    v'.2.named name = v.2.named name := by
  cases h with
  | comment => rfl
  | tree hs haloof ht => exact Forest.Requires.named_eq ht name

theorem faces_singles (hs : Above b decided s s') {f f' : Forest} (haloof : f.Aloof env)
    (h : f.Requires pfx Q b decided f') :
    List.Forall₂ (Faces env pfx Q) (f.singles.map (s, ·)) (f'.singles.map (s', ·)) := by
  induction h with
  | nil => exact .nil
  | comment text line kids _ ih =>
    exact .cons (.comment s s' text line kids) (ih hs haloof.2.2)
  | @element b decided e he line hq kids kids' _ _ hkids _ _ ih =>
    have ht : Tree.Requires pfx Q b decided ⟨e, line, kids⟩ ⟨e, line, kids'⟩ :=
      .element he line hq hkids .nil
    exact .cons (.tree hs ⟨haloof.1, haloof.2.1, trivial⟩ ht) (ih hs haloof.2.2)
  | @told b decided e he line hbound kids kids' _ _ hinner hkids _ _ ih =>
    have ht : Tree.Requires pfx Q b decided ⟨e, line, kids⟩ ⟨e.told pfx .required, line, kids'⟩ :=
      .told he line hbound hinner hkids .nil
    exact .cons (.tree hs ⟨haloof.1, haloof.2.1, trivial⟩ ht) (ih hs haloof.2.2)

theorem Above.branch (h : Above b decided s s') (i : Nat) :
    Above b decided { s with multiBranch := some i } { s' with multiBranch := some i } :=
  ⟨ElementState.heritage_branch h.heritage _, h.required, h.outside, h.bound⟩

theorem replicate_required (hvisit : PastTelling env pfx Q visit) (site : Site)
    (hs : Above b decided s s') (haloof : t.forest.Aloof env) (ht : t.Requires pfx Q b decided t')
    (copies : Nat) :
    Excused Q (replicate visit s site t copies) (replicate visit s' site t' copies) :=
  (Excused.comparison Q).replicate_compared hvisit
    (fun i => .tree (hs.branch i) (Engine.Aloof.removeDirective haloof .multi) ht.removeMulti)
    copies

theorem expandSources_required (hvisit : PastTelling env pfx Q visit) (site : Site)
    (hsources : a'.sources = a.sources) (hrequired : a.required = some true)
    (hout : a.sources.Outside)
    (hrebind : ∀ key, (a'.rebindSource key env).heritage =
      ((a.rebindSource key env).needing (needed decided)).heritage)
    (haloof : t.forest.Aloof env) (ht : t.Requires pfx Q b decided t') :
    Excused Q (expandSources env visit a site t) (expandSources env visit a' site t') := by
  refine (Excused.comparison Q).expandSources_compared hvisit hsources fun key hkey =>
    .tree (b := true) ⟨hrebind key, ?_, ?_, fun _ => ?_⟩
      (Engine.Aloof.removeDirective haloof .sources) ht.removeSources
  · rw [← hrequired, ElementState.rebindSource, ElementState.bindNamespaces]
    split <;> rfl
  · rw [ElementState.sources_rebindSource]
    exact SourceGroup.outside_single fun heq => hout.no_template (heq ▸ hkey)
  · rw [ElementState.sources_rebindSource]
    rfl

/-- The content of a leaf does not depend on what is required. -/
theorem finishElement_needing (r : Option Bool) (path : ElementPath)
    (hleaf : t.kids.hasElement = false) (required : Option (Result Bool)) :
    finishElement env visit (a.needing r) path t required =
      finishElement env visit a path t required := by
  have hvalue : (a.needing r).evalFill env = a.evalFill env := by
    have hdeclares : (a.needing r).declares .fill = a.declares .fill := rfl
    rw [ElementState.evalFill, ElementState.evalFill, hdeclares, ElementState.needing_eq,
      ElementState.evaluateExpression_retold rfl]
    simp only [ElementState.notCastable_retold (s := a) (d := .fill) rfl]
  have hfill : fill env (a.needing r) t.element.text = fill env a t.element.text := by
    rw [fill, fill, hvalue]
    rfl
  rw [finishElement, finishElement, hleaf, hfill]
  rfl

/-- States with which an element is walked alike, but for what is missing below
an element that was told that it is required. -/
structure Excusable (env : Environment) (Q : Location → Prop) (visit : Visit) (t t' : Tree)
    (s s' : ElementState) : Prop where
  inner : t'.kids.hasElement = t.kids.hasElement
  fetch : s'.fetch = s.fetch
  multi : s'.multi = s.multi
  sources : s'.sources = s.sources
  lacks : s.fetch = true → Excused Q (lacking s t) (lacking s' t')
  stays : ∀ path, Excused Q (finishElement env visit s path t (required env s))
    (finishElement env visit s' path t' (required env s'))
  fetched : ∀ path, Excused Q (finishElement env visit s path t none)
    (finishElement env visit s' path t' none)
  taken : ∀ path attributes text, t.kids.hasElement = false →
    Excused Q (finishElement env visit s path (t.mapElement (·.takeContent attributes text)) none)
      (finishElement env visit s' path (t'.mapElement (·.takeContent attributes text)) none)
  expanded : ∀ site,
    Excused Q (expandSources env visit s site t) (expandSources env visit s' site t')

theorem required_of_undeclared (h : s.declares .required = false) : required env s = none := by
  rw [required, h]
  rfl

theorem excusable_element (hvisit : PastTelling env pfx Q visit) {e : Element} {line : Option Nat}
    {kids kids' : Forest} (haloof : (⟨e, line, kids⟩ : Tree).forest.Aloof env)
    (he : e.declares .required = false)
    (hq : decided = false → Q ⟨some e.name.localName, line⟩)
    (hkids : kids.Requires pfx Q (b || e.declares .sources) decided kids')
    (hrequired : a.required = some true) (hundeclared : a.declares .required = false)
    (hout : a.sources.Outside)
    (hbound : (b || e.declares .sources) = true → a.sources.isEmpty = false) :
    Excusable env Q visit ⟨e, line, kids⟩ ⟨e, line, kids'⟩ a (a.needing (needed decided)) := by
  have hstays : ∀ (path : ElementPath) (e : Element), Excused Q
      (finishElement env visit a path ⟨e, line, kids⟩ none)
      (finishElement env visit (a.needing (needed decided)) path ⟨e, line, kids'⟩ none) := by
    intro path e
    by_cases hinner : kids.hasElement = true
    · exact (Excused.comparison Q).finishElement_compared hvisit rfl rfl hinner
        (hkids.hasElement_eq.trans hinner)
        (faces_singles ⟨rfl, hrequired, hout, hbound⟩ haloof.2.1 hkids)
        fun δ δ' hδ => .node _ line none rfl hδ .nil
    · have hleaf : kids.hasElement = false := Bool.eq_false_iff.2 hinner
      rw [hkids.eq_of_hasElement hleaf, finishElement_needing _ _ hleaf]
      exact .refl Q _
  refine ⟨hkids.hasElement_eq, rfl, rfl, rfl, fun _ => ?_, fun path => ?_,
    fun path => hstays path e, fun path _ _ _ => hstays path _, fun site => ?_⟩
  · rw [lacking, if_pos hrequired]
    cases decided with
    | false => exact .missing (hq rfl) _
    | true => exact .error
  · rw [required_of_undeclared hundeclared,
      required_of_undeclared (s := a.needing (needed decided)) hundeclared]
    exact hstays path e
  · have hrebind : ∀ key, ((a.needing (needed decided)).rebindSource key env).heritage =
        ((a.rebindSource key env).needing (needed decided)).heritage := by
      intro key
      unfold ElementState.rebindSource ElementState.bindNamespaces
      cases (some key).bind (env.docs[·]?) <;> rfl
    have hself : Tree.Requires pfx Q b decided ⟨e, line, kids⟩ ⟨e, line, kids'⟩ :=
      .element he line hq hkids .nil
    exact expandSources_required hvisit site rfl hrequired hout hrebind haloof hself

theorem excusable_told (hvisit : PastTelling env pfx Q visit) {e : Element} {line : Option Nat}
    {kids kids' : Forest} (haloof : (⟨e, line, kids⟩ : Tree).forest.Aloof env)
    (he : e.declares .required = false) (hinner : kids.hasElement = true)
    (hkids : kids.Requires pfx Q true false kids') (ha : a.Requires a') (hout : a.sources.Outside) :
    Excusable env Q visit ⟨e, line, kids⟩ ⟨e.told pfx .required, line, kids'⟩ a a' := by
  obtain ⟨key, hkey⟩ := ha.source
  have hbound : a.sources.isEmpty = false := by
    rw [SourceGroup.isEmpty, hkey]
    rfl
  have hbelow : kids.Requires pfx Q true a.fetch kids' := by
    cases a.fetch with
    | false => exact hkids
    | true => exact hkids.decide
  have hsame : a'.fetch = a.fetch ∧ a'.multi = a.multi ∧ a'.sources = a.sources ∧
      a'.required = needed a.fetch := by
    obtain ⟨ds, -, -, rfl⟩ := ha.eq
    exact ⟨rfl, rfl, rfl, rfl⟩
  have hstays : ∀ (path : ElementPath) (required required' : Option (Result Bool)),
      required'.getD (.ok true) = required.getD (.ok true) → Excused Q
        (finishElement env visit a path ⟨e, line, kids⟩ required)
        (finishElement env visit a' path ⟨e.told pfx .required, line, kids'⟩ required') :=
    fun path required required' hsame =>
      (Excused.comparison Q).finishElement_compared hvisit (Element.stripDirectives_told pfx _ e)
        rfl hinner (hkids.hasElement_eq.trans hinner)
        (faces_singles ⟨ha.heritage_eq, ha.required, hout, fun _ => hbound⟩ haloof.2.1 hbelow)
        fun δ δ' hδ => .node _ line none hsame hδ .nil
  refine ⟨hkids.hasElement_eq, hsame.1, hsame.2.1, hsame.2.2.1, fun hfetch => ?_, fun path => ?_,
    fun path => hstays path none none rfl, fun _ _ _ hleaf => ?_, fun site => ?_⟩
  · rw [lacking, lacking, if_pos ha.required, hsame.2.2.2, hfetch]
    exact .error
  · obtain ⟨hnone, htrue⟩ := ha.required_eq env
    rw [hnone, htrue]
    exact hstays path none _ rfl
  · rw [hinner] at hleaf
    cases hleaf
  · exact expandSources_required (b := true) hvisit site hsame.2.2.1 ha.required hout
      ha.rebindSource_heritage_eq haloof (.told he line rfl hinner hkids .nil)

/-- The states of an element where some elements are told that they are required. -/
theorem state_excusable (hdocs : 0 < env.docs.size)
    (hgroups : ∀ m g, env.sources.group? m = some g → g.primary.isSome = true)
    (hvisit : PastTelling env pfx Q visit) (hs : Above b decided s s') (haloof : t.forest.Aloof env)
    (ht : t.Requires pfx Q b decided t') :
    Alike (Excusable env Q visit t t') (state env s t) (state env s' t') := by
  have hparent : state env s' t' = state env (s.needing (needed decided)) t' :=
    TreeWalk.state_congr (t := t'.outline) (m := env.sources) hdocs hs.heritage.symm fun _ _ => rfl
  have helement : t.element.Aloof env := haloof.1 _ rfl
  rw [hparent]
  obtain ⟨e, line, kids⟩ := t
  obtain ⟨e', line', kids'⟩ := t'
  cases ht with
  | element he line hq hkids _ =>
    have hsame : state env (s.needing (needed decided)) ⟨e, line, kids'⟩ =
        state env (s.needing (needed decided)) ⟨e, line, kids⟩ := by
      rw [state, state, Tree.outline, Tree.outline, hkids.hasElement_eq]
    rw [hsame]
    refine (state_needing hdocs he hs.required (ElementState.needed_ne decided)).results.mono
      (fun _ _ h => h) ?_
    rintro a _ ⟨⟨rfl, hrequired, hundeclared⟩, ha, -⟩
    refine excusable_element hvisit haloof he hq hkids hrequired hundeclared
      (outside_of_state hdocs hs.outside helement ha) fun hbound => ?_
    refine bound_of_state hdocs hgroups (fun hnone => hs.bound ?_) ha
    have hnone : e.declares .sources = false := hnone
    rwa [hnone, Bool.or_false] at hbound
  | told he line hbound hinner hkids _ =>
    refine (state_requires hdocs hgroups hs.outside hs.required helement he
      (fun hnone => hs.bound ?_) hinner (hkids.hasElement_eq.trans hinner)
      (ElementState.needed_ne decided) pfx).results.mono (fun _ _ h => h) ?_
    · rwa [hnone, Bool.or_false] at hbound
    · rintro a a' ⟨haa', ha, -⟩
      exact excusable_told hvisit haloof he hinner hkids haa'
        (outside_of_state hdocs hs.outside helement ha)

/-! ### The whole walk -/

/-- With such states an element is walked alike, but for what is missing. -/
theorem walkElement_required (h : Excusable env Q visit t t' s s')
    {again again' : Nat → Result Draft}
    (hagain : ∀ copies, Excused Q (again copies) (again' copies)) (path : ElementPath) :
    Excused Q (walkElement env visit path again s t) (walkElement env visit path again' s' t') :=
  walkElement_related (R := Excused Q) (fun _ _ => .error) h.lacks h.fetch h.multi
    (congrArg (·.primary) h.sources) h.inner hagain (h.stays path) (h.fetched path) (h.taken path)

theorem process_required (hdocs : 0 < env.docs.size)
    (hgroups : ∀ m g, env.sources.group? m = some g → g.primary.isSome = true) (fuel : Nat) :
    PastTelling env pfx Q (process env fuel) := by
  induction fuel with
  | zero =>
    refine ⟨fun _ h => ?_, fun h => h.named_eq⟩
    cases h with
    | comment => exact .refl Q _
    | tree => exact .error
  | succ fuel ih =>
    refine ⟨fun site h => ?_, fun h => h.named_eq⟩
    cases h with
    | comment => exact .refl Q _
    | @tree _ _ s s' t t' hs haloof ht =>
      obtain ⟨hname, -, -⟩ := ht.shape
      change Excused Q (state env s t >>= _) (state env s' t' >>= _)
      refine .of_alike (state_excusable hdocs hgroups ih hs haloof ht) fun a a' ha => ?_
      rw [ha.sources, hname]
      split
      · exact walkElement_required ha (replicate_required ih site hs haloof ht) _
      · exact ha.expanded site

/-- Drafts of a document of which some elements are told that they are required. -/
theorem root_required (hdocs : 0 < env.docs.size)
    (hgroups : ∀ m g, env.sources.group? m = some g → g.primary.isSome = true)
    (haloof : t.forest.Aloof env) (ht : t.Requires pfx Q false true t') (fuel : Nat) :
    Excused Q (root env fuel t) (root env fuel t') := by
  have hroot : Above false true .root .root := ⟨rfl, rfl, ⟨.nil, List.not_mem_nil⟩, nofun⟩
  refine .of_alike
    (state_excusable hdocs hgroups (process_required hdocs hgroups fuel) hroot haloof ht)
    fun a a' ha => ?_
  rw [ha.sources]
  split
  · exact walkElement_required ha (fun _ => .error) _
  · exact .error

end DraftWalk

/-! ## The label -/

namespace Xml.Document

variable {d : Document} {n : NodeId} {pfx : Option String}

/-- The document with a node told that it is required. -/
def tellRequired (d : Document) (pfx : Option String) (n : NodeId) : Document :=
  d.updateElement n (·.told pfx .required)

/-- The node names a source. -/
def NamesSource (d : Document) (n : NodeId) : Prop :=
  ∃ e, d.element? n = some e ∧ e.declares .sources = true

/-- The node is an element with elements inside it, and it or an element above it
names a source. -/
structure BoundClass (d : Document) (n : NodeId) : Prop where
  inner : d.hasElementChildren n = true
  bound : ∃ m, Within d m n ∧ d.NamesSource m

/-- Some element below a node stands at a given place. -/
def HasBelow (d : Document) (n : NodeId) (at_ : Location) : Prop :=
  ∃ m, Below d n m ∧ d.isElement m = true ∧ d.location m = at_

/-- Below the node nothing is told anything, and everything stands below it. -/
theorem requires_below {ns : List NodeId} {f : Forest} (hf : Spells d ns f) (hd : d.Linked)
    (hnone : f.AllKinds fun k => ∀ e, k.element? = some e → e.declares .required = false)
    (hbelow : ∀ c ∈ ns, Below d n c) (b : Bool) :
    f.Requires pfx (d.HasBelow n) b false f := by
  induction hf generalizing b with
  | nil => exact .nil
  | @node m ns x kids rest hx hkids hrest ihkids ihrest =>
    obtain ⟨hkind, hnoneKids, hnoneRest⟩ := hnone
    have hm : Below d n m := hbelow m List.mem_cons_self
    have hrest' := ihrest hnoneRest (fun c hc => hbelow c (List.mem_cons_of_mem _ hc)) b
    cases hk : x.kind with
    | comment text => exact .comment text x.line kids hrest'
    | element e =>
      have hkind? : d.kind? m = some (.element e) := by rw [kind?_of_node? hx, hk]
      refine .element (hkind e (by rw [hk]; rfl)) x.line (fun _ => ⟨m, hm, ?_, ?_⟩)
        (ihkids hnoneKids (fun c hc => .step ((hd.parent_iff_child m c).2 ?_) hm) _) hrest'
      · rwa [children_of_node? hx]
      · rw [isElement, element?, hkind?]
        rfl
      · rw [location, hkind?, line?, hx]
        rfl

/-- Where a source is bound above the nodes or between them and `n`, it is bound
above their children or between those and `n`. -/
theorem bound_step (hd : d.Linked) {b : Bool} {m c : NodeId} {e : Element}
    (he : d.element? m = some e) (hc : d.parent? c = some m) (hcn : Within d c n)
    (h : b = true ∨ ∃ k, Within d m k ∧ Within d k n ∧ d.NamesSource k) :
    (b || e.declares .sources) = true ∨ ∃ k, Within d c k ∧ Within d k n ∧ d.NamesSource k := by
  rcases h with rfl | ⟨k, hmk, hkn, hnames⟩
  · exact .inl rfl
  · rcases within_or_below hcn hkn with hck | hkc
    · exact .inr ⟨k, hck, hkn, hnames⟩
    · -- the node that names a source is then `m` itself
      have hkm : k = m := by
        rcases hmk with rfl | hmk
        · rfl
        · cases hkc with
          | child hp => exact Option.some.inj (hp.symm.trans hc)
          | step hp hup =>
            cases Option.some.inj (hp.symm.trans hc)
            exact absurd (hmk.trans hup) (hd.acyclic m)
      subst hkm
      obtain ⟨e', he', hnames⟩ := hnames
      cases he.symm.trans he'
      exact .inl (by rw [hnames, Bool.or_true])

/-- At `n` itself a source that is bound above it or at it is bound. -/
theorem bound_self (hd : d.Linked) {b : Bool} {e : Element} (he : d.element? n = some e)
    (h : b = true ∨ ∃ k, Within d n k ∧ Within d k n ∧ d.NamesSource k) :
    (b || e.declares .sources) = true := by
  rcases h with rfl | ⟨k, hnk, hkn, hnames⟩
  · rfl
  · have hk : k = n := by
      rcases hnk with rfl | hnk
      · rfl
      · rcases hkn with rfl | hkn
        · rfl
        · exact absurd (hnk.trans hkn) (hd.acyclic n)
    subst hk
    obtain ⟨e', he', hnames⟩ := hnames
    cases he.symm.trans he'
    rw [hnames, Bool.or_true]

theorem BoundClass.bound_below_root (hn : d.BoundClass n) (hwf : d.WellFormed)
    (hroot : Within d d.root n) :
    ∃ k, Within d d.root k ∧ Within d k n ∧ d.NamesSource k := by
  obtain ⟨k, hkn, hnames⟩ := hn.bound
  refine ⟨k, (within_or_below hroot hkn).resolve_right fun habove => ?_, hkn, hnames⟩
  obtain ⟨p, hp⟩ := habove.exists_parent
  rw [hwf.root_parent] at hp
  cases hp

theorem spells_tellRequired (pfx : Option String) (hd : d.Linked)
    (hn : d.hasElementChildren n = true) {ns : List NodeId} {f : Forest} (hf : Spells d ns f)
    {b : Bool}
    (hnone : f.AllKinds fun k => ∀ e, k.element? = some e → e.declares .required = false)
    (hbound : ∀ c ∈ ns, Within d c n →
      b = true ∨ ∃ k, Within d c k ∧ Within d k n ∧ d.NamesSource k) :
    ∃ f', f.Requires pfx (d.HasBelow n) b true f' ∧ Spells (d.tellRequired pfx n) ns f' := by
  have hproper := hf.proper hd
  induction hf generalizing b with
  | nil => exact ⟨.nil, .nil, .nil⟩
  | @node m ns x kids rest hx hkids hrest ihkids ihrest =>
    obtain ⟨hkind, hproperKids, hproperRest⟩ := hproper
    obtain ⟨hnoneKind, hnoneKids, hnoneRest⟩ := hnone
    obtain ⟨rest', hrrest, hrest'⟩ := ihrest hnoneRest
      (fun c hc => hbound c (List.mem_cons_of_mem _ hc)) hproperRest
    have hx' : (d.tellRequired pfx n).node? m = some { x with
        kind := if n = m then x.kind.mapElement (·.told pfx .required) else x.kind } := by
      rw [tellRequired, updateElement, node?_updateNode, hx]
      split <;> rfl
    have hchild : ∀ c ∈ x.children, d.parent? c = some m := fun c hc =>
      (hd.parent_iff_child m c).2 (by rwa [children_of_node? hx])
    obtain ⟨kind, parent, children, line⟩ := x
    cases kind with
    | comment text =>
      have hnil : kids = .nil := by
        by_contra hne
        cases hkind hne
      subst hnil
      cases hkids
      have hsame : (if n = m then NodeKind.mapElement (·.told pfx .required) (.comment text)
          else .comment text) = .comment text := by
        split <;> rfl
      rw [hsame] at hx'
      exact ⟨_, .comment text line .nil hrrest, .node hx' .nil hrest'⟩
    | element e =>
      have he : d.element? m = some e := by
        rw [element?, kind?_of_node? hx]
        rfl
      have hnoneSelf : e.declares .required = false := hnoneKind e rfl
      by_cases hsame : n = m
      · subst hsame
        rw [if_pos rfl] at hx'
        have hinner : kids.hasElement = true := by
          rw [← hkids.any_isElement, ← children_of_node? hx]
          exact hn
        have hself : (b || e.declares .sources) = true :=
          bound_self hd he (hbound n List.mem_cons_self (within_self d n))
        have hkept : Spells (d.tellRequired pfx n) children kids :=
          (frame_updateElement d n n _).spells hd hkids fun c hc k hk => by
            have hne : k ≠ n := fun hkn =>
              hd.not_within_self_parent (hchild c hc) (hkn ▸ hk)
            exact ⟨hne, hne⟩
        exact ⟨_, .told hnoneSelf line hself hinner
          (requires_below hkids hd hnoneKids (fun c hc => .child (hchild c hc)) true) hrrest,
          .node hx' hkept hrest'⟩
      · rw [if_neg hsame] at hx'
        obtain ⟨kids', hrkids, hkids'⟩ := ihkids (b := b || e.declares .sources) hnoneKids
          (fun c hc hcn => bound_step hd he (hchild c hc) hcn
            (hbound m List.mem_cons_self (.inr (hcn.below (hchild c hc))))) hproperKids
        have hdecided : true = false → d.HasBelow n ⟨some e.name.localName, line⟩ := fun h => by
          cases h
        exact ⟨_, .element hnoneSelf line hdecided hrkids hrrest, .node hx' hkids' hrest'⟩

end Xml.Document

namespace Template

variable {fs : Files} {input : TemplateInput}

/-- Where nothing says what is required and no directive reads the template, to say
of an element that is bound to a source and has elements inside it that it is
required changes nothing: both templates have the same label, or neither has one.
The one exception is a template that is refused because some element below is not
in its source. -/
theorem toXml_tellRequired {given : SourceInput} {d : Document} {n : NodeId}
    (hgiven : input.template = some given) (hgives : given.Gives fs d)
    (htemplate : ∀ d, given = .document d → d.WellFormed) (haloof : input.Aloof fs)
    (hnone : ∀ e ∈ d.elements, e.declares .required = false) (hn : d.BoundClass n)
    (pfx : Option String) :
    ((build fs input >>= finalize).map (·.toXml)).toOption =
        ((build fs (input.withTemplate (some (.document (d.tellRequired pfx n)))
          input.options.keepTemplateComments) >>= finalize).map (·.toXml)).toOption ∨
      ∃ m err, Below d n m ∧ d.isElement m = true ∧ build fs input = .error err ∧
        err.Lacks (d.location m) := by
  have hwf : d.WellFormed := wellFormed_of_gives htemplate hgives
  have hwf' : (d.tellRequired pfx n).WellFormed := hwf.updateElement n _
  have htrees : ∀ t : Tree, Spells d [d.root] t.forest → ∃ t' : Tree,
      Spells (d.tellRequired pfx n) [d.root] t'.forest ∧
        t.Requires pfx (d.HasBelow n) false true t' := by
    intro t ht
    rw [elements_eq ht (ht.size_le hwf.linked)] at hnone
    obtain ⟨f', hrequires, hf'⟩ := spells_tellRequired (b := false) pfx hwf.linked hn.inner ht
      (Forest.allKinds_of_elements hnone) fun c hc hcn => by
        cases List.mem_singleton.1 hc
        exact .inr (hn.bound_below_root hwf hcn)
    obtain ⟨t', rfl⟩ : ∃ t' : Tree, f' = t'.forest := hf'.exists_tree hwf'.root_isElement
    exact ⟨t', hf', hrequires⟩
  refine (toXml_retouched (retouching_requires pfx (d.HasBelow n)) hgiven hgives htemplate haloof
    hwf' rfl htrees fun env hpos hgroups t t' haloof hrequires fuel =>
      (DraftWalk.root_required hpos hgroups haloof hrequires fuel).label).imp_right ?_
  rintro ⟨_, err, ⟨m, hbelow, helement, rfl⟩, hbuild, hlacks⟩
  exact ⟨m, err, hbelow, helement, hbuild, hlacks⟩

/-- A leaf that is fetched and one that is not, inside an element that is bound to
a source. -/
def fetchedInside : Document :=
  .ofTree [] { name := .plain "a" } none
    (.node (.element
      { name := .plain "e"
        attributes := [⟨⟨some directivePrefix, some directiveNamespace, "sources"⟩, "s"⟩] }) none
      (.node (.element
        { name := .plain "b"
          attributes := [⟨⟨some directivePrefix, some directiveNamespace, "fetch"⟩, "true()"⟩] })
        none .nil
        (.node (.element { name := .plain "c", text := some "2" }) none .nil .nil)) .nil)

/-- A leaf whose fill counts what the element around it says is true. -/
def countedInside : Document :=
  .ofTree [] { name := .plain "a" } none
    (.node (.element
      { name := .plain "e"
        attributes := [⟨⟨some directivePrefix, some directiveNamespace, "sources"⟩, "s"⟩] }) none
      (.node (.element
        { name := .plain "c"
          attributes := [⟨⟨some directivePrefix, some directiveNamespace, "fill"⟩,
            "count(pt:self()/../@*[. = 'true()'])"⟩] }) none .nil .nil) .nil)

/-- A source with one leaf, inside an element of a given name. -/
def leafInside (name : String) : Document :=
  .ofTree [] { name := .plain "a" } none
    (.node (.element { name := .plain name }) none
      (.node (.element { name := .plain "b", text := some "1" }) none .nil .nil) .nil)

def fromOne (template source : Document) : TemplateInput where
  template := some (.document template)
  sources := [⟨"s", [.document source]⟩]

theorem boundClass_fetchedInside : fetchedInside.BoundClass 1 :=
  ⟨by decide, 1, within_self _ 1, _, rfl, by decide⟩

/-- Where the source has the leaf that is fetched, both labels have its text. -/
theorem toXml_tellRequired_inSource : fetchedInside.BoundClass 1 ∧ ∃ label label' : Document,
    build {} (fromOne fetchedInside (leafInside "e")) >>= finalize = .ok label ∧
    build {} (fromOne (fetchedInside.tellRequired (some directivePrefix) 1) (leafInside "e")) >>=
      finalize = .ok label' ∧
    (leaves label label.root).map label.text? = [some "1", some "2"] ∧
    label.toXml = label'.toXml := by
  have hrun : ((build {} (fromOne fetchedInside (leafInside "e")) >>= finalize).toOption.any
      fun label => decide ((leaves label label.root).map label.text? = [some "1", some "2"])) =
        true := by
    decide +kernel
  obtain ⟨label, hlabel, htexts⟩ := (Option.any_eq_true _ _).1 hrun
  have hlabel := toOption_eq_some.1 hlabel
  have hproper : ∀ d, SourceInput.document fetchedInside = .document d → d.WellFormed := by
    rintro d hd
    cases hd
    refine wellFormed_ofTree ?_ []
    simp [Forest.Proper, NodeKind.isElement, NodeKind.element?]
  have haloof : (fromOne fetchedInside (leafInside "e")).Aloof {} := by
    refine TemplateInput.aloof_of_builtins rfl fun given d hgiven hgives => ?_
    cases hgiven
    cases hgives
    decide +kernel
  have hgives : SourceInput.Gives {} (.document fetchedInside) fetchedInside := rfl
  have hsame := (toXml_tellRequired rfl hgives hproper haloof (by decide) boundClass_fetchedInside
    (some directivePrefix)).resolve_right (by
      rintro ⟨_, _, _, _, hrefused, _⟩
      rw [hrefused] at hlabel
      cases hlabel)
  rw [hlabel] at hsame
  obtain ⟨label', hlabel', hxml⟩ := map_eq_ok.1 (toOption_eq_some.1 hsame.symm)
  exact ⟨boundClass_fetchedInside, label, label', hlabel, hlabel', of_decide_eq_true htexts,
    hxml.symm⟩

/-- To say that the element is required is not neutral.  Where the source lacks the
leaf that is fetched the template is refused, but the one that says so has a label
without the leaf; and a fill that reads the template sees the declaration. -/
theorem toXml_tellRequired_differs :
    (∀ e ∈ fetchedInside.elements, e.declares .required = false) ∧ fetchedInside.BoundClass 1 ∧
    (∀ n ∈ [0, 1], ∀ e, fetchedInside.element? n = some e → e.declares .fetch = false) ∧
    (build {} (fromOne fetchedInside (leafInside "p"))).toOption = none ∧
    (∃ label, build {} (fromOne (fetchedInside.tellRequired (some directivePrefix) 1)
        (leafInside "p")) >>= finalize = .ok label ∧
      (leaves label label.root).map label.text? = [some "2"]) ∧
    (∀ e ∈ countedInside.elements, e.declares .required = false) ∧ countedInside.BoundClass 1 ∧
    ∃ label label' : Document,
      build {} (fromOne countedInside (leafInside "e")) >>= finalize = .ok label ∧
      build {} (fromOne (countedInside.tellRequired (some directivePrefix) 1) (leafInside "e")) >>=
        finalize = .ok label' ∧
      (leaves label label.root).map label.text? = [some "0"] ∧
      (leaves label' label'.root).map label'.text? = [some "1"] := by
  have hrefused : (build {} (fromOne fetchedInside (leafInside "p"))).toOption.isNone = true := by
    decide +kernel
  have hleft : ((build {} (fromOne (fetchedInside.tellRequired (some directivePrefix) 1)
      (leafInside "p")) >>= finalize).toOption.any fun label =>
        decide ((leaves label label.root).map label.text? = [some "2"])) = true := by
    decide +kernel
  have hplain : ((build {} (fromOne countedInside (leafInside "e")) >>= finalize).toOption.any
      fun label => decide ((leaves label label.root).map label.text? = [some "0"])) = true := by
    decide +kernel
  have htold : ((build {} (fromOne (countedInside.tellRequired (some directivePrefix) 1)
      (leafInside "e")) >>= finalize).toOption.any fun label =>
        decide ((leaves label label.root).map label.text? = [some "1"])) = true := by
    decide +kernel
  obtain ⟨left, hleft, hleftTexts⟩ := (Option.any_eq_true _ _).1 hleft
  obtain ⟨label, hlabel, htexts⟩ := (Option.any_eq_true _ _).1 hplain
  obtain ⟨label', hlabel', htexts'⟩ := (Option.any_eq_true _ _).1 htold
  refine ⟨by decide, boundClass_fetchedInside, ?_, Option.isNone_iff_eq_none.1 hrefused,
    ⟨left, toOption_eq_some.1 hleft, of_decide_eq_true hleftTexts⟩, by decide,
    ⟨by decide, 1, within_self _ 1, _, rfl, by decide⟩, label, label', toOption_eq_some.1 hlabel,
    toOption_eq_some.1 hlabel', of_decide_eq_true htexts, of_decide_eq_true htexts'⟩
  simp only [List.mem_cons, List.not_mem_nil, or_false]
  rintro n (rfl | rfl) e he
  · cases he
    rfl
  · cases he
    rfl

end Template

end LabelTemplate
