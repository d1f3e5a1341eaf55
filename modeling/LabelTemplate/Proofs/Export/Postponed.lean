import LabelTemplate.Proofs.Export.Retouched
import LabelTemplate.Proofs.Walk.Compared
import LabelTemplate.Proofs.Walk.Deferral

/-!
# Fills that are written late

Where no directive reads the template, a fill can as well wait for the export:
the label is the same whether a leaf is told to defer its fill or not
(`Template.toXml_deferFill`).

The walk resolves the state of the leaf as before, but for what is deferred, and
the draft it makes keeps the value that would have been written at once
(`DraftWalk.root_deferred`).  A value that does not fit the text stops the walk in
one case and the export in the other, so runs that fail are related by
`Postponed`: what fails with fills written at once fails later at the latest.
-/

namespace LabelTemplate

open Xml Document Outcome
open TreeWalk (quiet)

/-! ## Trees -/

/-- The second forest is the first one with the fills of some leaves deferred. -/
inductive Xml.Forest.Defers (pfx : Option String) : Forest → Forest → Prop
  | nil : Defers pfx .nil .nil
  | comment (text : String) (line : Option Nat) (kids : Forest) {rest rest' : Forest}
      (hrest : Defers pfx rest rest') :
      Defers pfx (.node (.comment text) line kids rest) (.node (.comment text) line kids rest')
  | element (e : Element) (line : Option Nat) {kids kids' rest rest' : Forest}
      (hkids : Defers pfx kids kids') (hrest : Defers pfx rest rest') :
      Defers pfx (.node (.element e) line kids rest) (.node (.element e) line kids' rest')
  | leaf {e : Element} (he : e.Deferrable) (line : Option Nat) {kids rest rest' : Forest}
      (hleaf : kids.hasElement = false) (hrest : Defers pfx rest rest') :
      Defers pfx (.node (.element e) line kids rest)
        (.node (.element (e.deferred pfx)) line kids rest')

def Xml.Tree.Defers (pfx : Option String) (t t' : Tree) : Prop := t.forest.Defers pfx t'.forest

namespace Xml.Forest.Defers

variable {pfx : Option String} {f f' : Forest}

theorem refl (pfx : Option String) (f : Forest) : Defers pfx f f := by
  induction f with
  | nil => exact .nil
  | node kind line kids rest ihkids ihrest =>
    cases kind with
    | element e => exact .element e line ihkids ihrest
    | comment text => exact .comment text line kids ihrest

theorem hasElement_eq (h : Defers pfx f f') : f'.hasElement = f.hasElement := by
  induction h with
  | nil => rfl
  | comment text line kids _ ih => exact ih
  | element e line _ _ _ _ => rfl
  | leaf he line _ _ _ => rfl

theorem named_eq (h : Defers pfx f f') (name : QName) : f'.named name = f.named name := by
  induction h with
  | nil => rfl
  | comment text line kids _ ih => rw [named, named, ih]
  | element e line _ _ _ ih => rw [named, named, ih]
  | leaf he line _ _ ih =>
    rw [named, named, ih]
    rfl

/-- Without elements there is nothing to defer. -/
theorem eq_of_hasElement (h : Defers pfx f f') (hleaf : f.hasElement = false) : f' = f := by
  induction h with
  | nil => rfl
  | comment text line kids _ ih => rw [ih hleaf]
  | element e line _ _ _ _ => cases hleaf
  | leaf he line _ _ _ => cases hleaf

theorem withoutComments (h : Defers pfx f f') : f.withoutComments.Defers pfx f'.withoutComments := by
  induction h with
  | nil => exact .nil
  | comment text line kids _ ih => exact ih
  | element e line _ _ ihkids ihrest => exact .element e line ihkids ihrest
  | @leaf e he line kids _ _ hleaf _ ih =>
    exact .leaf he line (Forest.hasElement_withoutComments kids ▸ hleaf) ih

theorem aloof {env : Environment} (h : Defers pfx f f') (haloof : f.Aloof env) : f'.Aloof env := by
  induction h with
  | nil => trivial
  | comment text line kids _ ih => exact ⟨nofun, haloof.2.1, ih haloof.2.2⟩
  | element e line _ _ ihkids ihrest => exact ⟨haloof.1, ihkids haloof.2.1, ihrest haloof.2.2⟩
  | leaf he line _ _ ih =>
    refine ⟨fun e' he' => ?_, haloof.2.1, ih haloof.2.2⟩
    cases he'
    exact (haloof.1 _ rfl).deferred

end Xml.Forest.Defers

theorem Xml.Tree.Defers.removeDirective {pfx : Option String} {t t' : Tree} (ht : t.Defers pfx t')
    {d : Directive} (hfill : d ≠ .fill) (hdefer : d ≠ .defer) :
    (t.mapElement (·.removeDirective d)).Defers pfx (t'.mapElement (·.removeDirective d)) := by
  obtain ⟨e, line, kids⟩ := t
  obtain ⟨e', line', kids'⟩ := t'
  cases ht with
  | element e line hkids _ => exact .element _ line hkids .nil
  | leaf he line hleaf _ =>
    have hleaf : Forest.Defers pfx _ _ := .leaf (he.removeDirective hfill) line hleaf .nil
    rwa [← Element.removeDirective_deferred hdefer e] at hleaf

/-- Fills that wait leave the name of an element and what is a leaf. -/
theorem Xml.Tree.Defers.shape {pfx : Option String} {t t' : Tree} (ht : t.Defers pfx t') :
    t'.element.name = t.element.name ∧ t'.element.namespaces = t.element.namespaces ∧
      t'.kids.hasElement = t.kids.hasElement := by
  obtain ⟨e, line, kids⟩ := t
  obtain ⟨e', line', kids'⟩ := t'
  cases ht with
  | element e line hkids _ => exact ⟨rfl, rfl, hkids.hasElement_eq⟩
  | leaf he line _ _ => exact ⟨rfl, rfl, rfl⟩

theorem retouching_defers (pfx : Option String) : Retouching (Tree.Defers pfx) where
  namespaces h := h.shape.2.1
  withoutComments h := Forest.Defers.withoutComments h
  aloof h := Forest.Defers.aloof h

/-! ## Drafts -/

namespace Draft

/-- Drafts of which the same comes when their fills are written. -/
structure Agrees (δ δ' : Draft) : Prop where
  named : ∀ name, δ'.forest.named name = δ.forest.named name
  filled : Alike Eq δ.filled δ'.filled

/-- Some fill of the draft fails. -/
def Unfillable (δ : Draft) : Prop := ∃ stop, δ.filled = .error stop

variable {δ δ' ε ε' : Draft}

theorem Agrees.refl (δ : Draft) : δ.Agrees δ := ⟨fun _ => rfl, .refl (fun _ => rfl) _⟩

theorem Agrees.append (h : δ.Agrees δ') (h' : ε.Agrees ε') : (δ ++ ε).Agrees (δ' ++ ε') where
  named name := by simp only [forest_append, Forest.named_append, h.named, h'.named]
  filled := by
    rw [filled_append, filled_append]
    refine h.filled.bind ?_
    rintro ζ _ rfl
    refine h'.filled.bind ?_
    rintro ζ' _ rfl
    exact .ok rfl

theorem Agrees.node (kind : NodeKind) (line : Option Nat) (pending : Pending)
    (h : δ.Agrees δ') :
    (Draft.node kind line pending δ .nil).Agrees (.node kind line pending δ' .nil) where
  named _ := rfl
  filled := by
    rw [Draft.filled, Draft.filled]
    refine (Related.refl (r := Eq) (fun _ => rfl) (write kind pending.fill)).bind ?_
    rintro kind _ rfl
    refine h.filled.bind ?_
    rintro ε _ rfl
    exact .ok rfl

theorem Unfillable.append_left (h : δ.Unfillable) (ε : Draft) : (δ ++ ε).Unfillable := by
  obtain ⟨stop, hδ⟩ := h
  exact ⟨stop, by rw [filled_append, hδ]; rfl⟩

theorem Unfillable.append_right (δ : Draft) (h : ε.Unfillable) : (δ ++ ε).Unfillable := by
  obtain ⟨stop, hε⟩ := h
  rw [Unfillable, filled_append, hε]
  cases δ.filled with
  | error stop => exact ⟨stop, rfl⟩
  | ok δ => exact ⟨stop, rfl⟩

theorem Unfillable.node (kind : NodeKind) (line : Option Nat) (pending : Pending)
    (h : δ.Unfillable) (rest : Draft) : (Draft.node kind line pending δ rest).Unfillable := by
  obtain ⟨stop, hδ⟩ := h
  rw [Unfillable, filled, hδ]
  cases write kind pending.fill with
  | error stop => exact ⟨stop, rfl⟩
  | ok kind => exact ⟨stop, rfl⟩

end Draft

/-- Both results are drafts that agree; what fails with fills that are written at
once fails later at the latest with fills that are deferred. -/
inductive Postponed : Result Draft → Result Draft → Prop
  | ok {δ δ' : Draft} (h : δ.Agrees δ') : Postponed (.ok δ) (.ok δ')
  | late {stop : TreeWalk.Stop} {δ' : Draft} (h : δ'.Unfillable) :
      Postponed (.error stop) (.ok δ')
  | error {stop stop' : TreeWalk.Stop} : Postponed (.error stop) (.error stop')

namespace Postponed

variable {x y : Result Draft} {f g : Draft → Result Draft}

theorem refl (x : Result Draft) : Postponed x x := by
  cases x with
  | error stop => exact .error
  | ok δ => exact .ok (.refl δ)

theorem bind (h : Postponed x y) (hnext : ∀ δ δ', δ.Agrees δ' → Postponed (f δ) (g δ'))
    (hlate : ∀ δ' ε, δ'.Unfillable → g δ' = .ok ε → ε.Unfillable) :
    Postponed (x >>= f) (y >>= g) := by
  cases h with
  | ok h => exact hnext _ _ h
  | error => exact .error
  | @late stop δ' h =>
    change Postponed (.error stop) (g δ')
    cases hg : g δ' with
    | error stop' => exact .error
    | ok ε => exact .late (hlate δ' ε h hg)

theorem comparison : DraftWalk.Comparison Draft.Agrees Draft.Unfillable Postponed where
  nil := .refl .nil
  append := .append
  named h := h.named
  spoilt_left ε h := h.append_left ε
  spoilt_right δ _ h := h.append_right δ
  spoilt_node kind line pending h := h.node kind line pending .nil
  ok := .ok
  bind := bind

/-- What is computed before may be related in any way. -/
theorem of_alike {α β : Type} {r : α → β → Prop} {x : Result α} {y : Result β}
    {f : α → Result Draft} {g : β → Result Draft} (h : Alike r x y)
    (hnext : ∀ a b, r a b → Postponed (f a) (g b)) : Postponed (x >>= f) (y >>= g) := by
  cases h with
  | ok h => exact hnext _ _ h
  | error => exact .error

/-- Labels are the same in the end. -/
theorem label (h : Postponed x y) : Alike Eq (x >>= Draft.label) (y >>= Draft.label) := by
  cases h with
  | error => exact .error trivial
  | @late stop δ' h =>
    obtain ⟨stop', hfails⟩ := h
    change Alike Eq (Except.error stop) δ'.label
    rw [Draft.label, hfails]
    exact .error trivial
  | @ok δ δ' h =>
    change Alike Eq δ.label δ'.label
    rw [Draft.label, Draft.label]
    refine h.filled.bind ?_
    rintro ε _ rfl
    exact .refl (fun _ => rfl) _

end Postponed

/-! ## The walk -/

namespace DraftWalk

/-! ### Trees side by side -/

/-- States from which the elements below inherit the same. -/
structure SameAbove (s s' : ElementState) : Prop where
  heritage : s'.heritage = s.heritage
  outside : s.sources.Outside

/-- The same comment, or a tree and the one with some fills deferred, below such
states. -/
inductive Put (env : Environment) (pfx : Option String) :
    ElementState × Forest → ElementState × Forest → Prop
  | comment (s s' : ElementState) (text : String) (line : Option Nat) (kids : Forest) :
      Put env pfx (s, .node (.comment text) line kids .nil) (s', .node (.comment text) line kids .nil)
  | tree {s s' : ElementState} {t t' : Tree} (hs : SameAbove s s') (haloof : t.forest.Aloof env)
      (ht : t.Defers pfx t') : Put env pfx (s, t.forest) (s', t'.forest)

/-- What a visit leaves agrees with what it leaves where a fill is deferred. -/
abbrev PastDeferral (env : Environment) (pfx : Option String) (visit : Visit) : Prop :=
  Comparison.Visits Postponed (Put env pfx) visit visit

variable {env : Environment} {pfx : Option String} {visit : Visit} {s s' : ElementState}
  {t t' : Tree}

theorem Put.named_eq {v v' : ElementState × Forest} (h : Put env pfx v v') (name : QName) :
    v'.2.named name = v.2.named name := by
  cases h with
  | comment => rfl
  | tree hs haloof ht => exact Forest.Defers.named_eq ht name

theorem put_singles (hs : SameAbove s s') {f f' : Forest} (haloof : f.Aloof env)
    (h : f.Defers pfx f') :
    List.Forall₂ (Put env pfx) (f.singles.map (s, ·)) (f'.singles.map (s', ·)) := by
  induction h with
  | nil => exact .nil
  | comment text line kids _ ih => exact .cons (.comment s s' text line kids) (ih haloof.2.2)
  | @element e line kids kids' _ _ hkids _ _ ih =>
    have ht : Tree.Defers pfx ⟨e, line, kids⟩ ⟨e, line, kids'⟩ := .element e line hkids .nil
    exact .cons (.tree hs ⟨haloof.1, haloof.2.1, trivial⟩ ht) (ih haloof.2.2)
  | @leaf e he line kids _ _ hleaf _ ih =>
    have ht : Tree.Defers pfx ⟨e, line, kids⟩ ⟨e.deferred pfx, line, kids⟩ :=
      .leaf he line hleaf .nil
    exact .cons (.tree hs ⟨haloof.1, haloof.2.1, trivial⟩ ht) (ih haloof.2.2)

theorem replicate_deferred (hvisit : PastDeferral env pfx visit) (site : Site)
    (hs : SameAbove s s') (haloof : t.forest.Aloof env) (ht : t.Defers pfx t') (copies : Nat) :
    Postponed (replicate visit s site t copies) (replicate visit s' site t' copies) :=
  Postponed.comparison.replicate_compared hvisit (fun i => .tree
    ⟨ElementState.heritage_branch hs.heritage _, hs.outside⟩
    (Engine.Aloof.removeDirective haloof .multi) (ht.removeDirective (by decide) (by decide)))
    copies

theorem expandSources_deferred (hvisit : PastDeferral env pfx visit) (site : Site)
    (hsources : s'.sources = s.sources) (hout : s.sources.Outside)
    (hrebind : ∀ key, (s'.rebindSource key env).heritage = (s.rebindSource key env).heritage)
    (haloof : t.forest.Aloof env) (ht : t.Defers pfx t') :
    Postponed (expandSources env visit s site t) (expandSources env visit s' site t') := by
  refine Postponed.comparison.expandSources_compared hvisit hsources fun key hkey =>
    .tree ⟨hrebind key, ?_⟩ (Engine.Aloof.removeDirective haloof .sources)
      (ht.removeDirective (by decide) (by decide))
  rw [ElementState.sources_rebindSource]
  exact SourceGroup.outside_single fun heq => hout.no_template (heq ▸ hkey)

/-! ### An element that stays -/

/-- Where a fill is deferred below an element. -/
theorem finishElement_element (hvisit : PastDeferral env pfx visit) (path : ElementPath)
    (hout : s.sources.Outside) (e : Element) (line : Option Nat) {kids kids' : Forest}
    (haloof : kids.Aloof env) (hkids : kids.Defers pfx kids') (required : Option (Result Bool)) :
    Postponed (finishElement env visit s path ⟨e, line, kids⟩ required)
      (finishElement env visit s path ⟨e, line, kids'⟩ required) := by
  by_cases hinner : kids.hasElement = true
  · exact Postponed.comparison.finishElement_compared hvisit rfl rfl hinner
      (hkids.hasElement_eq.trans hinner) (put_singles ⟨rfl, hout⟩ haloof hkids)
      fun ε ε' hε => hε.node _ _ _
  · rw [hkids.eq_of_hasElement (Bool.eq_false_iff.2 hinner)]
    exact .refl _

/-- Where the fill of the element itself is deferred: it is written with the
value that it would have been given at once. -/
theorem finishElement_leaf (t t' : Tree) (hs : s.Defers s') (path : ElementPath)
    (hstrip : t'.element.stripDirectives = t.element.stripDirectives) (hline : t'.line = t.line)
    (hkids : t'.kids = t.kids) (hleaf : t.kids.hasElement = false)
    (required : Option (Result Bool)) :
    Postponed (finishElement env visit s path t required)
      (finishElement env visit s' path t' required) := by
  have htext : t'.element.text = t.element.text := congrArg (·.text) hstrip
  have hfill' : s'.declares .fill = true := by rw [hs.declares_eq (by decide), hs.fill]
  have hdefer' : s'.defer = true := by
    obtain ⟨ds, rfl, -⟩ := hs.eq
    rfl
  have hlate : fill env s' t.element.text = .ok (t.element.text, some (quiet (s.evalFill env))) := by
    rw [fill, hfill', hdefer', hs.quiet_evalFill_eq]
    rfl
  have honce : fill env s t.element.text = quiet (s.evalFill env) >>= fun value =>
      value.elim (.ok (t.element.text, none)) fun v =>
        quiet (v.applyTo (t.element.text.getD "")) >>= fun text => .ok (some text, none) := by
    rw [fill, hs.fill, hs.defer]
    refine bind_congr fun value => ?_
    cases value <;> rfl
  rw [finishElement, finishElement, hkids, hleaf, htext, hlate, honce, hstrip, hline]
  simp only [Bool.false_eq_true, if_false]
  cases quiet (s.evalFill env) with
  | error stop => exact .late ⟨stop, rfl⟩
  | ok value =>
    cases value with
    | none => exact .ok ⟨fun _ => rfl, .refl (fun _ => rfl) _⟩
    | some v =>
      let leaf (text : Option String) (fill : Option (Result (Option FillValue))) : Draft :=
        .node (.element { t.element.stripDirectives with text }) t.line { fill, required }
          (.ofForest t.kids) .nil
      have hlater : (leaf t.element.text (some (.ok (some v)))).filled =
          quiet (v.applyTo (t.element.text.getD "")) >>= fun text =>
            (leaf (some text) none).filled := by
        change (quiet (v.applyTo (t.element.text.getD "")) >>= _) >>= _ = _
        cases quiet (v.applyTo (t.element.text.getD "")) <;> rfl
      change Postponed ((quiet (v.applyTo (t.element.text.getD "")) >>= fun text =>
        .ok (some text, none)) >>= fun p => .ok (leaf p.1 p.2))
          (.ok (leaf t.element.text (some (.ok (some v)))))
      cases hfits : quiet (v.applyTo (t.element.text.getD "")) with
      | error stop =>
        -- the value does not fit the text, which now shows when it is written
        exact .late ⟨stop, by rw [hlater, hfits]; rfl⟩
      | ok text =>
        rw [hfits] at hlater
        have hsame : (leaf t.element.text (some (.ok (some v)))).filled =
            (leaf (some text) none).filled := hlater
        refine .ok ⟨fun _ => rfl, ?_⟩
        rw [hsame]
        exact .refl (fun _ => rfl) _

/-! ### The states of an element -/

/-- States with which an element is walked alike but for a fill that waits. -/
structure Onward (env : Environment) (visit : Visit) (t t' : Tree) (s s' : ElementState) :
    Prop where
  heritage : s'.heritage = s.heritage
  multi : s'.multi = s.multi
  required : required env s' = required env s
  rebound : ∀ key, (s'.rebindSource key env).heritage = (s.rebindSource key env).heritage
  outside : s.sources.Outside
  stays : ∀ path required, Postponed (finishElement env visit s path t required)
    (finishElement env visit s' path t' required)
  taken : ∀ path attributes text, t.kids.hasElement = false →
    Postponed (finishElement env visit s path (t.mapElement (·.takeContent attributes text)) none)
      (finishElement env visit s' path (t'.mapElement (·.takeContent attributes text)) none)

theorem onward_element (hvisit : PastDeferral env pfx visit) (hout : s.sources.Outside)
    (e : Element) (line : Option Nat) {kids kids' : Forest} (haloof : kids.Aloof env)
    (hkids : kids.Defers pfx kids') :
    Onward env visit ⟨e, line, kids⟩ ⟨e, line, kids'⟩ s s where
  heritage := rfl
  multi := rfl
  required := rfl
  rebound _ := rfl
  outside := hout
  stays path required := finishElement_element hvisit path hout e line haloof hkids required
  taken path attributes text _ :=
    finishElement_element hvisit path hout (e.takeContent attributes text) line haloof hkids none

theorem onward_leaf (hs : s.Defers s') (hout : s.sources.Outside) (e : Element)
    (line : Option Nat) {kids : Forest} (hleaf : kids.hasElement = false) :
    Onward env visit ⟨e, line, kids⟩ ⟨e.deferred pfx, line, kids⟩ s s' where
  heritage := hs.heritage_eq
  multi := by
    obtain ⟨ds, rfl, -⟩ := hs.eq
    rfl
  required := hs.required_eq
  rebound := hs.rebindSource_heritage_eq
  outside := hout
  stays path required := finishElement_leaf ⟨e, line, kids⟩ ⟨e.deferred pfx, line, kids⟩ hs path
    (Element.stripDirectives_deferred pfx e) rfl rfl
    hleaf required
  taken path attributes text _ := finishElement_leaf ⟨e.takeContent attributes text, line, kids⟩
    ⟨(e.deferred pfx).takeContent attributes text, line, kids⟩ hs path
    (TreeWalk.strip_takeContent (Element.stripDirectives_deferred pfx e) attributes text) rfl rfl
    hleaf none

/-- The states of an element with and without fills that wait. -/
theorem state_onward (hdocs : 0 < env.docs.size)
    (hgroups : ∀ m g, env.sources.group? m = some g → g.primary.isSome = true)
    (hvisit : PastDeferral env pfx visit) (hs : SameAbove s s') (haloof : t.forest.Aloof env)
    (ht : t.Defers pfx t') :
    Alike (Onward env visit t t') (state env s t) (state env s' t') := by
  have hparent : state env s' t' = state env s t' :=
    TreeWalk.state_congr (t := t'.outline) (m := env.sources) hdocs hs.heritage.symm fun _ _ => rfl
  have helement : t.element.Aloof env := haloof.1 _ rfl
  rw [hparent]
  obtain ⟨e, line, kids⟩ := t
  obtain ⟨e', line', kids'⟩ := t'
  cases ht with
  | element e line hkids _ =>
    have hsame : state env s ⟨e, line, kids'⟩ = state env s ⟨e, line, kids⟩ := by
      rw [state, state, Tree.outline, Tree.outline, hkids.hasElement_eq]
    rw [hsame]
    refine (Related.refl (r := Eq) (fun _ => rfl) _).results.mono (fun _ _ h => h) ?_
    rintro a _ ⟨rfl, ha, -⟩
    exact onward_element hvisit (outside_of_state hdocs hs.outside helement ha) e line haloof.2.1
      hkids
  | leaf he line hleaf _ =>
    refine (state_deferred hdocs hgroups hs.outside he helement hleaf pfx).results.mono
      (fun _ _ h => h) ?_
    rintro a b ⟨hab, ha, -⟩
    exact onward_leaf hab (outside_of_state hdocs hs.outside helement ha) e line hleaf

/-! ### The whole walk -/

/-- With such states an element is walked alike but for fills that wait. -/
theorem walkElement_onward (h : Onward env visit t t' s s')
    {again again' : Nat → Result Draft} (hagain : ∀ copies, Postponed (again copies) (again' copies))
    (hinner : t'.kids.hasElement = t.kids.hasElement) (path : ElementPath) :
    Postponed (walkElement env visit path again s t) (walkElement env visit path again' s' t') := by
  have hsources : s'.sources = s.sources := congrArg (·.sources) h.heritage
  have hneeded : s'.required = s.required := congrArg (·.required) h.heritage
  have hstays := h.stays path (required env s)
  nth_rewrite 2 [← h.required] at hstays
  refine walkElement_related (R := Postponed) (fun _ _ => .error) (fun _ => ?_)
    (congrArg (·.fetch) h.heritage) h.multi (congrArg (·.primary) hsources) hinner hagain hstays
    (h.stays path none) (h.taken path)
  rw [lacking, lacking, hneeded]
  split
  · exact .error
  · exact .ok (.refl _)

theorem process_deferred (hdocs : 0 < env.docs.size)
    (hgroups : ∀ m g, env.sources.group? m = some g → g.primary.isSome = true) (fuel : Nat) :
    PastDeferral env pfx (process env fuel) := by
  induction fuel with
  | zero =>
    refine ⟨fun _ h => ?_, fun h => h.named_eq⟩
    cases h with
    | comment => exact .refl _
    | tree => exact .error
  | succ fuel ih =>
    refine ⟨fun site h => ?_, fun h => h.named_eq⟩
    cases h with
    | comment => exact .refl _
    | @tree s s' t t' hs haloof ht =>
      obtain ⟨hname, -, hinner⟩ := ht.shape
      change Postponed (state env s t >>= _) (state env s' t' >>= _)
      refine .of_alike (state_onward hdocs hgroups ih hs haloof ht) fun a a' ha => ?_
      have hsources : a'.sources = a.sources := congrArg (·.sources) ha.heritage
      rw [hsources, hname]
      split
      · exact walkElement_onward ha (replicate_deferred ih site hs haloof ht) hinner _
      · exact expandSources_deferred ih site hsources ha.outside ha.rebound haloof ht

/-- Drafts of a document of which some fills wait. -/
theorem root_deferred (hdocs : 0 < env.docs.size)
    (hgroups : ∀ m g, env.sources.group? m = some g → g.primary.isSome = true)
    (haloof : t.forest.Aloof env) (ht : t.Defers pfx t') (fuel : Nat) :
    Postponed (root env fuel t) (root env fuel t') := by
  obtain ⟨-, -, hinner⟩ := ht.shape
  have hroot : SameAbove .root .root := ⟨rfl, .nil, List.not_mem_nil⟩
  refine .of_alike
    (state_onward hdocs hgroups (process_deferred hdocs hgroups fuel) hroot haloof ht)
    fun a a' ha => ?_
  have hsources : a'.sources = a.sources := congrArg (·.sources) ha.heritage
  rw [hsources]
  split
  · exact walkElement_onward ha (fun _ => .error) hinner _
  · exact .error

end DraftWalk

/-! ## The label -/

namespace Xml.Document

variable {d : Document} {n : NodeId} {pfx : Option String}

/-- The document with the fill of a node deferred. -/
def deferFill (d : Document) (pfx : Option String) (n : NodeId) : Document :=
  d.updateElement n (·.deferred pfx)

/-- The node is a leaf with a fill, and nothing is said about when it is written. -/
structure Fillable (d : Document) (n : NodeId) : Prop where
  leaf : d.hasElementChildren n = false
  element : ∃ e, d.element? n = some e ∧ e.Deferrable

theorem spells_deferFill (pfx : Option String) (hd : d.Linked) (hn : d.Fillable n) {ns : List NodeId} {f : Forest}
    (hf : Spells d ns f) : ∃ f', f.Defers pfx f' ∧ Spells (d.deferFill pfx n) ns f' := by
  have hproper := hf.proper hd
  induction hf with
  | nil => exact ⟨.nil, .nil, .nil⟩
  | @node m ns x kids rest hx hkids hrest ihkids ihrest =>
    obtain ⟨hkind, hproperKids, hproperRest⟩ := hproper
    obtain ⟨kids', hdkids, hkids'⟩ := ihkids hproperKids
    obtain ⟨rest', hdrest, hrest'⟩ := ihrest hproperRest
    have hx' : (d.deferFill pfx n).node? m =
        some { x with kind := if n = m then x.kind.mapElement (·.deferred pfx) else x.kind } := by
      rw [deferFill, updateElement, node?_updateNode, hx]
      split <;> rfl
    obtain ⟨kind, parent, children, line⟩ := x
    by_cases hsame : n = m
    · subst hsame
      obtain ⟨hleaf, e, he, hfill⟩ := hn
      rw [element?, kind?_of_node? hx] at he
      cases kind with
      | comment text => cases he
      | element e' =>
        cases he
        have hnone : kids.hasElement = false := by
          rw [← hkids.any_isElement, ← children_of_node? hx]
          exact hleaf
        rw [if_pos rfl] at hx'
        refine ⟨_, .leaf hfill line hnone hdrest, ?_⟩
        rw [hdkids.eq_of_hasElement hnone] at hkids'
        exact .node hx' hkids' hrest'
    · rw [if_neg hsame] at hx'
      cases kind with
      | element e => exact ⟨_, .element e line hdkids hdrest, .node hx' hkids' hrest'⟩
      | comment text =>
        have hnil : kids = .nil := by
          by_contra hne
          cases hkind hne
        subst hnil
        cases hdkids
        exact ⟨_, .comment text line .nil hdrest, .node hx' hkids' hrest'⟩

end Xml.Document

namespace Template

variable {fs : Files} {input : TemplateInput}

/-- Where no directive reads the template, deferring the fill of a leaf changes
nothing: both templates have the same label, or neither has one. -/
theorem toXml_deferFill {given : SourceInput} {d : Document} {n : NodeId}
    (hgiven : input.template = some given) (hgives : given.Gives fs d)
    (htemplate : ∀ d, given = .document d → d.WellFormed) (haloof : input.Aloof fs)
    (hn : d.Fillable n) (pfx : Option String) :
    ((build fs input >>= finalize).map (·.toXml)).toOption =
      ((build fs (input.withTemplate (some (.document (d.deferFill pfx n)))
        input.options.keepTemplateComments) >>= finalize).map (·.toXml)).toOption := by
  have hwf : d.WellFormed := wellFormed_of_gives htemplate hgives
  have hwf' : (d.deferFill pfx n).WellFormed := hwf.updateElement n _
  have htrees : ∀ t : Tree, Spells d [d.root] t.forest → ∃ t' : Tree,
      Spells (d.deferFill pfx n) [d.root] t'.forest ∧ t.Defers pfx t' := by
    intro t ht
    obtain ⟨f', hdefers, hf'⟩ := spells_deferFill pfx hwf.linked hn ht
    obtain ⟨t', rfl⟩ : ∃ t' : Tree, f' = t'.forest := hf'.exists_tree hwf'.root_isElement
    exact ⟨t', hf', hdefers⟩
  refine (toXml_retouched (Q := fun _ => False) (retouching_defers pfx) hgiven hgives htemplate
    haloof hwf' rfl htrees fun env hpos hgroups t t' haloof hdefers fuel =>
      .inl (DraftWalk.root_deferred hpos hgroups haloof hdefers fuel).label).resolve_right ?_
  exact fun ⟨_, _, hnone, _⟩ => hnone

/-- A leaf inside an element that is bound to two documents, with a text that its
fill completes. -/
def filledFromTwo : Document :=
  .ofTree [] { name := .plain "a" } none
    (.node (.element
      { name := .plain "b"
        attributes := [⟨⟨some directivePrefix, some directiveNamespace, "sources"⟩, "s"⟩] }) none
      (.node (.element
        { name := .plain "c"
          attributes := [⟨⟨some directivePrefix, some directiveNamespace, "fill"⟩, "/k"⟩]
          text := some "no. \x7b\x7d" }) none .nil .nil) .nil)

def twoNumbers : TemplateInput where
  template := some (.document filledFromTwo)
  sources :=
    [⟨"s", [.document (.ofTree [] { name := .plain "k", text := some "1" } none .nil),
      .document (.ofTree [] { name := .plain "k", text := some "2" } none .nil)]⟩]

/-- Each copy of the leaf is filled from its own document, early or late. -/
theorem toXml_deferFill_twoNumbers :
    filledFromTwo.Fillable 2 ∧ ∃ label label' : Document,
      build {} twoNumbers >>= finalize = .ok label ∧
      build {} (twoNumbers.withTemplate
        (some (.document (filledFromTwo.deferFill (some directivePrefix) 2))) false) >>= finalize =
          .ok label' ∧
      (leaves label label.root).map label.text? = [some "no. 1", some "no. 2"] ∧
      label.toXml = label'.toXml := by
  have hfillable : filledFromTwo.Fillable 2 := ⟨by decide, _, rfl, by decide, by decide⟩
  have hrun : ((build {} twoNumbers >>= finalize).toOption.any fun label =>
      decide ((leaves label label.root).map label.text? = [some "no. 1", some "no. 2"])) = true := by
    decide +kernel
  obtain ⟨label, hlabel, htexts⟩ := (Option.any_eq_true _ _).1 hrun
  have hproper : ∀ d, SourceInput.document filledFromTwo = .document d → d.WellFormed := by
    rintro d hd
    cases hd
    refine wellFormed_ofTree ?_ []
    simp [Forest.Proper, NodeKind.isElement, NodeKind.element?]
  have haloof : twoNumbers.Aloof {} := by
    refine TemplateInput.aloof_of_builtins rfl fun given d hgiven hgives => ?_
    cases hgiven
    cases hgives
    decide +kernel
  have hgives : SourceInput.Gives {} (.document filledFromTwo) filledFromTwo := rfl
  have hsame := toXml_deferFill rfl hgives hproper haloof hfillable (some directivePrefix)
  rw [toOption_eq_some.1 hlabel] at hsame
  obtain ⟨label', hlabel', hxml⟩ := map_eq_ok.1 (toOption_eq_some.1 hsame.symm)
  exact ⟨hfillable, label, label', toOption_eq_some.1 hlabel, hlabel', of_decide_eq_true htexts,
    hxml.symm⟩

end Template

end LabelTemplate
