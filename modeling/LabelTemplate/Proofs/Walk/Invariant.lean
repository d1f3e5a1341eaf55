import LabelTemplate.Proofs.Outcome
import LabelTemplate.Proofs.Walk.Copies

/-!
# What the walk keeps

`Engine.Sound P` is the invariant of the walk: the template is well formed,
every node of every document has a kind with the property `P`, and what was
deferred are elements of the template.

One step of the walk changes an element's content in one of the ways that
`EditStable` lists, or moves and copies nodes.  `Sound.process` is the result:
walking a node keeps the invariant and everything outside the node.  The
lemmas before it take the walk apart from the inside out, each given that
visits below keep what they should (`VisitKeeps`).
-/

namespace LabelTemplate

open Xml Document

/-! ## Content -/

/-- What the walk may do to an element. -/
structure EditStable (P : NodeKind → Prop) : Prop where
  setText : ∀ (e : Element) (text : Option String),
    P (.element e) → P (.element { e with text })
  fewerAttributes : ∀ (e : Element) (kept : List Attribute), kept.Sublist e.attributes →
    P (.element e) → P (.element { e with attributes := kept })
  setAttribute : ∀ (e source : Element) (a : Attribute), a ∈ source.attributes →
    P (.element source) → P (.element e) → P (.element (e.setAttribute a.name a.value))

namespace EditStable

variable {P : NodeKind → Prop} {d : Document} (hP : EditStable P) (h : d.AllKinds P)

include hP h

theorem allKinds_setText (n : NodeId) (text : Option String) : (d.setText n text).AllKinds P :=
  h.updateElement n fun e => hP.setText e text

theorem allKinds_removeDirective (n : NodeId) (directive : Directive) :
    (d.removeDirective n directive).AllKinds P :=
  h.updateElement n fun e => hP.fewerAttributes e _ List.eraseP_sublist

theorem allKinds_stripDirectives (n : NodeId) : (d.stripDirectives n).AllKinds P :=
  h.updateElement n fun e => hP.fewerAttributes e _ List.filter_sublist

end EditStable

namespace Engine

/-! ## The invariant -/

structure Sound (P : NodeKind → Prop) (e : Engine) : Prop where
  docs_pos : 0 < e.env.docs.size
  wellFormed : e.template.WellFormed
  kinds : ∀ d ∈ e.env.docs, d.AllKinds P
  queued : ∀ item ∈ e.deferred.fills ++ e.deferred.requireds,
    e.template.isElement item.node = true

theorem template_setTemplate {e : Engine} (h : 0 < e.env.docs.size) (d : Document) :
    (e.setTemplate d).template = d := by
  simp [template, setTemplate, Environment.template, Environment.setTemplate, templateKey,
    Array.getElem?_setIfInBounds_self_of_lt h]

namespace Sound

variable {P : NodeKind → Prop} {e : Engine} {out : NodeId → Prop}

theorem template_kinds (h : e.Sound P) : e.template.AllKinds P := by
  refine h.kinds _ ?_
  simp [template, Environment.template, templateKey, h.docs_pos]

/-- Another template that keeps the nodes of the old one. -/
theorem setTemplate (h : e.Sound P) {d : Document} (hd : d.WellFormed) (hkinds : d.AllKinds P)
    (hkeeps : Keeps out e.template d) : (e.setTemplate d).Sound P where
  docs_pos := by simpa [Engine.setTemplate, Environment.setTemplate] using h.docs_pos
  wellFormed := by rwa [template_setTemplate h.docs_pos]
  kinds d' hd' := by
    rcases Array.mem_or_eq_of_mem_setIfInBounds hd' with hd' | rfl
    · exact h.kinds d' hd'
    · exact hkinds
  queued item hitem := by
    rw [template_setTemplate h.docs_pos]
    exact hkeeps.isElement_of (h.queued item hitem)

theorem addFill (h : e.Sound P) {item : DeferredItem}
    (hitem : e.template.isElement item.node = true) :
    Sound P { e with deferred := e.deferred.addFill item } where
  docs_pos := h.docs_pos
  wellFormed := h.wellFormed
  kinds := h.kinds
  queued i hi := by
    simp only [Deferred.addFill, List.mem_append, List.mem_singleton] at hi
    rcases hi with (hi | rfl) | hi
    · exact h.queued i (List.mem_append_left _ hi)
    · exact hitem
    · exact h.queued i (List.mem_append_right _ hi)

theorem addRequired (h : e.Sound P) {item : DeferredItem}
    (hitem : e.template.isElement item.node = true) :
    Sound P { e with deferred := e.deferred.addRequired item } where
  docs_pos := h.docs_pos
  wellFormed := h.wellFormed
  kinds := h.kinds
  queued i hi := by
    simp only [Deferred.addRequired, List.mem_append, List.mem_singleton] at hi
    rcases hi with hi | hi | rfl
    · exact h.queued i (List.mem_append_left _ hi)
    · exact h.queued i (List.mem_append_right _ hi)
    · exact hitem

end Sound

/-! ## Visits one after the other -/

/-- A visit of a node keeps the invariant and what is outside the node. -/
def VisitKeeps (P : NodeKind → Prop) (visit : Visit) : Prop :=
  ∀ s n e e', e.Sound P → n < e.template.size → visit s n e = .ok e' →
    e'.Sound P ∧ Keeps (¬ Within e.template n ·) e.template e'.template

/-- Nodes visited in order, below whatever states. -/
inductive Visits (visit : Visit) : List NodeId → Engine → Engine → Prop where
  | nil {e : Engine} : Visits visit [] e e
  | cons {s : ElementState} {n : NodeId} {ns : List NodeId} {e e₁ e' : Engine}
      (head : visit s n e = .ok e₁) (tail : Visits visit ns e₁ e') : Visits visit (n :: ns) e e'

theorem visits_of_walkBranches {visit : Visit} {parent : ElementState} {i : Nat}
    {ns : List NodeId} {e e' : Engine} (h : walkBranches visit parent i ns e = .ok e') :
    Visits visit ns e e' := by
  induction ns generalizing i e with
  | nil =>
    cases h
    exact .nil
  | cons n ns ih =>
    obtain ⟨e₁, he₁, h⟩ := Outcome.bind_eq_ok.1 h
    exact .cons he₁ (ih h)

theorem visits_of_foldlM {visit : Visit} {state : ElementState} {ns : List NodeId}
    {e e' : Engine} (h : ns.foldlM (fun e c => visit state c e) e = .ok e') :
    Visits visit ns e e' := by
  induction ns generalizing e with
  | nil =>
    cases h
    exact .nil
  | cons n ns ih =>
    rw [List.foldlM_cons] at h
    obtain ⟨e₁, he₁, h⟩ := Outcome.bind_eq_ok.1 h
    exact .cons he₁ (ih h)

variable {P : NodeKind → Prop} {visit : Visit}

/-- Visits in order keep what is outside all the nodes. -/
theorem Visits.keeps (hvisit : VisitKeeps P visit) {ns : List NodeId} {e e' : Engine}
    (hvisits : Visits visit ns e e') (h : e.Sound P) (hns : ∀ n ∈ ns, n < e.template.size) :
    e'.Sound P ∧ Keeps (fun m => ∀ n ∈ ns, ¬ Within e.template n m) e.template e'.template := by
  induction hvisits with
  | nil => exact ⟨h, Keeps.refl _ _⟩
  | @cons s n ns e e₁ e' head _ ih =>
    obtain ⟨h₁, hkeeps⟩ := hvisit s n e e₁ h (hns n List.mem_cons_self) head
    obtain ⟨h', hkeeps'⟩ := ih h₁ fun m hm =>
      Nat.lt_of_lt_of_le (hns m (List.mem_cons_of_mem _ hm)) hkeeps.size_le
    refine ⟨h', (hkeeps.mono fun m _ hm => hm n List.mem_cons_self).trans hkeeps'
      fun m hlt hm c hc => ?_⟩
    rw [hkeeps.within_iff h.wellFormed.linked (fun _ _ => not_within_parent) hlt
      (hm n List.mem_cons_self)]
    exact hm c (List.mem_cons_of_mem _ hc)

/-- The template without a directive, in the middle of the walk. -/
theorem Sound.removeDirective (hP : EditStable P) {e : Engine} (h : e.Sound P) (n : NodeId)
    (directive : Directive) :
    (e.template.removeDirective n directive).WellFormed ∧
      (e.template.removeDirective n directive).AllKinds P ∧
      ∀ out, Keeps out e.template (e.template.removeDirective n directive) :=
  ⟨h.wellFormed.updateElement n _, hP.allKinds_removeDirective h.template_kinds n directive,
    fun out => keeps_updateElement out _ n _⟩

/-- A new node is not above an old one that was kept together with all
above it. -/
theorem not_within_of_new {out : NodeId → Prop} {d d' : Document} (hd : d.Linked)
    (hkeeps : Keeps out d d') (hup : ∀ m p, out m → d.parent? m = some p → out p) {c m : NodeId}
    (hc : d.size ≤ c) (hm : m < d.size) (ho : out m) : ¬ Within d' c m := by
  rw [hkeeps.within_iff hd hup hm ho]
  exact fun hw => Nat.not_lt.2 hc (hd.lt_size_of_within hw hm)

/-! ## Copies visited as branches -/

theorem replicate_keeps (hP : EditStable P) (hvisit : VisitKeeps P visit) {parent : ElementState}
    {n : NodeId} {copies : Nat} {e e' : Engine} (h : e.Sound P) (hn : n < e.template.size)
    (hok : replicate visit parent n copies e = .ok e') :
    e'.Sound P ∧ Keeps (¬ Within e.template n ·) e.template e'.template := by
  obtain ⟨hwf₁, hkinds₁, hkeeps₁⟩ := h.removeDirective hP n .multi
  simp only [replicate] at hok
  generalize e.template.removeDirective n .multi = d₁ at *
  cases hp : d₁.parent? n with
  | none =>
    rw [hp] at hok
    cases hok
  | some container =>
    rw [hp] at hok
    obtain ⟨hwf₂, hkeeps₂, hkinds₂, hids⟩ :=
      insertAll_clones (P := P) hwf₁ hp copies ((d₁.indexInParent? n).getD 0 + 1)
    have hkeeps : Keeps (fun _ => True) e.template _ := (hkeeps₁ _).trans hkeeps₂ fun _ _ => id
    have hsound := h.setTemplate hwf₂ (hkinds₂ hkinds₁) hkeeps
    obtain ⟨hsound', hkeeps'⟩ := (visits_of_walkBranches hok).keeps hvisit hsound (by
      rw [template_setTemplate h.docs_pos]
      intro c hc
      rcases List.mem_cons.1 hc with rfl | hc
      · exact Nat.lt_of_lt_of_le hn hkeeps.size_le
      · exact (hids c hc).2)
    rw [template_setTemplate h.docs_pos] at hkeeps'
    refine ⟨hsound', (hkeeps.mono fun _ _ _ => trivial).trans hkeeps' fun m hm hout c hc => ?_⟩
    rcases List.mem_cons.1 hc with rfl | hc
    · rw [hkeeps.within_iff h.wellFormed.linked (fun _ _ _ _ => trivial) hm trivial]
      exact hout
    · exact not_within_of_new h.wellFormed.linked hkeeps (fun _ _ _ _ => trivial)
        (Nat.le_trans (hkeeps₁ fun _ => True).size_le (hids c hc).1) hm trivial

/-! ## One element per source -/

/-- The element for a source, which is `n` or a copy of it, in a template that
keeps what was outside `n`. -/
theorem exists_sourceElement {d₀ d : Document} (hd₀ : d₀.WellFormed) {n p : NodeId}
    (hp : d₀.parent? n = some p) (hd : d.WellFormed) (hkinds : d.AllKinds P)
    (hkeeps : Keeps (¬ Within d₀ n ·) d₀ d) (itself : Prop) [Decidable itself] :
    ∃ elem d', (if itself then (n, d) else d.deepClone n) = (elem, d') ∧ d'.WellFormed ∧
      d'.AllKinds P ∧ Keeps (fun _ => True) d d' ∧ elem < d'.size ∧ elem ≠ d'.root ∧
      ∀ m, m < d₀.size → ¬ Within d₀ n m → ¬ Within d' elem m := by
  have hup : ∀ m q, ¬ Within d₀ n m → d₀.parent? m = some q → ¬ Within d₀ n q :=
    fun _ _ => not_within_parent
  have hn : n < d.size := Nat.lt_of_lt_of_le (lt_size_of_parent? hp) hkeeps.size_le
  by_cases hitself : itself
  · refine ⟨n, d, if_pos hitself, hd, hkinds, Keeps.refl _ d, hn, ?_, fun m hm ho => ?_⟩
    · rintro rfl
      rw [hkeeps.root, hd₀.root_parent] at hp
      cases hp
    · rw [hkeeps.within_iff hd₀.linked hup hm ho]
      exact ho
  · obtain ⟨hid, hsize, hwf, -, hkeeps', hkinds'⟩ := hd.deepClone (P := P) hn
    have hkeeps'' : Keeps (¬ Within d₀ n ·) d₀ (d.deepClone n).2 :=
      hkeeps.trans hkeeps' fun _ _ _ => trivial
    refine ⟨d.size, _, (if_neg hitself).trans (Prod.ext hid rfl), hwf, hkinds' hkinds, hkeeps',
      hsize, ?_, fun m hm ho => ?_⟩
    · rw [hkeeps'.root]
      exact (Nat.ne_of_lt hd.root_lt_size).symm
    · exact not_within_of_new hd₀.linked hkeeps'' hup hkeeps.size_le hm ho

/-- Visiting one element per source keeps what was outside the element. -/
theorem walkSources_keeps (hvisit : VisitKeeps P visit) {state : ElementState}
    {n p : NodeId} {index : Nat} {keys : List XPath.DocKey} {d₀ : Document} {e e' : Engine}
    (hd₀ : d₀.WellFormed) (hp : d₀.parent? n = some p) (h : e.Sound P)
    (hkeeps : Keeps (¬ Within d₀ n ·) d₀ e.template)
    (hok : walkSources visit state n p index keys e = .ok e') :
    e'.Sound P ∧ Keeps (¬ Within d₀ n ·) d₀ e'.template := by
  induction keys generalizing e with
  | nil =>
    cases hok
    exact ⟨h, hkeeps⟩
  | cons key keys ih =>
    have hup : ∀ m q, ¬ Within d₀ n m → d₀.parent? m = some q → ¬ Within d₀ n q :=
      fun _ _ => not_within_parent
    have hpOut : ¬ Within d₀ n p := hd₀.linked.not_within_self_parent hp
    obtain ⟨elem, d, hpair, hwf, hkinds, hkeepsE, hlt, hroot, hout⟩ :=
      exists_sourceElement hd₀ hp h.wellFormed h.template_kinds hkeeps
        (some key = state.sources.primary)
    simp only [walkSources, hpair] at hok
    obtain ⟨e₁, he₁, hok⟩ := Outcome.bind_eq_ok.1 hok
    have hkeepsD : Keeps (¬ Within d₀ n ·) d₀ d := hkeeps.trans hkeepsE fun _ _ _ => trivial
    have hinsert := keeps_insertChild d p index hlt
    have hothers : Keeps (· ≠ elem) e.template d := hkeepsE.mono fun _ _ _ => trivial
    have hkeepsI : Keeps (¬ Within d₀ n ·) d₀ (d.insertChild p index elem) :=
      hkeepsD.trans hinsert fun m hm ho he => hout m hm ho (he ▸ within_self d m)
    have hsound : (e.setTemplate (d.insertChild p index elem)).Sound P :=
      h.setTemplate
        (hwf.insertChild index (hkeepsD.isElement_of (hd₀.linked.parent_isElement hp)) hlt hroot
          (hout p (hd₀.linked.parent_lt_size hp) hpOut))
        (hkinds.congr fun m => by simp)
        (hothers.trans hinsert fun _ _ ho => ho)
    obtain ⟨hsound₁, hkeeps₁⟩ := hvisit _ _ _ _ hsound
      (by rw [template_setTemplate h.docs_pos]; simpa using hlt) he₁
    rw [template_setTemplate h.docs_pos] at hkeeps₁
    refine ih hsound₁ (hkeepsI.trans hkeeps₁ fun m hm ho => ?_) hok
    rw [hkeepsI.within_iff hd₀.linked hup hm ho, ← hkeepsD.within_iff hd₀.linked hup hm ho]
    exact hout m hm ho

theorem expandSources_keeps (hP : EditStable P) (hvisit : VisitKeeps P visit)
    {state : ElementState} {n : NodeId} {e e' : Engine} (h : e.Sound P)
    (hok : expandSources visit state n e = .ok e') :
    e'.Sound P ∧ Keeps (¬ Within e.template n ·) e.template e'.template := by
  obtain ⟨hwf₁, hkinds₁, hkeeps₁⟩ := h.removeDirective hP n .sources
  simp only [expandSources] at hok
  generalize e.template.removeDirective n .sources = d₁ at *
  cases hp : d₁.parent? n with
  | none =>
    rw [hp] at hok
    cases hok
  | some p =>
    rw [hp] at hok
    have hdetach : Keeps (¬ Within d₁ n ·) d₁ (d₁.detach n) :=
      (keeps_detach d₁ n).mono fun m _ ho he => ho (.inl he)
    have hsound : (e.setTemplate (d₁.detach n)).Sound P :=
      h.setTemplate (hwf₁.detach n) (hkinds₁.congr fun m => by simp)
        ((hkeeps₁ (· ≠ n)).trans (keeps_detach d₁ n) fun _ _ ho => ho)
    obtain ⟨hsound', hkeeps'⟩ := walkSources_keeps hvisit hwf₁ hp hsound
      (by rwa [template_setTemplate h.docs_pos]) hok
    refine ⟨hsound', (hkeeps₁ _).trans hkeeps' fun m hm ho => ?_⟩
    rw [(hkeeps₁ fun _ => True).within_iff h.wellFormed.linked (fun _ _ _ _ => trivial) hm trivial]
    exact ho

/-! ## Fetching -/

theorem copyContent_spec (hP : EditStable P) {d source : Document} (hd : d.WellFormed)
    (hkinds : d.AllKinds P) (hsource : source.AllKinds P) (n m : NodeId) :
    (copyContent d n source m).WellFormed ∧ (copyContent d n source m).AllKinds P ∧
      ∀ out, Keeps out d (copyContent d n source m) := by
  have hattributes : ∀ as : List Attribute, (∀ a ∈ as, a ∈ source.attributes m) →
      let d' := as.foldl (fun d a => d.setAttribute n a.name a.value) d
      d'.WellFormed ∧ d'.AllKinds P ∧ ∀ out, Keeps out d d' := by
    intro as
    induction as using List.reverseRecOn with
    | nil => exact fun _ => ⟨hd, hkinds, fun out => Keeps.refl out d⟩
    | append_singleton as a ih =>
      intro has
      obtain ⟨hwf, hk, hkeeps⟩ := ih fun b hb => has b (List.mem_append_left _ hb)
      rw [List.foldl_append, List.foldl_cons, List.foldl_nil]
      refine ⟨hwf.updateElement n _, hk.updateElement n fun x hx => ?_, fun out =>
        (hkeeps out).trans (keeps_updateElement out _ n _) fun _ _ ho => ho⟩
      have ha := has a (List.mem_append_right _ List.mem_cons_self)
      unfold Document.attributes at ha
      split at ha
      · rename_i y hy
        obtain ⟨k, hk, hky⟩ := Option.bind_eq_some_iff.1 hy
        have hPk := hsource m k hk
        cases k with
        | element z =>
          cases hky
          exact hP.setAttribute x y a ha hPk hx
        | comment text => cases hky
      · simp at ha
  obtain ⟨hwf, hk, hkeeps⟩ := hattributes (source.attributes m) fun _ ha => ha
  exact ⟨hwf.updateElement n _, hP.allKinds_setText hk n _, fun out =>
    (hkeeps out).trans (keeps_updateElement out _ n _) fun _ _ ho => ho⟩

theorem fetch_keeps (hP : EditStable P) (hvisit : VisitKeeps P visit)
    {parent state : ElementState} {n : NodeId} {e e' : Engine} {stays : Bool} (h : e.Sound P)
    (hn : n < e.template.size) (hok : fetch visit parent state n e = .ok (stays, e')) :
    e'.Sound P ∧ Keeps (¬ Within e.template n ·) e.template e'.template := by
  unfold fetch at hok
  simp only at hok
  split at hok
  · split at hok
    · rename_i key _ _ source hsource
      split at hok
      · split at hok
        · cases hok
        · cases hok
          have hdetach : Keeps (¬ Within e.template n ·) e.template (e.template.detach n) :=
            (keeps_detach e.template n).mono fun m _ ho he => ho (.inl he)
          refine ⟨h.setTemplate (h.wellFormed.detach n)
            (h.template_kinds.congr fun m => by simp) hdetach, ?_⟩
          rwa [mapTemplate, template_setTemplate h.docs_pos]
      · rename_i m _
        split at hok
        · cases hok
          exact ⟨h, Keeps.refl _ _⟩
        · cases hok
          obtain ⟨hwf, hk, hkeeps⟩ := copyContent_spec hP h.wellFormed h.template_kinds
            (h.kinds source (Array.mem_of_getElem? hsource)) n m
          refine ⟨h.setTemplate hwf hk (hkeeps fun _ => True), ?_⟩
          rw [mapTemplate, template_setTemplate h.docs_pos]
          exact hkeeps _
      · have hrest : ∀ copies, (do return (false, ← replicate visit parent n copies e)) =
            Except.ok (stays, e') →
            e'.Sound P ∧ Keeps (¬ Within e.template n ·) e.template e'.template := by
          intro copies hok
          obtain ⟨e₁, he₁, hok⟩ := Outcome.bind_eq_ok.1 hok
          cases hok
          exact replicate_keeps hP hvisit h hn he₁
        split at hok
        · split at hok
          · cases hok
          · exact hrest _ hok
        · exact hrest _ hok
    · cases hok
  · cases hok

/-! ## One element -/

theorem applyFill_spec {d d' : Document} {n : NodeId} {v : FillValue}
    (h : d.applyFill n v = .ok d') : ∃ text, d' = d.setText n (some text) := by
  unfold Document.applyFill at h
  split at h
  · cases h
    exact ⟨_, rfl⟩
  · cases h

theorem walkContent_keeps (hP : EditStable P) (hvisit : VisitKeeps P visit)
    {state : ElementState} {n : NodeId} {e e' : Engine} (h : e.Sound P)
    (hn : e.template.isElement n = true) (hok : walkContent visit state n e = .ok e') :
    e'.Sound P ∧ Keeps (¬ Within e.template n ·) e.template e'.template := by
  unfold walkContent at hok
  split at hok
  · obtain ⟨h', hkeeps⟩ := (visits_of_foldlM hok).keeps hvisit h fun c hc =>
      h.wellFormed.linked.child_lt_size hc
    refine ⟨h', hkeeps.mono fun m _ ho c hc hw => ho ?_⟩
    exact .inr (hw.below ((h.wellFormed.parent_iff_child n c).2 hc))
  · split at hok
    · cases hok
      exact ⟨h, Keeps.refl _ _⟩
    · split at hok
      · cases hok
        exact ⟨h.addFill hn, Keeps.refl _ _⟩
      · obtain ⟨v, -, hok⟩ := Outcome.bind_eq_ok.1 hok
        split at hok
        · cases hok
          exact ⟨h, Keeps.refl _ _⟩
        · obtain ⟨d, hd, hok⟩ := Outcome.bind_eq_ok.1 hok
          cases hok
          obtain ⟨text, rfl⟩ := applyFill_spec (Outcome.mapError_eq_ok.1 hd)
          refine ⟨h.setTemplate (h.wellFormed.updateElement n _)
            (hP.allKinds_setText h.template_kinds n _)
            (keeps_updateElement (fun _ => True) _ n _), ?_⟩
          rw [template_setTemplate h.docs_pos]
          exact keeps_updateElement _ _ n _

theorem finishElement_keeps (hP : EditStable P) (hvisit : VisitKeeps P visit)
    {state : ElementState} {n : NodeId} {e e' : Engine} (h : e.Sound P)
    (hn : e.template.isElement n = true) (hok : finishElement visit state n e = .ok e') :
    e'.Sound P ∧ Keeps (¬ Within e.template n ·) e.template e'.template := by
  obtain ⟨e₁, he₁, hok⟩ := Outcome.bind_eq_ok.1 hok
  cases hok
  obtain ⟨h₁, hkeeps₁⟩ := walkContent_keeps hP hvisit h hn he₁
  refine ⟨h₁.setTemplate (h₁.wellFormed.updateElement n _)
    (hP.allKinds_stripDirectives h₁.template_kinds n)
    (keeps_updateElement (fun _ => True) _ n _), ?_⟩
  rw [mapTemplate, template_setTemplate h₁.docs_pos]
  exact hkeeps₁.trans (keeps_updateElement _ _ n _) fun _ _ ho => ho

theorem walkElement_keeps (hP : EditStable P) (hvisit : VisitKeeps P visit)
    {parent state : ElementState} {n : NodeId} {e e' : Engine} (h : e.Sound P)
    (hn : e.template.isElement n = true) (hok : walkElement visit parent state n e = .ok e') :
    e'.Sound P ∧ Keeps (¬ Within e.template n ·) e.template e'.template := by
  have hlt : n < e.template.size := lt_size_of_isElement hn
  unfold walkElement at hok
  split at hok
  · obtain ⟨⟨stays, e₁⟩, he₁, hok⟩ := Outcome.bind_eq_ok.1 hok
    obtain ⟨h₁, hkeeps₁⟩ := fetch_keeps hP hvisit h hlt he₁
    simp only at hok
    split at hok
    · obtain ⟨h', hkeeps'⟩ := finishElement_keeps hP hvisit h₁ (hkeeps₁.isElement_of hn) hok
      refine ⟨h', hkeeps₁.trans hkeeps' fun m hm ho => ?_⟩
      rw [hkeeps₁.within_iff h.wellFormed.linked (fun _ _ => not_within_parent) hm ho]
      exact ho
    · cases hok
      exact ⟨h₁, hkeeps₁⟩
  · obtain ⟨copies, hok⟩ : ∃ copies, (if copies > 0 then replicate visit parent n copies e
        else if state.declares .required then
          finishElement visit state n { e with deferred := e.deferred.addRequired ⟨state, n⟩ }
        else finishElement visit state n e) = .ok e' := ⟨_, hok⟩
    split at hok
    · exact replicate_keeps hP hvisit h hlt hok
    · split at hok
      · have hqueued : Sound P { e with deferred := e.deferred.addRequired ⟨state, n⟩ } :=
          h.addRequired hn
        have hkeeps := finishElement_keeps hP hvisit hqueued hn hok
        exact hkeeps
      · exact finishElement_keeps hP hvisit h hn hok

/-! ## The walk -/

/-- Walking a node keeps the invariant and what is outside the node. -/
theorem process_keeps (hP : EditStable P) (fuel : Nat) : VisitKeeps P (process fuel) := by
  induction fuel with
  | zero =>
    intro s n e e' _ _ hok
    cases hok
  | succ fuel ih =>
    intro s n e e' h hn hok
    unfold process at hok
    split at hok
    · cases hok
      exact ⟨h, Keeps.refl _ _⟩
    · rename_i hcomment
      have helem : e.template.isElement n = true := by
        obtain ⟨x, hx⟩ := exists_node? hn
        rw [isComment, kind?_of_node? hx] at hcomment
        rw [isElement_eq, kind?_of_node? hx]
        simpa [NodeKind.isComment] using hcomment
      obtain ⟨state, -, hok⟩ := Outcome.bind_eq_ok.1 hok
      split at hok
      · exact walkElement_keeps hP ih h helem hok
      · exact expandSources_keeps hP ih h hok

/-- The walk over a whole template keeps the invariant, and what stands in front
of the root. -/
theorem Sound.walk (hP : EditStable P) {e e' : Engine} (h : e.Sound P) (hok : e.walk = .ok e') :
    e'.Sound P ∧ e'.template.prolog = e.template.prolog := by
  unfold Engine.walk at hok
  split at hok
  · rename_i hprocess
    cases hok
    obtain ⟨h', hkeeps⟩ := process_keeps hP _ _ _ _ _ h h.wellFormed.root_lt_size hprocess
    exact ⟨h', hkeeps.prolog⟩
  · cases hok
  · cases hok

end Engine

end LabelTemplate
