import LabelTemplate.Proofs.Export.Resolved
import LabelTemplate.Proofs.Export.Structure

/-!
# What pruning leaves

Pruning takes the queued decisions last first.  An element is queued before
those below it, so no element that is dropped later is within one that has
been decided before: what a decision has seen of a subtree is what is left of
it in the end.  `pruned_of_build` says what that comes to.  All that is gone was
within an element that turned out not to be required, and such an element
stays only if every leaf that is left of it is populated.
-/

namespace LabelTemplate

open Xml Document

/-! ## Leaves -/

namespace Xml.Document

variable {d e : Document} {n m : NodeId}

/-- The traversal meets the same nodes where it meets the same children. -/
theorem visit_congr (fuel : Nat) (stack : List NodeId)
    (h : ∀ n ∈ stack, ∀ m, Within d n m → e.children m = d.children m) (hd : d.Linked) :
    e.visit fuel stack = d.visit fuel stack := by
  induction fuel generalizing stack with
  | zero => rfl
  | succ fuel ih =>
    cases stack with
    | nil => rfl
    | cons n rest =>
      rw [visit, visit, h n List.mem_cons_self n (within_self d n), ih]
      intro c hc m hm
      rcases List.mem_append.1 hc with hc | hc
      · have hparent : d.parent? c = some n := (hd.parent_iff_child n c).2 hc
        exact h n List.mem_cons_self m (.inr (hm.below hparent))
      · exact h c (List.mem_cons_of_mem _ hc) m hm

/-- True where every leaf of a subtree is populated. -/
def LeavesPopulated (d : Document) (n : NodeId) : Prop :=
  ∀ leaf ∈ leaves d n, d.isPopulated leaf = true

/-- Detaching a node leaves the leaves of a subtree that it is not in. -/
theorem leaves_detach (hd : d.Linked) (h : ¬ Within d n m) :
    leaves (d.detach m) n = leaves d n := by
  have hchildren : ∀ k, Within d n k → (d.detach m).children k = d.children k := by
    intro k hk
    rw [children_detach, if_neg fun hparent => h (within_of_parent? hparent hk)]
  have hvisit : (d.detach m).descendants n = d.descendants n := by
    rw [descendants, descendants, size_detach]
    refine visit_congr _ _ (fun a ha k hk => hchildren k ?_) hd
    rwa [List.mem_singleton.1 ha] at hk
  have helement : (d.detach m).isElement = d.isElement := funext fun k => isElement_detach d m k
  rw [leaves, leaves, descendantElements, descendantElements, hvisit, helement]
  refine List.filter_congr fun k hk => ?_
  have hk' : Within d n k := within_of_mem_descendants hd (List.mem_filter.1 hk).1
  rw [hasElementChildren, hasElementChildren, hchildren k hk', helement]

theorem isPopulated_detach (d : Document) (n m : NodeId) :
    (d.detach n).isPopulated m = d.isPopulated m := by
  simp [isPopulated, text?, attribute?, element?]

theorem LeavesPopulated.detach (h : d.LeavesPopulated n) (hd : d.Linked) (hm : ¬ Within d n m) :
    (d.detach m).LeavesPopulated n := by
  intro leaf hleaf
  rw [leaves_detach hd hm] at hleaf
  rw [isPopulated_detach]
  exact h leaf hleaf

theorem within_detach_of_within {a : NodeId} (h : Within d a n) (hn : ¬ Within d m n) :
    Within (d.detach m) a n := h.imp id fun h => below_detach_of_below h hn

/-- A node that was detached is not attached, unless it is the root. -/
theorem not_within_detached (hne : n ≠ d.root) :
    ¬ Within (d.detach n) (d.detach n).root n := by
  intro h
  rw [root_detach] at h
  obtain ⟨p, hp, -⟩ := h.exists_parent hne
  rw [parent?_detach, if_pos rfl] at hp
  cases hp

end Xml.Document

namespace Exporter

/-! ## One decision -/

/-- The expression of a queued decision comes to false. -/
def Rejects (x : Exporter) (item : DeferredItem) : Prop :=
  ∃ s, item.state.evalRequired x.engine.env = .ok (false, s)

variable {x x' : Exporter} {item : DeferredItem} {items : List DeferredItem} {n : NodeId}

/-- A decision drops an element that is not required, or leaves all as it was. -/
theorem pruneItem_eq_ok (h : x.pruneItem item = .ok x') :
    (x.Rejects item ∧ x' = x.drop item.node) ∨
    (x' = x ∧ (x.Rejects item → x.document.isAttached item.node = true →
      x.document.LeavesPopulated item.node)) := by
  obtain ⟨⟨required, s⟩, heval, h⟩ := Outcome.bind_eq_ok.1 h
  simp only at h
  split at h
  · rename_i hdrop
    cases h
    simp only [Bool.and_eq_true, Bool.not_eq_true'] at hdrop
    exact .inl ⟨⟨s, by rw [heval, hdrop.1.1]⟩, rfl⟩
  · rename_i hstay
    cases h
    refine .inr ⟨rfl, fun ⟨s', hrejects⟩ hattached leaf hleaf => ?_⟩
    rw [heval] at hrejects
    cases hrejects
    by_contra hempty
    refine hstay ?_
    simp only [Bool.not_false, Bool.true_and, hattached, Bool.and_true, List.any_eq_true]
    exact ⟨leaf, hleaf, by simpa using hempty⟩

/-- Documents of which elements can be dropped. -/
structure Live (x : Exporter) : Prop where
  docs_pos : 0 < x.engine.env.docs.size
  wellFormed : x.document.WellFormed

theorem Live.drop (h : x.Live) (n : NodeId) : (x.drop n).Live where
  docs_pos := docs_pos_drop h.docs_pos n
  wellFormed := by
    rw [document_drop h.docs_pos]
    exact h.wellFormed.detach n

/-- What one decision leaves: nothing is attached that was not, and what is
gone was within the element. -/
theorem Live.pruneItem (h : x.Live) (hok : x.pruneItem item = .ok x') :
    x'.Live ∧ x'.document.root = x.document.root ∧
      (∀ a m, Within x'.document a m → Within x.document a m) ∧
      (∀ n, ¬ Within x.document n item.node → x.document.LeavesPopulated n →
        x'.document.LeavesPopulated n) := by
  rcases pruneItem_eq_ok hok with ⟨-, rfl⟩ | ⟨rfl, -⟩
  · refine ⟨h.drop _, ?_⟩
    rw [document_drop h.docs_pos]
    exact ⟨root_detach _ _, fun a m => within_of_within_detach,
      fun n hn hpopulated => hpopulated.detach h.wellFormed.linked hn⟩
  · exact ⟨h, rfl, fun a m => id, fun n _ => id⟩

/-! ## All decisions -/

/-- Nothing that is gone comes back, and leaves stay populated while elements
outside their subtree are decided. -/
theorem Live.pruneItems (h : x.Live) (hok : items.foldlM Exporter.pruneItem x = .ok x') :
    x'.Live ∧ x'.document.root = x.document.root ∧
      (∀ a m, Within x'.document a m → Within x.document a m) ∧
      ∀ n, (∀ item ∈ items, ¬ Within x.document n item.node) → x.document.LeavesPopulated n →
        x'.document.LeavesPopulated n := by
  induction items generalizing x with
  | nil =>
    cases hok
    exact ⟨h, rfl, fun _ _ => id, fun _ _ => id⟩
  | cons item items ih =>
    rw [List.foldlM_cons] at hok
    obtain ⟨x₁, hx₁, hok⟩ := Outcome.bind_eq_ok.1 hok
    obtain ⟨h₁, hroot₁, hwithin₁, hleaves₁⟩ := h.pruneItem hx₁
    obtain ⟨h', hroot, hwithin, hleaves⟩ := ih h₁ hok
    refine ⟨h', hroot.trans hroot₁, fun a m hm => hwithin₁ a m (hwithin a m hm), ?_⟩
    intro n hout hpopulated
    refine hleaves n (fun i hi hw => ?_) (hleaves₁ n (hout item List.mem_cons_self) hpopulated)
    exact hout i (List.mem_cons_of_mem _ hi) (hwithin₁ n i.node hw)

/-- What is gone was within an element that turned out not to be required. -/
theorem Live.exists_rejected (h : x.Live) (hok : items.foldlM Exporter.pruneItem x = .ok x')
    (hn : Within x.document x.document.root n) (hgone : ¬ Within x'.document x'.document.root n) :
    ∃ k item y, items[k]? = some item ∧ (items.take k).foldlM Exporter.pruneItem x = .ok y ∧
      y.Rejects item ∧ Within x.document item.node n := by
  induction items generalizing x with
  | nil =>
    cases hok
    exact absurd hn hgone
  | cons item items ih =>
    rw [List.foldlM_cons] at hok
    obtain ⟨x₁, hx₁, hok⟩ := Outcome.bind_eq_ok.1 hok
    obtain ⟨h₁, -, hwithin₁, -⟩ := h.pruneItem hx₁
    by_cases hn₁ : Within x₁.document x₁.document.root n
    · obtain ⟨k, i, y, hi, hy, hrejects, hw⟩ := ih h₁ hok hn₁
      refine ⟨k + 1, i, y, hi, ?_, hrejects, hwithin₁ _ _ hw⟩
      rw [List.take_succ_cons, List.foldlM_cons]
      exact Outcome.bind_eq_ok.2 ⟨x₁, hx₁, hy⟩
    · rcases pruneItem_eq_ok hx₁ with ⟨hrejects, rfl⟩ | ⟨rfl, -⟩
      · refine ⟨0, item, x, rfl, rfl, hrejects, ?_⟩
        rw [document_drop h.docs_pos, root_detach] at hn₁
        by_contra hout
        exact hn₁ (within_detach_of_within hn hout)
      · exact absurd hn hn₁

/-- An element that turned out not to be required stays only with its leaves
populated. -/
theorem Live.populated_of_rejects (h : x.Live) (hok : items.foldlM Exporter.pruneItem x = .ok x')
    (houter : items.Pairwise fun a b => ¬ Within x.document a.node b.node) {k : Nat}
    {y : Exporter} (hk : items[k]? = some item)
    (hy : (items.take k).foldlM Exporter.pruneItem x = .ok y) (hrejects : y.Rejects item)
    (hne : item.node ≠ x.document.root)
    (hleft : Within x'.document x'.document.root item.node) :
    x'.document.LeavesPopulated item.node := by
  induction items generalizing x k with
  | nil => simp at hk
  | cons first items ih =>
    rw [List.foldlM_cons] at hok
    obtain ⟨x₁, hx₁, hrest⟩ := Outcome.bind_eq_ok.1 hok
    obtain ⟨h₁, hroot₁, hwithin₁, -⟩ := h.pruneItem hx₁
    obtain ⟨hlater, houter⟩ := List.pairwise_cons.1 houter
    cases k with
    | zero =>
      obtain rfl : first = item := Option.some.inj hk
      cases hy
      obtain ⟨-, hroot, hwithin, hleaves⟩ := h₁.pruneItems hrest
      have hstill : Within x₁.document x₁.document.root first.node :=
        hwithin _ _ (hroot ▸ hleft)
      rcases pruneItem_eq_ok hx₁ with ⟨-, rfl⟩ | ⟨rfl, hpopulated⟩
      · rw [document_drop h.docs_pos] at hstill
        exact absurd hstill (not_within_detached hne)
      · exact hleaves _ hlater (hpopulated hrejects (h.wellFormed.isAttached_iff.2 hstill))
    | succ k =>
      rw [List.take_succ_cons, List.foldlM_cons] at hy
      obtain ⟨x₂, hx₂, hy⟩ := Outcome.bind_eq_ok.1 hy
      obtain rfl : x₂ = x₁ := Except.ok.inj (hx₂.symm.trans hx₁)
      exact ih h₁ hrest (houter.imp fun hab hw => hab (hwithin₁ _ _ hw)) hk hy (hroot₁ ▸ hne)

/-- The expression of a queued decision comes to false when its turn comes. -/
def Rejected (x : Exporter) (item : DeferredItem) : Prop :=
  ∃ k y, x.engine.deferred.takeRequireds.1[k]? = some item ∧ x.pruneFirst k = .ok y ∧
    y.Rejects item

end Exporter

/-! ## The export -/

namespace Template

variable {fs : Files} {input : TemplateInput} {t : Template} {edited : Document}
  {filled pruned : Exporter}

/-- What pruning takes away was within an element that turned out not to be
required when its turn came.  Of such an element, unless it is the root, what
is left has only populated leaves. -/
theorem pruned_of_build (hbuild : Template.build fs input = .ok t)
    (htemplate : ∀ d, input.template = some (.document d) → d.WellFormed)
    (hedit : t.document.SameOutline edited)
    (hfills : (t.mapDocument fun _ => edited).exporter.resolveFills = .ok filled)
    (hprune : filled.prune = .ok pruned) :
    (∀ n, filled.document.isAttached n = true → pruned.document.isAttached n = false →
      ∃ item ∈ t.exporter.engine.deferred.requireds,
        filled.Rejected item ∧ Within filled.document item.node n) ∧
    (∀ item ∈ t.exporter.engine.deferred.requireds, filled.Rejected item →
      item.node ≠ pruned.document.root → pruned.document.isAttached item.node = true →
        ∀ leaf ∈ leaves pruned.document item.node, pruned.document.isPopulated leaf = true) := by
  obtain ⟨hpos, hwf, hwalked⟩ := walked_of_build hbuild htemplate
  have hdocument : (t.mapDocument fun _ => edited).exporter.document = edited :=
    Engine.template_setTemplate hpos edited
  have hpos' : 0 < (t.mapDocument fun _ => edited).exporter.engine.env.docs.size := by
    simpa [mapDocument, Engine.mapTemplate, Engine.setTemplate, Environment.setTemplate] using hpos
  obtain ⟨hpos₁, houtline, hrequireds, -⟩ := Exporter.resolveFills_spec hpos' hfills
  rw [hdocument] at houtline
  have hsame : t.document.SameOutline filled.document := hedit.trans houtline.symm
  have hqueue : filled.engine.deferred.requireds = t.exporter.engine.deferred.requireds := hrequireds
  -- The queue is drained from its end, where the inner elements are.
  have hinner : filled.engine.deferred.takeRequireds.1.Pairwise
      fun a b => ¬ Within filled.document a.node b.node := by
    rw [Deferred.takeRequireds, List.pairwise_reverse, hqueue]
    exact hwalked.outer_first.imp fun hab hw => hab ((hsame.within_iff _ _).2 hw)
  have hlive : Exporter.Live { filled with
      engine := { filled.engine with deferred := filled.engine.deferred.takeRequireds.2 } } :=
    ⟨hpos₁, hsame.wellFormed hwf⟩
  obtain ⟨hlive', hroot, -, -⟩ := hlive.pruneItems hprune
  refine ⟨fun n hn hgone => ?_, fun item hitem hrejected hne hleft => ?_⟩
  · have hgone' : ¬ Within pruned.document pruned.document.root n := by
      rw [← hlive'.wellFormed.isAttached_iff, hgone]
      exact Bool.false_ne_true
    obtain ⟨k, item, y, hk, hy, hrejects, hw⟩ :=
      hlive.exists_rejected hprune (hlive.wellFormed.isAttached_iff.1 hn) hgone'
    have hmem : item ∈ filled.engine.deferred.requireds :=
      List.mem_reverse.1 (List.mem_of_getElem? hk)
    exact ⟨item, hqueue ▸ hmem, ⟨k, y, hk, hy, hrejects⟩, hw⟩
  · obtain ⟨k, y, hk, hy, hrejects⟩ := hrejected
    exact hlive.populated_of_rejects hprune hinner hk hy hrejects (hroot ▸ hne)
      (hlive'.wellFormed.isAttached_iff.1 hleft)

/-- A template with an element that is not required; of its two leaves only
the second one is populated, and the first one is not required either. -/
def nestedOptionals : Document :=
  let required : Attribute :=
    ⟨⟨some directivePrefix, some directiveNamespace, "required"⟩, "false()"⟩
  .ofTree [] { name := .plain "a" } none
    (.node (.element
      { name := .plain "b"
        attributes := [⟨⟨some directivePrefix, some directiveNamespace, "sources"⟩, "template"⟩,
          required] })
      none
      (.node (.element { name := .plain "c", attributes := [required] }) none .nil
        (.node (.element { name := .plain "d", text := some "x" }) none .nil .nil))
      .nil)

/-- The inner element goes and the outer one stays with what is left. -/
theorem pruned_of_build_nestedOptionals :
    ∃ t filled pruned, Template.build {} { template := some (.document nestedOptionals) } = .ok t ∧
      (t.mapDocument fun _ => t.document).exporter.resolveFills = .ok filled ∧
      filled.prune = .ok pruned ∧ leaves pruned.document 1 = [3] ∧
      (∃ item ∈ t.exporter.engine.deferred.requireds,
        filled.Rejected item ∧ Within filled.document item.node 2) ∧
      ∀ item ∈ t.exporter.engine.deferred.requireds, filled.Rejected item → item.node = 1 →
        ∀ leaf ∈ leaves pruned.document item.node, pruned.document.isPopulated leaf = true := by
  let run : Except Error (Template × Exporter × Exporter) := do
    let t ← Template.build {} { template := some (.document nestedOptionals) }
    let filled ← (t.mapDocument fun _ => t.document).exporter.resolveFills
    let pruned ← filled.prune
    return (t, filled, pruned)
  have hrun : run.toOption.any (fun r => decide (r.2.1.document.isAttached 2 = true ∧
      r.2.2.document.isAttached 2 = false ∧ r.2.2.document.root ≠ 1 ∧
      r.2.2.document.isAttached 1 = true ∧ leaves r.2.2.document 1 = [3])) = true := by
    decide +kernel
  obtain ⟨⟨t, filled, pruned⟩, hresult, hcheck⟩ := (Option.any_eq_true _ _).1 hrun
  obtain ⟨hbefore, hgone, hroot, hleft, hleaves⟩ := of_decide_eq_true hcheck
  obtain ⟨t', hbuild, hresult⟩ := Outcome.bind_eq_ok.1 (Outcome.toOption_eq_some.1 hresult)
  obtain ⟨filled', hfills, hresult⟩ := Outcome.bind_eq_ok.1 hresult
  obtain ⟨pruned', hprune, hresult⟩ := Outcome.bind_eq_ok.1 hresult
  cases hresult
  have hwf : nestedOptionals.WellFormed := by
    refine wellFormed_ofTree ?_ _
    simp [Forest.Proper, NodeKind.isElement, NodeKind.element?]
  obtain ⟨hremoved, hstayed⟩ := pruned_of_build hbuild (fun d hd => by cases hd; exact hwf)
    (.refl _) hfills hprune
  refine ⟨t, filled, pruned, hbuild, hfills, hprune, hleaves, hremoved 2 hbefore hgone, ?_⟩
  intro item hitem hrejected hnode
  exact hstayed item hitem hrejected (hnode ▸ Ne.symm hroot) (hnode ▸ hleft)

end Template

end LabelTemplate
