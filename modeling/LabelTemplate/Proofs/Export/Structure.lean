import LabelTemplate.Proofs.Arena.Outline
import LabelTemplate.Proofs.Walk.Build
import LabelTemplate.Template.Export

/-!
# The template and its snapshot stay in step

The export drops an element from the template by its id and from the snapshot
by its path.  Both are the same element as long as the two documents have one
outline, because the path of an attached element leads to that element alone.
So `Exporter.InStep` is kept by every fill and by every single decision of
pruning, and the comparison of structures at the end finds no change.

The outline of a document has the ids in it.  What has the outline of the
snapshot has therefore lost exactly the same subtrees.
-/

namespace LabelTemplate

open Xml Document

/-! ## Comparing documents with one outline -/

/-- Documents with one outline miss nothing of each other. -/
theorem missingFrom_eq_nil {d e : Document} (h : d.SameOutline e) (hd : d.WellFormed) :
    missingFrom d e = [] := by
  unfold missingFrom
  rw [List.filterMap_eq_nil_iff]
  intro n hn
  obtain ⟨hmem, helem⟩ := List.mem_filter.1 hn
  have hfind : e.find? (d.elementPath n) = some n := by
    rw [← h.find?]
    exact hd.find?_elementPath (within_of_mem_descendants hd.linked hmem) helem
  simp [hfind]

theorem structureDiff_eq_nil {d e : Document} (h : d.SameOutline e) (hd : d.WellFormed) :
    structureDiff d e = ([], []) := by
  rw [structureDiff, missingFrom_eq_nil h hd, missingFrom_eq_nil h.symm (h.wellFormed hd)]

/-! ## Fills -/

/-- A fill writes a text and nothing else. -/
theorem Engine.resolveFill_spec {e e' : Engine} {item : DeferredItem}
    (hpos : 0 < e.env.docs.size) (hok : e.resolveFill item = .ok e') :
    0 < e'.env.docs.size ∧ e'.template.SameOutline e.template ∧ e'.deferred = e.deferred := by
  obtain ⟨v, -, hok⟩ := Outcome.bind_eq_ok.1 hok
  cases v with
  | none =>
    cases hok
    exact ⟨hpos, .refl _, rfl⟩
  | some v =>
    obtain ⟨d, hd, hok⟩ := Outcome.bind_eq_ok.1 hok
    cases hok
    obtain ⟨text, rfl⟩ := Engine.applyFill_spec hd
    refine ⟨?_, ?_, rfl⟩
    · simpa [Engine.setTemplate, Environment.setTemplate] using hpos
    · rw [Engine.template_setTemplate hpos]
      exact .setText e.template item.node (some text)

namespace Exporter

/-- So do all of them. -/
theorem resolveFills_spec {x x' : Exporter} (hpos : 0 < x.engine.env.docs.size)
    (hok : x.resolveFills = .ok x') :
    0 < x'.engine.env.docs.size ∧ x'.document.SameOutline x.document ∧
      x'.engine.deferred.requireds = x.engine.deferred.requireds ∧ x'.snapshot = x.snapshot := by
  obtain ⟨e, he, hok⟩ := Outcome.bind_eq_ok.1 hok
  cases hok
  have h : 0 < e.env.docs.size ∧ e.template.SameOutline x.document ∧
      e.deferred = x.engine.deferred.takeFills.2 := by
    refine Outcome.foldlM_keeps (P := fun e : Engine => 0 < e.env.docs.size ∧
      e.template.SameOutline x.document ∧ e.deferred = x.engine.deferred.takeFills.2)
      ?_ ?_ he
    · intro item _ e₁ e₂ h₁ hstep
      obtain ⟨hpos₂, houtline, hdeferred⟩ := Engine.resolveFill_spec h₁.1 hstep
      exact ⟨hpos₂, houtline.trans h₁.2.1, hdeferred.trans h₁.2.2⟩
    · exact ⟨hpos, .refl _, rfl⟩
  obtain ⟨hpos', houtline, hdeferred⟩ := h
  refine ⟨hpos', houtline, ?_, rfl⟩
  rw [hdeferred]
  rfl

/-! ## In step -/

theorem document_drop {x : Exporter} (hpos : 0 < x.engine.env.docs.size) (n : NodeId) :
    (x.drop n).document = x.document.detach n :=
  Engine.template_setTemplate hpos _

theorem docs_pos_drop {x : Exporter} (hpos : 0 < x.engine.env.docs.size) (n : NodeId) :
    0 < (x.drop n).engine.env.docs.size := by
  simpa [drop, Engine.mapTemplate, Engine.setTemplate, Environment.setTemplate] using hpos

/-- The template has the outline of the snapshot `s`. -/
structure InStep (x : Exporter) (s : Document) : Prop where
  docs_pos : 0 < x.engine.env.docs.size
  snapshot : x.snapshot = some s
  wellFormed : x.document.WellFormed
  outline : x.document.SameOutline s

namespace InStep

variable {x x' : Exporter} {s : Document}

theorem checkStructure (h : x.InStep s) : x.checkStructure = .ok () := by
  unfold Exporter.checkStructure
  rw [h.snapshot]
  simp [structureDiff_eq_nil h.outline h.wellFormed]

/-- What is queued does not matter. -/
theorem setDeferred (h : x.InStep s) (deferred : Deferred) :
    InStep { x with engine := { x.engine with deferred } } s :=
  ⟨h.docs_pos, h.snapshot, h.wellFormed, h.outline⟩

/-- Dropping an attached element drops the same node from both. -/
theorem drop (h : x.InStep s) {n : NodeId} (helem : x.document.isElement n = true)
    (hatt : x.document.isAttached n = true) :
    (x.drop n).InStep (s.detach n) ∧ ∀ m, (x.drop n).document.isElement m = x.document.isElement m := by
  have htwin : s.find? (x.document.elementPath n) = some n := by
    rw [← h.outline.find?]
    exact h.wellFormed.find?_elementPath (h.wellFormed.isAttached_iff.1 hatt) helem
  have hdocument : (x.drop n).document = x.document.detach n := document_drop h.docs_pos n
  refine ⟨⟨?_, ?_, ?_, ?_⟩, fun m => by rw [hdocument, isElement_detach]⟩
  · exact docs_pos_drop h.docs_pos n
  · simp only [Exporter.drop, h.snapshot, Option.map_some, detachAt, htwin]
  · rw [hdocument]
    exact h.wellFormed.detach n
  · rw [hdocument]
    exact h.outline.detach n

/-- A decision of pruning keeps both in step. -/
theorem pruneItem (h : x.InStep s) {item : DeferredItem}
    (helem : x.document.isElement item.node = true) (hok : x.pruneItem item = .ok x') :
    (∃ s', x'.InStep s') ∧ ∀ m, x'.document.isElement m = x.document.isElement m := by
  obtain ⟨⟨required, state⟩, -, hok⟩ := Outcome.bind_eq_ok.1 hok
  simp only at hok
  split at hok
  · rename_i hdrop
    cases hok
    simp only [Bool.and_eq_true] at hdrop
    obtain ⟨hstep, hsame⟩ := h.drop helem hdrop.2
    exact ⟨⟨_, hstep⟩, hsame⟩
  · cases hok
    exact ⟨⟨s, h⟩, fun _ => rfl⟩

/-- So does every number of them. -/
theorem pruneItems (h : x.InStep s) {items : List DeferredItem}
    (helem : ∀ item ∈ items, x.document.isElement item.node = true)
    (hok : items.foldlM Exporter.pruneItem x = .ok x') : ∃ s', x'.InStep s' := by
  induction items generalizing x s with
  | nil =>
    cases hok
    exact ⟨s, h⟩
  | cons item items ih =>
    rw [List.foldlM_cons] at hok
    obtain ⟨x₁, hx₁, hok⟩ := Outcome.bind_eq_ok.1 hok
    obtain ⟨⟨s₁, h₁⟩, hsame⟩ := h.pruneItem (helem item List.mem_cons_self) hx₁
    exact ih h₁ (fun i hi => by rw [hsame]; exact helem i (List.mem_cons_of_mem _ hi)) hok

end InStep

/-- The first `k` decisions of pruning, innermost first. -/
def pruneFirst (x : Exporter) (k : Nat) : Except Error Exporter :=
  let (items, deferred) := x.engine.deferred.takeRequireds
  (items.take k).foldlM pruneItem { x with engine := { x.engine with deferred } }

theorem prune_eq_pruneFirst (x : Exporter) :
    x.prune = x.pruneFirst x.engine.deferred.requireds.length := by
  unfold prune pruneFirst Deferred.takeRequireds
  simp only
  rw [List.take_of_length_le (by rw [List.length_reverse])]

/-- The queued decisions are about elements of the template. -/
def QueuesElements (x : Exporter) : Prop :=
  ∀ item ∈ x.engine.deferred.requireds, x.document.isElement item.node = true

variable {x x' : Exporter} {s : Document}

theorem InStep.resolveFills (h : x.InStep s) (hqueue : x.QueuesElements)
    (hok : x.resolveFills = .ok x') : x'.InStep s ∧ x'.QueuesElements := by
  obtain ⟨hpos, houtline, hrequireds, hsnapshot⟩ := resolveFills_spec h.docs_pos hok
  refine ⟨⟨hpos, hsnapshot.trans h.snapshot, houtline.symm.wellFormed h.wellFormed,
    houtline.trans h.outline⟩, fun item hitem => ?_⟩
  rw [houtline.isElement]
  exact hqueue item (hrequireds ▸ hitem)

theorem InStep.pruneFirst (h : x.InStep s) (hqueue : x.QueuesElements) {k : Nat}
    (hok : x.pruneFirst k = .ok x') : ∃ s', x'.InStep s' := by
  have hitems : ∀ item ∈ x.engine.deferred.takeRequireds.1.take k,
      x.document.isElement item.node = true := fun item hitem =>
    hqueue item (List.mem_reverse.1 (List.mem_of_mem_take hitem))
  exact (h.setDeferred x.engine.deferred.takeRequireds.2).pruneItems hitems hok

/-- In step, the check of the structure decides nothing. -/
theorem InStep.finish (h : x.InStep s) (hqueue : x.QueuesElements) :
    x.finish = do
      let x ← x.resolveFills
      let x ← x.prune
      x.checkPopulation
      return x := by
  unfold Exporter.finish
  cases hfills : x.resolveFills with
  | error err => rfl
  | ok x₁ =>
    obtain ⟨h₁, hqueue₁⟩ := h.resolveFills hqueue hfills
    simp only [bind, Except.bind]
    cases hprune : x₁.prune with
    | error err => rfl
    | ok x₂ =>
      obtain ⟨s', h₂⟩ := h₁.pruneFirst hqueue₁ (prune_eq_pruneFirst x₁ ▸ hprune)
      simp only [h₂.checkStructure]

end Exporter

namespace Template

/-- A template that was built, also after an edit of texts and attributes, is
in step. -/
theorem inStep_of_build {fs : Files} {input : TemplateInput} {t : Template}
    (hbuild : Template.build fs input = .ok t) (hcheck : input.options.skipStructureCheck = false)
    (htemplate : ∀ d, input.template = some (.document d) → d.WellFormed) {edited : Document}
    (hedit : t.document.SameOutline edited) :
    (t.mapDocument fun _ => edited).exporter.InStep t.document ∧
      (t.mapDocument fun _ => edited).exporter.QueuesElements := by
  have hsound := sound_of_build_wellFormed hbuild htemplate
  obtain ⟨-, -, e₀, -, -, -, -, -, -, -, -, hsnapshot⟩ := build_eq_ok hbuild
  rw [hcheck] at hsnapshot
  have hdocument : (t.mapDocument fun _ => edited).exporter.document = edited :=
    Engine.template_setTemplate hsound.docs_pos edited
  refine ⟨⟨?_, hsnapshot, ?_, ?_⟩, fun item hitem => ?_⟩
  · simpa [mapDocument, Engine.mapTemplate, Engine.setTemplate, Environment.setTemplate] using
      hsound.docs_pos
  · rw [hdocument]
    exact hedit.wellFormed hsound.wellFormed
  · rw [hdocument]
    exact hedit.symm
  · rw [hdocument, ← hedit.isElement]
    exact hsound.queued item (List.mem_append_right _ hitem)

/-- Whatever is filled and pruned, the template keeps the outline of its
snapshot: after the fills and after every single decision of pruning the
comparison of the two finds nothing, and the export does the same as one
that does not compare them. -/
theorem structure_kept {fs : Files} {input : TemplateInput} {t : Template}
    (hbuild : Template.build fs input = .ok t) (hcheck : input.options.skipStructureCheck = false)
    (htemplate : ∀ d, input.template = some (.document d) → d.WellFormed) {edited : Document}
    (hedit : t.document.SameOutline edited) :
    (∀ filled, (t.mapDocument fun _ => edited).exporter.resolveFills = .ok filled →
      ∀ k pruned, filled.pruneFirst k = .ok pruned →
        ∃ s, pruned.snapshot = some s ∧ pruned.document.SameOutline s ∧
          structureDiff pruned.document s = ([], []) ∧ pruned.checkStructure = .ok ()) ∧
    (t.mapDocument fun _ => edited).exporter.finish = do
      let x ← (t.mapDocument fun _ => edited).exporter.resolveFills
      let x ← x.prune
      x.checkPopulation
      return x := by
  obtain ⟨hstep, hqueue⟩ := inStep_of_build hbuild hcheck htemplate hedit
  refine ⟨fun filled hfilled k pruned hpruned => ?_, hstep.finish hqueue⟩
  obtain ⟨hstep₁, hqueue₁⟩ := hstep.resolveFills hqueue hfilled
  obtain ⟨s, hs⟩ := hstep₁.pruneFirst hqueue₁ hpruned
  exact ⟨s, hs.snapshot, hs.outline, structureDiff_eq_nil hs.outline hs.wellFormed,
    hs.checkStructure⟩

/-- A template with one leaf that is not required. -/
def optionalLeaf : Document :=
  .ofTree [] { name := .plain "a" } none
    (.node (.element
      { name := .plain "b"
        attributes := [⟨⟨some directivePrefix, some directiveNamespace, "sources"⟩, "template"⟩,
          ⟨⟨some directivePrefix, some directiveNamespace, "required"⟩, "false()"⟩] })
      none .nil .nil)

theorem structure_kept_optionalLeaf :
    ∃ t edited, Template.build {} { template := some (.document optionalLeaf) } = .ok t ∧
      t.document.SameOutline edited ∧
      ∀ filled, (t.mapDocument fun _ => edited).exporter.resolveFills = .ok filled →
        ∀ k pruned, filled.pruneFirst k = .ok pruned →
          ∃ s, pruned.snapshot = some s ∧ pruned.document.SameOutline s ∧
            structureDiff pruned.document s = ([], []) ∧ pruned.checkStructure = .ok () := by
  obtain ⟨t, ht⟩ : ∃ t, Template.build {} { template := some (.document optionalLeaf) } = .ok t :=
    ⟨_, rfl⟩
  have hwf : optionalLeaf.WellFormed := by
    refine wellFormed_ofTree ?_ _
    simp [Forest.Proper, NodeKind.isElement, NodeKind.element?]
  have hedit : t.document.SameOutline (t.document.setText 0 (some "text")) :=
    (SameOutline.setText t.document 0 (some "text")).symm
  refine ⟨t, _, ht, hedit, ?_⟩
  exact (structure_kept ht rfl (fun d hd => by cases hd; exact hwf) hedit).1

end Template

end LabelTemplate
