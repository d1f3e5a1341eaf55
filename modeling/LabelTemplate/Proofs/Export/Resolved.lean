import LabelTemplate.Proofs.Walk.Enough

/-!
# What a built template is like

A build walks the whole template from its root, so the template that it gives
is a walked part (`walked_of_build`): the queued fills and decisions are about
nodes of it, and no directive is left in it (`plain_of_build`), neither on
what stood there from the start nor on copies nor on what a source gave.
-/

namespace LabelTemplate

open Xml Document

namespace Template

variable {fs : Files} {input : TemplateInput} {t : Template}

/-- The template that a build gives has been walked from its root. -/
theorem walked_of_build (hbuild : Template.build fs input = .ok t)
    (htemplate : ∀ d, input.template = some (.document d) → d.WellFormed) :
    0 < t.exporter.engine.env.docs.size ∧ t.document.WellFormed ∧
      Walked t.document [t.document.root] t.exporter.engine.deferred := by
  obtain ⟨given, d₀, e₀, hgiven, hgives, he₀, hpos, hdistinct, hdeferred, -, hwalk, -⟩ :=
    build_eq_ok hbuild
  have hwf : e₀.template.WellFormed :=
    he₀ ▸ (wellFormed_of_gives (fun d hd => htemplate d (hd ▸ hgiven)) hgives).stripped _
  have hrun : e₀.RunsIn e₀.env := ⟨hpos, (Engine.setTemplate_template hpos).symm, hwf⟩
  have hresult : Engine.process (Engine.depthBound e₀.template) .root e₀.template.root e₀ =
      .ok t.exporter.engine := by
    rw [(Engine.process_eq_walk hpos hwf hdistinct (Nat.le_refl _)).1, hwalk]
    rfl
  obtain ⟨f, hf, -⟩ := hwf.exists_spells [e₀.template.root] (by simpa using hwf.root_lt_size)
  have hends := Engine.process_root_ends hdistinct hrun hf (hf.weight_lt_depthBound hwf.linked)
  rw [hresult] at hends
  obtain ⟨hrun', hinside, q, hq, hwalked⟩ := hends.of_ok
  have hroot : t.document.root = e₀.template.root := hinside.frame.root
  have hempty : t.exporter.engine.deferred = q := by rw [hq, hdeferred, Deferred.empty_append]
  refine ⟨?_, hrun'.wellFormed, ?_⟩
  · rw [hrun'.env_eq]
    simpa [Environment.setTemplate] using hpos
  · rw [hroot, hempty]
    exact hwalked

/-- No directive is left on an element of a built template. -/
theorem plain_of_build (hbuild : Template.build fs input = .ok t)
    (htemplate : ∀ d, input.template = some (.document d) → d.WellFormed) {n : NodeId}
    (hn : t.document.isAttached n = true) :
    ∀ a ∈ t.document.attributes n, a.name.namespaceUri ≠ some directiveNamespace := by
  intro a ha
  obtain ⟨-, hwf, hwalked⟩ := walked_of_build hbuild htemplate
  have hplain := hwalked.plain _ (List.mem_singleton_self _) n (hwf.isAttached_iff.1 hn) a ha
  intro hname
  rw [isDirectiveAttribute, hname, beq_self_eq_true] at hplain
  cases hplain

/-- A template with one leaf that is fetched. -/
def fetchedLeaf : Document :=
  .ofTree [] { name := .plain "a" } none
    (.node (.element
      { name := .plain "b"
        attributes := [⟨⟨some directivePrefix, some directiveNamespace, "sources"⟩, "s"⟩,
          ⟨⟨some directivePrefix, some directiveNamespace, "fetch"⟩, "true()"⟩] })
      none .nil .nil)

/-- A source with a leaf that carries a directive itself. -/
def sourceWithDirective : Document :=
  .ofTree [] { name := .plain "a" } none
    (.node (.element
      { name := .plain "b"
        attributes := [⟨⟨some directivePrefix, some directiveNamespace, "defer"⟩, "true()"⟩,
          ⟨.plain "k", "v"⟩] })
      none .nil .nil)

def fetchedFromTwo : TemplateInput :=
  { template := some (.document fetchedLeaf)
    sources := [⟨"s", [.document sourceWithDirective, .document sourceWithDirective]⟩] }

/-- The copy for the second source has what the source gave, apart from its
directive. -/
theorem plain_of_build_fetchedFromTwo :
    ∃ t, Template.build {} fetchedFromTwo = .ok t ∧ t.document.isAttached 2 = true ∧
      t.document.attributes 2 = [⟨.plain "k", "v"⟩] ∧
      ∀ a ∈ t.document.attributes 2, a.name.namespaceUri ≠ some directiveNamespace := by
  have hrun : ((Template.build {} fetchedFromTwo).toOption.any fun t =>
      decide (t.document.isAttached 2 = true ∧
        t.document.attributes 2 = [⟨.plain "k", "v"⟩])) = true := by decide +kernel
  obtain ⟨t, ht, hcopy⟩ := (Option.any_eq_true _ _).1 hrun
  obtain ⟨hattached, hattributes⟩ := of_decide_eq_true hcopy
  have hwf : fetchedLeaf.WellFormed := by
    refine wellFormed_ofTree ?_ _
    simp [Forest.Proper, NodeKind.isElement, NodeKind.element?]
  refine ⟨t, Outcome.toOption_eq_some.1 ht, hattached, hattributes, ?_⟩
  refine plain_of_build (Outcome.toOption_eq_some.1 ht) (fun d hd => ?_) hattached
  cases hd
  exact hwf

end Template

end LabelTemplate
