import LabelTemplate.Proofs.Export.Resolved

/-!
# The queues that a build leaves

What the walk defers is kept in two queues until the export.  `Deferred.InOrder`
is about these queues and the template they are about: the nodes stand in the
template, none is queued twice, a fill is queued for a leaf that has one, and of
two elements that may turn out not to be required the outer one is queued first.

A build leaves them so (`Template.inOrder_of_build`), however many times an
element was visited on the way.  The export takes the decisions in the other
order, so it decides on everything below an element before the element itself
(`Deferred.InOrder.innermost_first`).
-/

namespace LabelTemplate

open Xml Document

/-- The queues `q` are in order about the template `d`. -/
structure Deferred.InOrder (q : Deferred) (d : Document) : Prop where
  element : ∀ item ∈ q.fills ++ q.requireds, d.isElement item.node = true
  attached : ∀ item ∈ q.fills ++ q.requireds, d.isAttached item.node = true
  fill_leaf : ∀ item ∈ q.fills, d.hasElementChildren item.node = false ∧
    ∃ expression, item.state.declared.expression? .fill = some expression
  fills_nodup : (q.fills.map (·.node)).Nodup
  requireds_nodup : (q.requireds.map (·.node)).Nodup
  outer_first : ∀ (i j : Nat) (outer inner : DeferredItem), q.requireds[i]? = some outer →
    q.requireds[j]? = some inner → Below d outer.node inner.node → i < j

/-- The decisions on all that is below an element come before its own. -/
theorem Deferred.InOrder.innermost_first {q : Deferred} {d : Document} (h : q.InOrder d) :
    q.takeRequireds.1.Pairwise fun a b => ¬ Below d a.node b.node := by
  rw [Deferred.takeRequireds, List.pairwise_reverse, List.pairwise_iff_getElem]
  intro i j hi hj hij hbelow
  have hji : j < i := h.outer_first j i _ _ (List.getElem?_eq_getElem hj)
    (List.getElem?_eq_getElem hi) hbelow
  exact Nat.lt_asymm hij hji

/-- The queues of a template that was walked from its root. -/
theorem Walked.inOrder {d : Document} {q : Deferred} (h : Walked d [d.root] q)
    (hwf : d.WellFormed) (helement : ∀ item ∈ q.fills ++ q.requireds, d.isElement item.node = true) :
    q.InOrder d where
  element := helement
  attached item hitem := by
    obtain ⟨n, hn, hwithin⟩ := h.queued item hitem
    rw [List.mem_singleton.1 hn] at hwithin
    exact hwf.isAttached_iff.2 hwithin
  fill_leaf item hitem := by
    obtain ⟨hleaf, hfill⟩ := h.fill_leaf item hitem
    exact ⟨hleaf, Option.isSome_iff_exists.1 hfill⟩
  fills_nodup := List.pairwise_map.2 h.fills_once
  requireds_nodup := by
    -- A node is within itself, so one that came twice would come after itself.
    refine List.pairwise_map.2 (h.outer_first.imp fun {a b} hab heq => hab ?_)
    rw [heq]
    exact within_self d b.node
  outer_first i j outer inner hi hj hbelow := by
    by_contra hij
    rcases Nat.lt_or_eq_of_le (Nat.not_lt.1 hij) with hlt | rfl
    · obtain ⟨hi', rfl⟩ := List.getElem?_eq_some_iff.1 hi
      obtain ⟨hj', rfl⟩ := List.getElem?_eq_some_iff.1 hj
      exact List.pairwise_iff_getElem.1 h.outer_first j i hj' hi' hlt (.inr hbelow)
    · rw [hi] at hj
      cases hj
      exact hwf.linked.acyclic _ hbelow

namespace Template

variable {fs : Files} {input : TemplateInput} {t : Template}

/-- A build leaves its queues in order. -/
theorem inOrder_of_build (hbuild : Template.build fs input = .ok t)
    (htemplate : ∀ d, input.template = some (.document d) → d.WellFormed) :
    t.exporter.engine.deferred.InOrder t.document := by
  obtain ⟨-, hwf, hwalked⟩ := walked_of_build hbuild htemplate
  exact hwalked.inOrder hwf (sound_of_build_wellFormed hbuild htemplate).queued

/-- A template with an element for each source, which has two copies of an
element with a fill below it.  None of them is required. -/
def undecidedCopies : Document :=
  .ofTree [] { name := .plain "a" } none
    (.node (.element
      { name := .plain "b"
        attributes := [⟨⟨some directivePrefix, some directiveNamespace, "sources"⟩, "s"⟩,
          ⟨⟨some directivePrefix, some directiveNamespace, "required"⟩, "false()"⟩] })
      none
      (.node (.element
        { name := .plain "c"
          attributes := [⟨⟨some directivePrefix, some directiveNamespace, "multi"⟩, "2"⟩,
            ⟨⟨some directivePrefix, some directiveNamespace, "required"⟩, "false()"⟩] })
        none
        (.node (.element
          { name := .plain "d"
            attributes := [⟨⟨some directivePrefix, some directiveNamespace, "fill"⟩, "'x'"⟩,
              ⟨⟨some directivePrefix, some directiveNamespace, "defer"⟩, "true()"⟩] })
          none .nil .nil)
        .nil)
      .nil)

def undecidedFromTwo : TemplateInput :=
  { template := some (.document undecidedCopies)
    sources := [⟨"s", [.document (.ofTree [] { name := .plain "a" } none .nil),
      .document (.ofTree [] { name := .plain "a" } none .nil)]⟩] }

/-- The element for the second source, which is node 4, is walked before the one for
the first; either is queued before the copies below it. -/
theorem inOrder_of_build_undecidedFromTwo :
    ∃ t, Template.build {} undecidedFromTwo = .ok t ∧
      t.exporter.engine.deferred.requireds.map (·.node) = [4, 5, 7, 1, 2, 9] ∧
      t.exporter.engine.deferred.fills.map (·.node) = [6, 8, 3, 10] ∧
      t.exporter.engine.deferred.InOrder t.document := by
  have hrun : ((Template.build {} undecidedFromTwo).toOption.any fun t =>
      decide (t.exporter.engine.deferred.requireds.map (·.node) = [4, 5, 7, 1, 2, 9] ∧
        t.exporter.engine.deferred.fills.map (·.node) = [6, 8, 3, 10])) = true := by
    decide +kernel
  obtain ⟨t, ht, hqueues⟩ := (Option.any_eq_true _ _).1 hrun
  obtain ⟨hrequireds, hfills⟩ := of_decide_eq_true hqueues
  have hwf : undecidedCopies.WellFormed := by
    refine wellFormed_ofTree ?_ _
    simp [Forest.Proper, NodeKind.isElement, NodeKind.element?]
  refine ⟨t, Outcome.toOption_eq_some.1 ht, hrequireds, hfills, ?_⟩
  refine inOrder_of_build (Outcome.toOption_eq_some.1 ht) fun d hd => ?_
  cases hd
  exact hwf

end Template

end LabelTemplate
