import LabelTemplate.Proofs.Walk.Placing

/-!
# Parts of a template that have been walked

`Walked d ns q` is what the walk makes of the place of an element: on the
nodes `ns` and below them no directive is left, and `q` holds the decisions
that were deferred there.  Fills are queued for leaves and once each, and an
element that may turn out not to be required is queued before those below it.

Changes elsewhere leave such a part as it is (`Walked.frame`).  Parts that
stand side by side are put together (`Walked.append`), and an element closes
the part of its children (`Walked.close`).  `Inside d n e` is about the change
of one element: nothing outside it changes.
-/

namespace LabelTemplate

open Xml Document

/-! ## Queues one after the other -/

namespace Deferred

instance : Append Deferred := ⟨fun q r => ⟨q.fills ++ r.fills, q.requireds ++ r.requireds⟩⟩

variable (q r s : Deferred) (item : DeferredItem)

@[simp] theorem fills_append : (q ++ r).fills = q.fills ++ r.fills := rfl

@[simp] theorem requireds_append : (q ++ r).requireds = q.requireds ++ r.requireds := rfl

@[simp] theorem append_empty : q ++ ({} : Deferred) = q := by
  change Deferred.mk (q.fills ++ []) (q.requireds ++ []) = q
  rw [List.append_nil, List.append_nil]

@[simp] theorem empty_append : ({} : Deferred) ++ q = q := rfl

theorem append_assoc : q ++ r ++ s = q ++ (r ++ s) := by
  change Deferred.mk (q.fills ++ r.fills ++ s.fills) (q.requireds ++ r.requireds ++ s.requireds) =
    Deferred.mk (q.fills ++ (r.fills ++ s.fills)) (q.requireds ++ (r.requireds ++ s.requireds))
  rw [List.append_assoc, List.append_assoc]

theorem addFill_eq : q.addFill item = q ++ { fills := [item] } := by
  change Deferred.mk (q.fills ++ [item]) q.requireds =
    Deferred.mk (q.fills ++ [item]) (q.requireds ++ [])
  rw [List.append_nil]

theorem addRequired_eq : q.addRequired item = q ++ { requireds := [item] } := by
  change Deferred.mk q.fills (q.requireds ++ [item]) =
    Deferred.mk (q.fills ++ []) (q.requireds ++ [item])
  rw [List.append_nil]

end Deferred

/-! ## Walked parts -/

structure Walked (d : Document) (ns : List NodeId) (q : Deferred) : Prop where
  plain : ∀ n ∈ ns, ∀ m, Within d n m → ∀ a ∈ d.attributes m, isDirectiveAttribute a = false
  queued : ∀ item ∈ q.fills ++ q.requireds, ∃ n ∈ ns, Within d n item.node
  fill_leaf : ∀ item ∈ q.fills,
    d.hasElementChildren item.node = false ∧ item.state.declares .fill = true
  fills_once : q.fills.Pairwise fun a b => a.node ≠ b.node
  outer_first : q.requireds.Pairwise fun a b => ¬ Within d b.node a.node

namespace Walked

variable {d e : Document} {ns ms : List NodeId} {q r : Deferred} {n p : NodeId}

theorem nil (d : Document) : Walked d [] {} :=
  ⟨by simp, by simp, by simp, .nil, .nil⟩

/-- Changes outside the part leave it as it is. -/
theorem frame {out : NodeId → Prop} (h : Walked d ns q) (hframe : Frame out p d e)
    (hd : d.Linked) (he : e.Linked) (hns : ∀ n ∈ ns, n < d.size)
    (hout : ∀ n ∈ ns, ∀ m, Within d n m → out m ∧ m ≠ p) : Walked e ns q := by
  have hwithin : ∀ n ∈ ns, ∀ m, Within e n m ↔ Within d n m := fun n hn =>
    hframe.within_iff_of_above hd he (hns n hn) (hout n hn)
  have hlt : ∀ n ∈ ns, ∀ m, Within d n m → m < d.size := by
    rintro n hn m (rfl | hm)
    · exact hns m hn
    · exact lt_size_of_parent? hm.exists_parent.choose_spec
  have hitem : ∀ item ∈ q.fills ++ q.requireds, ∃ n ∈ ns, Within d n item.node := h.queued
  constructor
  · intro n hn m hm a ha
    have hm' := (hwithin n hn m).1 hm
    refine h.plain n hn m hm' a ?_
    have hkind := hframe.kind? (hlt n hn m hm') (hout n hn m hm').1
    simpa only [Document.attributes, element?, hkind] using ha
  · intro item hi
    obtain ⟨n, hn, hw⟩ := hitem item hi
    exact ⟨n, hn, (hwithin n hn _).2 hw⟩
  · intro item hi
    obtain ⟨hleaf, hfill⟩ := h.fill_leaf item hi
    obtain ⟨n, hn, hw⟩ := hitem item (List.mem_append_left _ hi)
    obtain ⟨ho, hp⟩ := hout n hn _ hw
    have hchildren := hframe.children _ (hlt n hn _ hw) ho hp
    refine ⟨?_, hfill⟩
    rw [← hleaf, hasElementChildren, hasElementChildren, hchildren, Bool.eq_iff_iff,
      List.any_eq_true, List.any_eq_true]
    exact exists_congr fun c => and_congr_right fun hc => by
      rw [hframe.isElement c (hd.child_lt_size hc)]
  · exact h.fills_once
  · refine h.outer_first.imp_of_mem fun {a b} _ hb hab => ?_
    obtain ⟨n, hn, hw⟩ := hitem b (List.mem_append_right _ hb)
    rw [hframe.within_iff_of_above hd he (hlt n hn _ hw)
      fun m hm => hout n hn m (hw.trans hm)]
    exact hab

/-- Parts that stand side by side, in whatever order. -/
theorem append (h : Walked d ns q) (h' : Walked d ms r) (hd : d.Linked)
    (hns : ∀ n ∈ ns, d.parent? n = some p) (hms : ∀ m ∈ ms, d.parent? m = some p)
    (hapart : ns.Disjoint ms) {all : List NodeId} (hall : ∀ n, n ∈ all ↔ n ∈ ns ∨ n ∈ ms) :
    Walked d all (q ++ r) := by
  have hmeet : ∀ {n m x}, n ∈ ns → m ∈ ms → Within d n x → Within d m x → False := by
    intro n m x hn hm hx hx'
    have heq := hd.not_within_siblings ((hns n hn).trans (hms m hm).symm) hx hx'
    exact hapart hn (heq ▸ hm)
  constructor
  · intro n hn
    rcases (hall n).1 hn with hn | hn
    · exact h.plain n hn
    · exact h'.plain n hn
  · intro item hi
    simp only [Deferred.fills_append, Deferred.requireds_append, List.mem_append] at hi
    have hside : item ∈ q.fills ++ q.requireds ∨ item ∈ r.fills ++ r.requireds := by
      simp only [List.mem_append]
      tauto
    rcases hside with hi | hi
    · obtain ⟨n, hn, hw⟩ := h.queued item hi
      exact ⟨n, (hall n).2 (.inl hn), hw⟩
    · obtain ⟨n, hn, hw⟩ := h'.queued item hi
      exact ⟨n, (hall n).2 (.inr hn), hw⟩
  · intro item hi
    rcases List.mem_append.1 hi with hi | hi
    · exact h.fill_leaf item hi
    · exact h'.fill_leaf item hi
  · refine List.pairwise_append.2 ⟨h.fills_once, h'.fills_once, fun a ha b hb hab => ?_⟩
    obtain ⟨n, hn, hw⟩ := h.queued a (List.mem_append_left _ ha)
    obtain ⟨m, hm, hw'⟩ := h'.queued b (List.mem_append_left _ hb)
    exact hmeet hn hm hw (hab ▸ hw')
  · refine List.pairwise_append.2 ⟨h.outer_first, h'.outer_first, fun a ha b hb hab => ?_⟩
    obtain ⟨n, hn, hw⟩ := h.queued a (List.mem_append_right _ ha)
    obtain ⟨m, hm, hw'⟩ := h'.queued b (List.mem_append_right _ hb)
    exact hmeet hn hm hw (hw'.trans hab)

/-- A part that stands beside a node, together with what a visit leaves in the
place of the node. -/
theorem beside {before after left all : List NodeId} (h : Walked d ns q)
    (hd : Stands d p before n after) (hns : ∀ c ∈ ns, c ∈ before ++ after)
    (hspliced : Spliced d p before n after left e) (hleft : Walked e left r)
    (hall : ∀ c, c ∈ all ↔ c ∈ ns ∨ c ∈ left) : Walked e all (q ++ r) := by
  have hlinked := hspliced.wellFormed.linked
  have hchildren : ∀ c, c ∈ e.children p ↔ c ∈ before ++ after ∨ c ∈ left := by
    intro c
    rw [hspliced.children]
    simp only [List.mem_append]
    tauto
  have hparent : ∀ c, c ∈ before ++ after ∨ c ∈ left → e.parent? c = some p := fun c hc =>
    (hlinked.parent_iff_child p c).2 ((hchildren c).2 hc)
  have hapart : (before ++ after).Disjoint left := by
    have hnodup := hspliced.wellFormed.children_nodup p
    have hperm : (e.children p).Perm ((before ++ after) ++ left) := by
      rw [hspliced.children, List.append_assoc, List.append_assoc]
      exact List.perm_append_comm.append_left before
    exact List.disjoint_of_nodup_append (hperm.nodup_iff.1 hnodup)
  have hstill : Walked e ns q := h.frame hspliced.frame hd.wellFormed.linked hlinked
    (fun c hc => hd.lt_size_of_sibling (hns c hc))
    fun c hc m hm => hd.not_within_sibling (hns c hc) hm
  exact hstill.append hleft hlinked (fun c hc => hparent c (.inl (hns c hc)))
    (fun c hc => hparent c (.inr hc)) (fun c hc => hapart (hns c hc)) hall

/-- Comments have nothing to be walked. -/
theorem of_comments (hd : d.Linked) (hns : ∀ n ∈ ns, d.isElement n = false) : Walked d ns {} := by
  refine ⟨fun n hn m hm a ha => ?_, by simp, by simp, .nil, .nil⟩
  have helem : d.element? n = none := by simpa [isElement] using hns n hn
  rcases hm with rfl | hm
  · simp [Document.attributes, helem] at ha
  · have h := isElement_of_below hd hm
    rw [hns n hn] at h
    cases h

/-- An element without directives closes the part of its children. -/
theorem close (hd : d.Linked) (h : Walked d (d.children n) q)
    (hplain : ∀ a ∈ d.attributes n, isDirectiveAttribute a = false) :
    Walked d [n] q ∧ ∀ item ∈ q.requireds, item.node ≠ n := by
  have hparent : ∀ c ∈ d.children n, d.parent? c = some n := fun c hc =>
    (hd.parent_iff_child n c).2 hc
  have hbelow : ∀ item ∈ q.fills ++ q.requireds, Below d n item.node := by
    intro item hi
    obtain ⟨c, hc, hw⟩ := h.queued item hi
    exact hw.below (hparent c hc)
  refine ⟨⟨?_, fun item hi => ?_, h.fill_leaf, h.fills_once, h.outer_first⟩, fun item hi he => ?_⟩
  · intro m hm x hx
    rw [List.mem_singleton.1 hm] at hx
    rcases hx with rfl | hx
    · exact hplain
    · obtain ⟨c, hc, hw⟩ := hx.exists_child
      exact h.plain c ((hd.parent_iff_child n c).1 hc) x hw
  · exact ⟨n, List.mem_singleton_self n, .inr (hbelow item hi)⟩
  · exact hd.acyclic n (he ▸ hbelow item (List.mem_append_right _ hi))

/-- A leaf whose fill is deferred. -/
theorem fill (h : Walked d [n] {}) (hleaf : d.hasElementChildren n = false) {s : ElementState}
    (hfill : s.declares .fill = true) : Walked d [n] { fills := [⟨s, n⟩] } := by
  refine ⟨h.plain, fun item hi => ?_, fun item hi => ?_, List.pairwise_singleton _ _, .nil⟩
  · rw [List.append_nil, List.mem_singleton] at hi
    exact ⟨n, List.mem_singleton_self n, hi ▸ within_self d n⟩
  · rw [List.mem_singleton.1 hi]
    exact ⟨hleaf, hfill⟩

/-- An element of which it is left open whether it is required, queued before
what is below it. -/
theorem require (hd : d.Linked) (h : Walked d [n] q) (hbelow : ∀ item ∈ q.requireds, item.node ≠ n)
    (s : ElementState) : Walked d [n] ({ requireds := [⟨s, n⟩] } ++ q) := by
  refine ⟨h.plain, fun item hi => ?_, h.fill_leaf, h.fills_once, ?_⟩
  · rcases List.mem_append.1 hi with hi | hi
    · exact h.queued item (List.mem_append_left _ hi)
    · rcases List.mem_append.1 hi with hi | hi
      · rw [List.mem_singleton.1 hi]
        exact ⟨n, List.mem_singleton_self n, within_self d n⟩
      · exact h.queued item (List.mem_append_right _ hi)
  · refine List.pairwise_cons.2 ⟨fun item hi hw => ?_, h.outer_first⟩
    obtain ⟨m, hm, hitem⟩ := h.queued item (List.mem_append_right _ hi)
    rw [List.mem_singleton.1 hm] at hitem
    rcases hitem with he | hitem
    · exact hbelow item hi he
    · rcases hw with he | hw
      · exact hbelow item hi he.symm
      · exact hd.acyclic n (hitem.trans hw)

end Walked

/-! ## Changes of one element -/

/-- Nothing outside the node changes, and the node stays where it is. -/
structure Inside (d : Document) (n : NodeId) (e : Document) : Prop where
  wellFormed : e.WellFormed
  frame : Frame (¬ Within d n ·) n d e

namespace Inside

variable {d e f : Document} {n p : NodeId}

theorem refl (hd : d.WellFormed) (n : NodeId) : Inside d n d := ⟨hd, Frame.refl _ n d⟩

theorem updateElement (hd : d.WellFormed) (n : NodeId) (g : Element → Element) :
    Inside d n (d.updateElement n g) where
  wellFormed := hd.updateElement n g
  frame := (frame_updateElement d n n g).mono fun _ _ ho hm => ho (.inl hm)

/-- Changes below the node. -/
theorem of_below (he : e.WellFormed) (h : Frame (¬ Below d n ·) n d e) : Inside d n e where
  wellFormed := he
  frame := h.mono fun _ _ ho hb => ho (.inr hb)

theorem trans (h : Inside d n e) (hd : d.WellFormed) (h' : Inside e n f) : Inside d n f where
  wellFormed := h'.wellFormed
  frame := h.frame.trans h'.frame fun _ hm ho =>
    h.frame.not_within hd.linked (fun _ _ hw ho hn => ho (hn.trans hw))
      (fun _ ho => ho (within_self d n)) hm ho

theorem parent (h : Inside d n e) (hd : d.WellFormed) (hp : d.parent? n = some p) :
    e.parent? n = some p := by
  have hout : ¬ Within d n p := hd.linked.not_within_self_parent hp
  rw [h.wellFormed.parent_iff_child, h.frame.children p (hd.linked.parent_lt_size hp) hout
    fun hpn => hout (.inl hpn), ← hd.parent_iff_child]
  exact hp

/-- The node stays attached. -/
theorem attached (h : Inside d n e) (hd : d.WellFormed) (hn : Within d d.root n) :
    Within e e.root n := by
  by_cases hroot : n = d.root
  · rw [h.frame.root, hroot]
    exact within_self e _
  · obtain ⟨p, hp, hatt⟩ := hn.exists_parent hroot
    refine within_of_parent? (h.parent hd hp) ?_
    rw [h.frame.root, h.frame.within_iff hd.linked (fun _ _ => not_within_parent)
      (hd.linked.parent_lt_size hp) (hd.linked.not_within_self_parent hp)]
    exact hatt

theorem spliced {before after : List NodeId} (h : Inside d n e)
    (hd : Stands d p before n after) : Spliced d p before n after [n] e where
  wellFormed := h.wellFormed
  frame := h.frame.of_children p fun _ ho => ⟨ho, fun hm => ho (.inl hm)⟩
  children := by
    have hout : ¬ Within d n p := hd.not_within_above (within_self d p)
    rw [h.frame.children p (hd.wellFormed.linked.parent_lt_size hd.parent) hout
      fun hpn => hout (.inl hpn), hd.children]
    simp

end Inside

end LabelTemplate
