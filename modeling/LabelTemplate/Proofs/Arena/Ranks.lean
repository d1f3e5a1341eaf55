import LabelTemplate.Proofs.Arena.Order
import LabelTemplate.Proofs.Reading.Run
import Mathlib.Data.Set.Function

/-!
# What is attached

Whether a node hangs below the root can be seen in three ways: by following
its parents up (`isAttached`), by going through the subtree of the root
(`descendants`), and by looking the node up in the table of ranks
(`documentOrder`).  In a well-formed arena they agree, also about nodes that
are detached, copied or comments: `WellFormed.reachability_views`.

The rank of a node is its place in the traversal from the root
(`WellFormed.rank?_eq_some_iff`), so what is earlier in document order has the
lower rank (`WellFormed.ranksBefore_of_earlier`), and conversely
(`earlier_of_rank`).
-/

namespace LabelTemplate.Xml.Document

/-- The rank of a node in document order; what is not attached has none. -/
def rank? (d : Document) (n : NodeId) : Option Nat := d.documentOrder.getD n none

/-- Both nodes have a rank, and `m` has the lower one. -/
def RanksBefore (d : Document) (m n : NodeId) : Prop :=
  ∃ r s, d.rank? m = some r ∧ d.rank? n = some s ∧ r < s

/-! ## The table of ranks -/

section Ranks

variable {l : List NodeId} {acc : Array (Option Nat)} {n : NodeId}

theorem ranks_of_not_mem (start : Nat) (hn : n ∉ l) :
    ((l.zipIdx start).foldl (fun ranks (n, rank) => ranks.setIfInBounds n (some rank)) acc)[n]? =
      acc[n]? := by
  induction l generalizing start acc with
  | nil => rfl
  | cons x l ih =>
    rw [List.zipIdx_cons, List.foldl_cons, ih (start + 1) fun h => hn (List.mem_cons_of_mem _ h),
      Array.getElem?_setIfInBounds, if_neg]
    rintro rfl
    exact hn List.mem_cons_self

/-- A node of the list is ranked by its place in it. -/
theorem ranks_of_getElem? (hl : l.Nodup) (hn : n < acc.size) (start : Nat) {i : Nat}
    (hi : l[i]? = some n) :
    ((l.zipIdx start).foldl (fun ranks (n, rank) => ranks.setIfInBounds n (some rank)) acc)[n]? =
      some (some (start + i)) := by
  induction l generalizing start acc i with
  | nil => simp at hi
  | cons x l ih =>
    obtain ⟨hx, hl⟩ := List.nodup_cons.1 hl
    rw [List.zipIdx_cons, List.foldl_cons]
    cases i with
    | zero =>
      obtain rfl : x = n := by simpa using hi
      rw [ranks_of_not_mem (start + 1) hx, Array.getElem?_setIfInBounds, if_pos rfl, if_pos hn,
        Nat.add_zero]
    | succ i =>
      rw [ih hl (by rwa [Array.size_setIfInBounds]) (start + 1) (by simpa using hi)]
      congr 2
      omega

end Ranks

variable {d : Document}

/-- What the traversal from the root does not meet has no rank. -/
theorem rank?_of_not_mem {n : NodeId} (hn : n ∉ d.descendants d.root) : d.rank? n = none := by
  rw [rank?, Array.getD_eq_getD_getElem?, documentOrder, ranks_of_not_mem 0 hn,
    Array.getElem?_replicate]
  split <;> rfl

namespace WellFormed

variable (hd : d.WellFormed) {m n : NodeId} {r s : Nat}

include hd

theorem rank?_of_getElem? (hr : (d.descendants d.root)[r]? = some n) : d.rank? n = some r := by
  have hn : Within d d.root n :=
    (hd.mem_descendants hd.root_lt_size).1 (List.mem_of_getElem? hr)
  have hsize : n < (Array.replicate d.size (none : Option Nat)).size := by
    rw [Array.size_replicate]
    exact hd.lt_size_of_within_root hn
  rw [rank?, Array.getD_eq_getD_getElem?, documentOrder,
    ranks_of_getElem? (hd.nodup_descendants hd.root_lt_size) hsize 0 hr, Nat.zero_add,
    Option.getD_some]

/-- The rank of a node is its place in the traversal from the root. -/
theorem rank?_eq_some_iff : d.rank? n = some r ↔ (d.descendants d.root)[r]? = some n := by
  constructor
  · intro h
    by_cases hn : n ∈ d.descendants d.root
    · obtain ⟨i, hi⟩ := List.getElem?_of_mem hn
      obtain rfl : i = r := Option.some.inj ((hd.rank?_of_getElem? hi).symm.trans h)
      exact hi
    · rw [rank?_of_not_mem hn] at h
      cases h
  · exact hd.rank?_of_getElem?

/-- Every node of the tree has a rank. -/
theorem exists_rank (hn : Within d d.root n) : ∃ r, d.rank? n = some r := by
  obtain ⟨r, hr⟩ := List.getElem?_of_mem ((hd.mem_descendants hd.root_lt_size).2 hn)
  exact ⟨r, hd.rank?_of_getElem? hr⟩

theorem earlier_of_rank (hr : d.rank? m = some r) (hs : d.rank? n = some s) (hrs : r < s) :
    Earlier d m n := by
  obtain ⟨hlr, rfl⟩ := List.getElem?_eq_some_iff.1 (hd.rank?_eq_some_iff.1 hr)
  obtain ⟨hls, rfl⟩ := List.getElem?_eq_some_iff.1 (hd.rank?_eq_some_iff.1 hs)
  exact List.pairwise_iff_getElem.1 (hd.pairwise_descendants hd.root_lt_size) r s hlr hls hrs

theorem ranksBefore_of_earlier (hm : Within d d.root m) (hn : Within d d.root n)
    (h : Earlier d m n) : d.RanksBefore m n := by
  obtain ⟨r, hr⟩ := hd.exists_rank hm
  obtain ⟨s, hs⟩ := hd.exists_rank hn
  refine ⟨r, s, hr, hs, ?_⟩
  rcases Nat.lt_trichotomy r s with hrs | rfl | hrs
  · exact hrs
  · rw [hd.rank?_eq_some_iff] at hr hs
    exact absurd (Option.some.inj (hr.symm.trans hs)) (h.ne hd.linked)
  · exact absurd (hd.earlier_of_rank hs hr hrs) (h.asymm hd.linked)

/-! ## Three views -/

/-- The traversal with a stack gives the preorder and nothing else. -/
theorem preorder_iff {ids : List NodeId} (hn : n < d.size) :
    Preorder d [n] ids ↔ ids = d.descendants n := by
  constructor
  · intro h
    exact h.unique (hd.preorder_descendants hn)
  · rintro rfl
    exact hd.preorder_descendants hn

/-- What the way up reaches the root from is what the way down meets. -/
theorem isAttached_iff_mem_descendants :
    d.isAttached n = true ↔ n ∈ d.descendants d.root := by
  rw [hd.isAttached_iff, hd.mem_descendants hd.root_lt_size]

theorem isSome_rank?_iff : (d.rank? n).isSome = true ↔ n ∈ d.descendants d.root := by
  constructor
  · intro h
    obtain ⟨r, hr⟩ := Option.isSome_iff_exists.1 h
    exact List.mem_of_getElem? (hd.rank?_eq_some_iff.1 hr)
  · intro h
    obtain ⟨r, hr⟩ := hd.exists_rank ((hd.mem_descendants hd.root_lt_size).1 h)
    rw [hr]
    rfl

/-- Each attached node has one rank, and each number below their count is the
rank of one of them. -/
theorem bijOn_rank? : Set.BijOn d.rank? {n | d.isAttached n = true}
    (some '' Set.Iio (d.descendants d.root).length) := by
  refine ⟨fun n hn => ?_, fun m hm n hn hmn => ?_, ?_⟩
  · obtain ⟨r, hr⟩ := hd.exists_rank (hd.isAttached_iff.1 hn)
    have hlt : r < (d.descendants d.root).length :=
      (List.getElem?_eq_some_iff.1 (hd.rank?_eq_some_iff.1 hr)).1
    exact ⟨r, hlt, hr.symm⟩
  · obtain ⟨r, hr⟩ := hd.exists_rank (hd.isAttached_iff.1 hm)
    have hs : d.rank? n = some r := hmn ▸ hr
    rw [hd.rank?_eq_some_iff] at hr hs
    exact Option.some.inj (hr.symm.trans hs)
  · rintro _ ⟨r, hr, rfl⟩
    have hget : (d.descendants d.root)[r]? = some (d.descendants d.root)[r] :=
      List.getElem?_eq_getElem hr
    exact ⟨_, hd.isAttached_iff_mem_descendants.2 (List.mem_of_getElem? hget),
      hd.rank?_of_getElem? hget⟩

/-- The traversal with a stack gives the subtree of a node in preorder, each
node once.  What is attached according to its parents is what the traversal
meets from the root, and what has a rank.  The ranks number the attached nodes
without gaps, a parent before its children, and all that is within a child
before all that is within a later child. -/
theorem reachability_views :
    (∀ n, n < d.size →
      (∀ ids, Preorder d [n] ids ↔ ids = d.descendants n) ∧ (d.descendants n).Nodup) ∧
    (∀ n, (d.isAttached n = true ↔ n ∈ d.descendants d.root) ∧
      (n ∈ d.descendants d.root ↔ (d.rank? n).isSome = true)) ∧
    Set.BijOn d.rank? {n | d.isAttached n = true}
      (some '' Set.Iio (d.descendants d.root).length) ∧
    (∀ p c, d.isAttached p = true → d.parent? c = some p → d.RanksBefore p c) ∧
    ∀ p a b, d.isAttached p = true → [a, b].Sublist (d.children p) →
      ∀ m ∈ d.descendants a, ∀ n ∈ d.descendants b, d.RanksBefore m n := by
  refine ⟨fun n hn => ⟨fun ids => hd.preorder_iff hn, hd.nodup_descendants hn⟩,
    fun n => ⟨hd.isAttached_iff_mem_descendants, hd.isSome_rank?_iff.symm⟩, hd.bijOn_rank?,
    ?parent, ?siblings⟩
  case parent =>
    intro p c hp hc
    have hroot : Within d d.root p := hd.isAttached_iff.1 hp
    exact hd.ranksBefore_of_earlier hroot (within_of_parent? hc hroot) (.above (.child hc))
  case siblings =>
    intro p a b hp hab m hm n hn
    have hchild : ∀ x ∈ [a, b], d.parent? x = some p := fun x hx =>
      (hd.parent_iff_child p x).2 (hab.subset hx)
    have hroot : ∀ x ∈ [a, b], Within d d.root x := fun x hx =>
      within_of_parent? (hchild x hx) (hd.isAttached_iff.1 hp)
    have ha : Within d a m := within_of_mem_descendants hd.linked hm
    have hb : Within d b n := within_of_mem_descendants hd.linked hn
    exact hd.ranksBefore_of_earlier ((hroot a (by simp)).trans ha) ((hroot b (by simp)).trans hb)
      (.aside hab ha hb)

end WellFormed

/-- Two branches with a comment in the first one, and the second one
detached. -/
def halfDetached : Document :=
  (ofTree [] { name := .plain "a" } none
    (.node (.element { name := .plain "b" }) none
      (.node (.comment "between") none .nil
        (.node (.element { name := .plain "c" }) none .nil .nil))
      (.node (.element { name := .plain "b" }) none
        (.node (.element { name := .plain "c" }) none .nil .nil)
        (.node (.element { name := .plain "d" }) none .nil .nil)))).detach 4

theorem halfDetached_wellFormed : halfDetached.WellFormed :=
  (wellFormed_ofTree (by simp [Forest.Proper, NodeKind.isElement, NodeKind.element?]) _).detach 4

theorem reachability_views_halfDetached :
    Preorder halfDetached [0] [0, 1, 2, 3, 6] ∧ Preorder halfDetached [4] [4, 5] ∧
      halfDetached.isAttached 5 = false ∧ halfDetached.rank? 5 = none ∧
      Set.BijOn halfDetached.rank? {n | halfDetached.isAttached n = true} (some '' Set.Iio 5) ∧
      halfDetached.RanksBefore 1 2 ∧ halfDetached.RanksBefore 3 6 := by
  obtain ⟨hpreorder, hviews, hranks, hparent, hsiblings⟩ :=
    halfDetached_wellFormed.reachability_views
  refine ⟨((hpreorder 0 (by decide)).1 _).2 (by decide +kernel),
    ((hpreorder 4 (by decide)).1 _).2 (by decide +kernel), by decide +kernel, ?_, hranks,
    hparent 1 2 (by decide +kernel) (by decide +kernel),
    hsiblings 0 1 6 (by decide +kernel) (by decide +kernel) 3 (by decide +kernel) 6
      (by decide +kernel)⟩
  have hout : ¬ (halfDetached.rank? 5).isSome = true := by
    rw [← (hviews 5).2, ← (hviews 5).1]
    decide +kernel
  simpa using hout

end LabelTemplate.Xml.Document
