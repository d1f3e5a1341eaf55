import LabelTemplate.Proofs.Walk.Invariant
import LabelTemplate.Proofs.Walk.Splice

/-!
# Copies put in place

Copying a subtree leaves all nodes alone and gives a detached node that
spells the same (`exists_copy`); inserting detached nodes changes the children
of one node.  `insertAll_clones_stands` puts the two together for the copies
of a node that are inserted after it.
-/

namespace LabelTemplate

open Xml Document

namespace Xml.Document

variable {d : Document} {n p : NodeId}

/-! ## One copy -/

theorem parent?_graft_size (d : Document) (t : Tree) :
    (d.graft none t.forest).parent? d.size = none := by
  rw [Tree.forest, graft_node, graft_nil, parent?_graft (by simp) t.kids (by simp),
    parent?_sprout _ _ _ _ (by simp), if_pos rfl]

/-- A copy of a subtree is new and detached, and spells what the subtree
spells. -/
theorem exists_copy (hd : d.WellFormed) {t : Tree} (hn : Spells d [n] t.forest) :
    ∃ e, d.deepClone n = (d.size, e) ∧ e.WellFormed ∧ (∀ p, Frame (fun _ => True) p d e) ∧
      d.size < e.size ∧ e.parent? d.size = none ∧ Spells e [d.size] t.forest := by
  have hspells : Spells (d.graft none t.forest) [d.size] t.forest :=
    spells_graft (by simp) t.forest
  refine ⟨_, deepClone_eq_graft hd hn, hd.graft (hn.proper hd.linked),
    fun p => frame_graft d p t.forest, ?_, parent?_graft_size d t, hspells⟩
  rw [size_graft, Tree.forest, Forest.size]
  omega

/-- Where no node changes all forests are still spelled. -/
theorem Spells.of_frames {e : Document} (hd : d.Linked) {ns : List NodeId} {f : Forest}
    (hf : Spells d ns f) (h : ∀ p, Frame (fun _ => True) p d e) : Spells e ns f := by
  refine hf.of_shells hd fun n _ m _ x hx => ?_
  have hlt : m < d.size := lt_size_of_node? hx
  exact ⟨(h d.size).shell m hlt trivial, (h d.size).children m hlt trivial (Nat.ne_of_lt hlt)⟩

/-! ## One insertion -/

theorem spells_insertChild (hd : d.Linked) (hp : p < d.size) {c : NodeId} (i : Nat)
    (hfree : d.parent? c = none) {ns : List NodeId} {f : Forest} (hf : Spells d ns f)
    (hns : ∀ m ∈ ns, ¬ Within d m p) : Spells (d.insertChild p i c) ns f := by
  refine hf.of_shells hd fun n hn m hm x _ => ⟨shell?_insertChild d p i c m, ?_⟩
  have hmp : m ≠ p := fun h => hns n hn (h ▸ hm)
  rw [children_insertChild d i c m hp, if_neg hmp, children_detach, hfree]
  simp

theorem children_insertChild_free (hp : p < d.size) {c : NodeId} (i : Nat)
    (hfree : d.parent? c = none) :
    (d.insertChild p i c).children p = (d.children p).take i ++ c :: (d.children p).drop i := by
  rw [children_insertChild d i c p hp, if_pos rfl, children_detach, hfree]
  simp

end Xml.Document

namespace Engine

variable {d : Document} {n p : NodeId}

/-! ## Several copies -/

theorem clones_frame (hd : d.WellFormed) {t : Tree} (hn : Spells d [n] t.forest) (count : Nat) :
    (clones d n count).2.WellFormed ∧ (∀ p, Frame (fun _ => True) p d (clones d n count).2) ∧
      (clones d n count).1.length = count ∧ (clones d n count).1.Nodup ∧
      ∀ c ∈ (clones d n count).1, d.size ≤ c ∧ c < (clones d n count).2.size ∧
        (clones d n count).2.parent? c = none ∧ Spells (clones d n count).2 [c] t.forest := by
  induction count generalizing d with
  | zero => exact ⟨hd, fun p => Frame.refl _ p d, rfl, .nil, by simp [clones]⟩
  | succ count ih =>
    obtain ⟨e, hclone, he, hframe, hlt, hfree, hcopy⟩ := exists_copy hd hn
    obtain ⟨hwf, hframe', hlen, hnodup, hids⟩ :=
      ih he (hn.of_frames hd.linked hframe)
    simp only [clones, hclone]
    refine ⟨hwf, fun p => (hframe p).trans (hframe' p) fun _ _ _ => trivial, by simp [hlen],
      List.nodup_cons.2 ⟨fun h => Nat.not_le.2 hlt (hids _ h).1, hnodup⟩, fun c hc => ?_⟩
    rcases List.mem_cons.1 hc with rfl | hc
    · refine ⟨Nat.le_refl _, Nat.lt_of_lt_of_le hlt (hframe' 0).size_le, ?_, ?_⟩
      · rw [(hframe' 0).parent _ hlt trivial, hfree]
      · exact hcopy.of_frames he.linked hframe'
    · obtain ⟨hge, hrest⟩ := hids c hc
      exact ⟨Nat.le_trans (Nat.le_of_lt hlt) hge, hrest⟩

/-- Inserting detached nodes one after the other. -/
theorem insertAll_frame {t : Tree} (hd : d.WellFormed) (hp : d.isElement p = true)
    {ids : List NodeId} (hnodup : ids.Nodup)
    (hids : ∀ c ∈ ids, c < d.size ∧ c ≠ d.root ∧ ¬ Within d c p ∧ d.parent? c = none ∧
      Spells d [c] t.forest) {i : Nat} (hi : i ≤ (d.children p).length) :
    (insertAll d p i ids).WellFormed ∧ Frame (· ∉ ids) p d (insertAll d p i ids) ∧
      (insertAll d p i ids).children p = (d.children p).take i ++ ids ++ (d.children p).drop i ∧
      ∀ ns f, Spells d ns f → (∀ m ∈ ns, ¬ Within d m p) → Spells (insertAll d p i ids) ns f := by
  induction ids generalizing d i with
  | nil => exact ⟨hd, Frame.refl _ p d, by simp [insertAll], fun _ _ h _ => h⟩
  | cons c ids ih =>
    rw [List.nodup_cons] at hnodup
    obtain ⟨hc, hroot, hout, hfree, -⟩ := hids c List.mem_cons_self
    have hlt : p < d.size := lt_size_of_isElement hp
    have hwithin : ∀ m, Within (d.insertChild p i c) m p ↔ Within d m p :=
      fun m => hd.linked.within_insertChild hlt hc hout
    have hchildren := children_insertChild_free hlt (c := c) i hfree
    have hlen : ((d.children p).take i ++ [c]).length = i + 1 := by
      simp [Nat.min_eq_left hi]
    obtain ⟨hwf, hframe, hafter, hspells⟩ := ih (d := d.insertChild p i c)
      (hd.insertChild i hp hc hroot hout) (by simpa using hp) hnodup.2 (fun m hm => by
        obtain ⟨hm', hmroot, hmout, hmfree, hmspells⟩ := hids m (List.mem_cons_of_mem _ hm)
        have hne : m ≠ c := fun h => hnodup.1 (h ▸ hm)
        refine ⟨by simpa using hm', by simpa using hmroot, mt (hwithin m).1 hmout, ?_, ?_⟩
        · rw [parent?_insertChild d p i m hc, if_neg hne]
          exact hmfree
        · exact spells_insertChild hd.linked hlt i hfree hmspells fun k hk => by
            rwa [List.mem_singleton.1 hk])
      (i := i + 1) (by
        rw [hchildren, List.length_append, List.length_cons, List.length_drop, List.length_take]
        omega)
    refine ⟨hwf, ?_, ?_, fun ns f hf hns => ?_⟩
    · refine ((frame_insertChild i hlt hc hfree).mono fun m _ hm => ?_).trans hframe fun m _ hm => ?_
      · exact fun h => hm (h ▸ List.mem_cons_self)
      · exact fun h => hm (List.mem_cons_of_mem _ h)
    · have hcons : (d.children p).take i ++ c :: (d.children p).drop i =
          (d.children p).take i ++ [c] ++ (d.children p).drop i := by simp
      rw [insertAll, hafter, hchildren, hcons, List.take_left' hlen, List.drop_left' hlen]
      simp
    · exact hspells ns f (spells_insertChild hd.linked hlt i hfree hf hns) fun m hm =>
        mt (hwithin m).1 (hns m hm)

/-- The copies of a node that are inserted after it. -/
theorem insertAll_clones_stands {before after : List NodeId} {t : Tree}
    (h : Stands d p before n after) (hn : Spells d [n] t.forest) (count : Nat) :
    ∃ ids d', clones d n count = (ids, d') ∧ ids.length = count ∧
      (∀ c ∈ ids, d.size ≤ c) ∧
      Spliced d p before n after (n :: ids) (insertAll d' p (before.length + 1) ids) ∧
      ∀ c ∈ n :: ids, Spells (insertAll d' p (before.length + 1) ids) [c] t.forest := by
  obtain ⟨hwf, hframe, hlen, hnodup, hids⟩ := clones_frame h.wellFormed hn count
  generalize clones d n count = r at *
  obtain ⟨ids, d'⟩ := r
  have hp : d.isElement p = true := h.wellFormed.linked.parent_isElement h.parent
  have hlt : p < d.size := lt_size_of_isElement hp
  have hkeeps : Keeps (fun _ => True) d d' := (hframe 0).toKeeps
  have hwithin : ∀ {c}, Within d' c p → Within d c p := fun hw =>
    (hkeeps.within_iff h.wellFormed.linked (fun _ _ _ _ => trivial) hlt trivial).1 hw
  have hchildren : d'.children p = before ++ n :: after := by
    rw [(hframe d.size).children p hlt trivial (Nat.ne_of_lt hlt), h.children]
  obtain ⟨hwf', hframe', hafter, hspells⟩ := insertAll_frame (t := t) hwf
    (hkeeps.isElement_of hp) hnodup (fun c hc => by
      obtain ⟨hge, hc', hfree, hcopy⟩ := hids c hc
      refine ⟨hc', ?_, fun hw => ?_, hfree, hcopy⟩
      · rw [hkeeps.root]
        exact fun he => Nat.not_lt.2 hge (he ▸ h.wellFormed.root_lt_size)
      · exact Nat.not_lt.2 hge (h.wellFormed.linked.lt_size_of_within (hwithin hw) hlt))
    (i := before.length + 1) (by simp [hchildren])
  refine ⟨ids, d', rfl, hlen, fun c hc => (hids c hc).1, ⟨hwf', ?_, ?_⟩, fun c hc => ?_⟩
  · refine ((hframe p).mono fun _ _ _ => trivial).trans hframe' fun m hm _ hmem => ?_
    exact Nat.not_lt.2 (hids m hmem).1 hm
  · have hcons : before ++ n :: after = before ++ [n] ++ after := by simp
    have hlen' : (before ++ [n]).length = before.length + 1 := by simp
    rw [hafter, hchildren, hcons, List.take_left' hlen', List.drop_left' hlen']
    simp
  · refine hspells [c] t.forest ?_ fun m hm => ?_
    · rcases List.mem_cons.1 hc with rfl | hc
      · exact hn.of_frames h.wellFormed.linked hframe
      · exact (hids c hc).2.2.2
    · rw [List.mem_singleton.1 hm]
      intro hw
      rcases List.mem_cons.1 hc with rfl | hc
      · exact h.wellFormed.linked.not_within_self_parent h.parent (hwithin hw)
      · exact Nat.not_lt.2 (hids c hc).1
          (h.wellFormed.linked.lt_size_of_within (hwithin hw) hlt)

/-! ## One element per source -/

variable {before after : List NodeId} {t : Tree} {elem : NodeId}

/-- The element for one source, ready to be inserted: the node itself or a copy
of it. -/
structure Ready (d : Document) (p n : NodeId) (t : Tree) (elem : NodeId) (e : Document) :
    Prop where
  wellFormed : e.WellFormed
  frame : Frame (¬ Within d n ·) p d e
  free : e.parent? elem = none
  spells : Spells e [elem] t.forest
  inner : elem < d.size → Within d n elem

theorem Ready.lt_size {e : Document} (h : Ready d p n t elem e) : elem < e.size := by
  obtain ⟨x, hx, -⟩ := spells_tree.1 h.spells
  exact lt_size_of_node? hx

theorem Ready.not_within_parent {e : Document} (h : Ready d p n t elem e)
    (hd : Stands d p before n after) : ¬ Within e elem p :=
  hd.not_within_new h.frame h.inner (hd.wellFormed.linked.parent_lt_size hd.parent)
    (hd.not_within_above (within_self d p))

/-- The element inserted in front of what stands in the place of the node. -/
theorem Ready.insert {e : Document} (h : Ready d p n t elem e) (hd : Stands d p before n after)
    {done : List NodeId} (hchildren : e.children p = before ++ done ++ after) :
    let e' := e.insertChild p before.length elem
    Stands e' p before elem (done ++ after) ∧ Frame (¬ Within d n ·) p d e' ∧
      Frame (· ≠ elem) p e e' ∧
      ∀ ns f, Spells e ns f → (∀ m ∈ ns, ¬ Within e m p) → Spells e' ns f := by
  intro e'
  have hp : p < d.size := hd.wellFormed.linked.parent_lt_size hd.parent
  have hpe : p < e.size := Nat.lt_of_lt_of_le hp h.frame.size_le
  have helem : e.isElement p = true :=
    h.frame.toKeeps.isElement_of (hd.wellFormed.linked.parent_isElement hd.parent)
  have hout := h.not_within_parent hd
  have hroot : elem ≠ e.root := by
    intro he
    refine hout (he ▸ ?_)
    exact (hd.path_eq h.wellFormed h.frame).1
  have hwf : e'.WellFormed := h.wellFormed.insertChild _ helem h.lt_size hroot hout
  have hinsert : Frame (· ≠ elem) p e e' :=
    frame_insertChild before.length hpe h.lt_size h.free
  have hframe : Frame (¬ Within d n ·) p d e' :=
    h.frame.trans hinsert fun m hm ho he => ho (he ▸ h.inner (he ▸ hm))
  refine ⟨⟨hwf, (hd.path_eq hwf hframe).1, ?_⟩, hframe, hinsert, fun ns f hf hns => ?_⟩
  · rw [children_insertChild_free hpe _ h.free, hchildren, List.append_assoc,
      List.take_left' rfl, List.drop_left' rfl]
  · exact spells_insertChild h.wellFormed.linked hpe _ h.free hf hns

/-- A node that waits, detached, to be inserted or copied. -/
structure Waits (p n : NodeId) (t : Tree) (e : Document) : Prop where
  free : e.parent? n = none
  spells : Spells e [n] t.forest
  apart : ¬ Within e n p

/-- A visit beside a waiting node leaves it waiting. -/
theorem Waits.spliced {d e : Document} {left : List NodeId} (h : Waits p n t d)
    (hd : Stands d p before elem after) (hspliced : Spliced d p before elem after left e) :
    Waits p n t e := by
  have hapart : ¬ Within d n elem := fun hw => by
    by_cases he : elem = n
    · have hparent := hd.parent
      rw [he, h.free] at hparent
      cases hparent
    · obtain ⟨q, hq, hqn⟩ := hw.exists_parent he
      rw [hd.parent] at hq
      cases hq
      exact h.apart hqn
  have hout : ∀ m, Within d n m → ¬ Within d elem m := fun m hm hw =>
    hapart (within_of_top h.free hm hw)
  have hlt : n < d.size := by
    obtain ⟨x, hx, -⟩ := spells_tree.1 h.spells
    exact lt_size_of_node? hx
  refine ⟨?_, hspliced.frame.spells hd.wellFormed.linked h.spells fun c hc m hm => ?_, ?_⟩
  · rw [hspliced.frame.parent n hlt (hout n (within_self d n)), h.free]
  · rw [List.mem_singleton.1 hc] at hm
    exact ⟨hout m hm, fun hmp => h.apart (hmp ▸ hm)⟩
  · rw [hspliced.frame.within_iff hd.wellFormed.linked (fun _ _ => not_within_parent)
      (hd.wellFormed.linked.parent_lt_size hd.parent) (hd.not_within_above (within_self d p))]
    exact h.apart

/-- The element for a source: the waiting node for the primary one, else a
copy. -/
theorem exists_ready {e : Document} (he : e.WellFormed) (hp : p < e.size)
    (hframe : Frame (¬ Within d n ·) p d e)
    (hwaits : Waits p n t e) (itself : Prop) [Decidable itself] :
    ∃ elem e', (if itself then (n, e) else e.deepClone n) = (elem, e') ∧
      Ready d p n t elem e' ∧ (∀ q, Frame (fun _ => True) q e e') ∧ e.parent? elem = none ∧
      (¬ itself → Waits p n t e' ∧ elem ≠ n) := by
  by_cases hitself : itself
  · exact ⟨n, e, if_pos hitself,
      ⟨he, hframe, hwaits.free, hwaits.spells, fun _ => within_self d n⟩,
      fun q => Frame.refl _ q e, hwaits.free, fun h => absurd hitself h⟩
  · obtain ⟨e', hclone, hwf, hall, hlt, hfree, hcopy⟩ := exists_copy he hwaits.spells
    have hn : n < e.size := by
      obtain ⟨x, hx, -⟩ := spells_tree.1 hwaits.spells
      exact lt_size_of_node? hx
    have hnew : e.parent? e.size = none := by
      rw [parent?, node?_eq_none_iff.2 (Nat.le_refl _)]
      rfl
    refine ⟨e.size, e', (if_neg hitself).trans hclone,
      ⟨hwf, hframe.trans (hall p) fun _ _ _ => trivial, hfree, hcopy, fun hd =>
        absurd hframe.size_le (Nat.not_le.2 hd)⟩, hall, hnew, fun _ =>
        ⟨⟨?_, hwaits.spells.of_frames he.linked hall, ?_⟩, (Nat.ne_of_lt hn).symm⟩⟩
    · rw [(hall 0).parent n hn trivial, hwaits.free]
    · intro hw
      rw [(hall 0).within_iff he.linked (fun _ _ _ _ => trivial) hp trivial] at hw
      exact hwaits.apart hw

/-- Some sources have been walked: `done` stands in the place of the node,
which waits as long as there are `more` of them. -/
structure Expanding (d : Document) (p : NodeId) (before : List NodeId) (n : NodeId)
    (after : List NodeId) (t : Tree) (more : Prop) (done : List NodeId) (e : Document) : Prop where
  wellFormed : e.WellFormed
  frame : Frame (¬ Within d n ·) p d e
  children : e.children p = before ++ done ++ after
  waits : more → Waits p n t e

/-- The element for the next source stands in front of what has been walked;
`itself` tells whether it is the node or a copy. -/
structure Placed (d : Document) (p : NodeId) (before : List NodeId) (n : NodeId)
    (after : List NodeId) (t : Tree) (itself : Prop) (done : List NodeId) (elem : NodeId)
    (e e' : Document) : Prop where
  stands : Stands e' p before elem (done ++ after)
  frame : Frame (¬ Within d n ·) p d e'
  inner : elem < d.size → Within d n elem
  spells : Spells e' [elem] t.forest
  change : Frame (· ≠ elem) p e e'
  apart : ∀ c ∈ done, ∀ m, Within e c m → m ≠ elem ∧ m ≠ p
  waits : ¬ itself → Waits p n t e'

theorem Expanding.exists_placed {more : Prop} {done : List NodeId} {e : Document}
    (h : Expanding d p before n after t more done e) (hmore : more)
    (hd : Stands d p before n after) (itself : Prop) [Decidable itself] :
    ∃ elem d', (if itself then (n, e) else e.deepClone n) = (elem, d') ∧
      Placed d p before n after t itself done elem e (d'.insertChild p before.length elem) := by
  have hp : p < e.size := Nat.lt_of_lt_of_le
    (hd.wellFormed.linked.parent_lt_size hd.parent) h.frame.size_le
  obtain ⟨elem, d', hpair, hready, hall, hfree, hcopy⟩ :=
    exists_ready h.wellFormed hp h.frame (h.waits hmore) itself
  have hchildren : d'.children p = before ++ done ++ after := by
    rw [(hall e.size).children p hp trivial (Nat.ne_of_lt hp), h.children]
  obtain ⟨hstands, hframe, hinsert, hspells⟩ := hready.insert hd hchildren
  refine ⟨elem, d', hpair, hstands, hframe, hready.inner,
    hspells _ _ hready.spells fun m hm => ?_,
    ((hall p).mono fun _ _ _ => trivial).trans hinsert fun _ _ ho => ho, fun c hc m hm => ?_,
    fun hother => ?_⟩
  · rw [List.mem_singleton.1 hm]
    exact hready.not_within_parent hd
  · have hparent : e.parent? c = some p := by
      rw [h.wellFormed.parent_iff_child, h.children]
      exact List.mem_append_left _ (List.mem_append_right _ hc)
    refine ⟨fun hme => ?_, fun hmp => ?_⟩
    · -- nothing but the element itself is above it
      rcases hm with hmc | hm
      · rw [← hmc, hme, hfree] at hparent
        cases hparent
      · cases hm with
        | child hup => rw [hme, hfree] at hup; cases hup
        | step hup _ => rw [hme, hfree] at hup; cases hup
    · exact h.wellFormed.linked.not_within_self_parent hparent (hmp ▸ hm)
  · obtain ⟨hwaits, hne⟩ := hcopy hother
    refine ⟨?_, hspells _ _ hwaits.spells fun m hm => ?_, ?_⟩
    · rw [parent?_insertChild d' p _ n hready.lt_size, if_neg hne.symm]
      exact hwaits.free
    · rw [List.mem_singleton.1 hm]
      exact hwaits.apart
    · exact hd.not_within_new hframe (fun _ => within_self d n)
        (hd.wellFormed.linked.parent_lt_size hd.parent) (hd.not_within_above (within_self d p))

/-- What is left of the element stands in front of what had been walked. -/
theorem Placed.spliced {itself more : Prop} {done left : List NodeId} {e e' e'' : Document}
    (h : Placed d p before n after t itself done elem e e') (hd : Stands d p before n after)
    (hmore : more → ¬ itself) (hspliced : Spliced e' p before elem (done ++ after) left e'') :
    Expanding d p before n after t more (left ++ done) e'' where
  wellFormed := hspliced.wellFormed
  frame := h.frame.trans hspliced.frame fun _ hm ho => hd.not_within_new h.frame h.inner hm ho
  children := by
    rw [hspliced.children]
    simp
  waits hm := (h.waits (hmore hm)).spliced h.stands hspliced

/-- The node without the directive that binds its sources, detached. -/
theorem expanding_start (hd : Stands d p before n after) (hn : Spells d [n] t.forest)
    (more : Prop) :
    Expanding d p before n after (t.mapElement (·.removeDirective .sources)) more []
      ((d.removeDirective n .sources).detach n) := by
  have hremove := hd.spliced_updateElement (·.removeDirective .sources)
  have hn₁ := spells_updateElement hd.wellFormed.linked hn (·.removeDirective .sources)
  have hparent : (d.removeDirective n .sources).parent? n = some p := (hremove.stands hd).parent
  have hwf : (d.removeDirective n .sources).WellFormed := hremove.wellFormed
  have hframe : Frame (¬ Within d n ·) p d ((d.removeDirective n .sources).detach n) :=
    hremove.frame.trans (frame_detach hparent) fun m _ ho hm => ho (.inl hm)
  have hwaits : Waits p n (t.mapElement (·.removeDirective .sources))
      ((d.removeDirective n .sources).detach n) := by
    refine ⟨by rw [parent?_detach, if_pos rfl], hn₁.of_shells hwf.linked fun c hc m hm x _ => ?_,
      hd.not_within_new hframe (fun _ => within_self _ n)
        (hd.wellFormed.linked.parent_lt_size hd.parent) (hd.not_within_above (within_self _ p))⟩
    rw [List.mem_singleton.1 hc] at hm
    have hmp : p ≠ m := fun h => hwf.linked.not_within_self_parent hparent (h ▸ hm)
    refine ⟨shell?_detach _ n m, ?_⟩
    rw [children_detach, hparent, if_neg fun h => hmp (Option.some.inj h)]
  refine ⟨hwf.detach n, hframe, ?_, fun _ => hwaits⟩
  have hchildren : (d.removeDirective n .sources).children p = before ++ [n] ++ after :=
    hremove.children
  rw [children_detach, hparent, if_pos rfl, hchildren, List.append_assoc,
    List.erase_append_right _ hd.not_mem.1]
  simp

/-! ## The template of a run -/

/-- The engine runs in an environment, whatever the template is by now. -/
structure RunsIn (env : Environment) (e : Engine) : Prop where
  docs_pos : 0 < env.docs.size
  env_eq : e.env = env.setTemplate e.template
  wellFormed : e.template.WellFormed

theorem RunsIn.setTemplate {env : Environment} {e : Engine} (h : e.RunsIn env) {d : Document}
    (hd : d.WellFormed) : (e.setTemplate d).RunsIn env ∧ (e.setTemplate d).template = d := by
  have hpos : 0 < e.env.docs.size := by
    rw [h.env_eq]
    simpa [Environment.setTemplate] using h.docs_pos
  have htemplate : (e.setTemplate d).template = d := template_setTemplate hpos d
  refine ⟨⟨h.docs_pos, ?_, by rwa [htemplate]⟩, htemplate⟩
  rw [htemplate]
  change e.env.setTemplate d = env.setTemplate d
  rw [h.env_eq]
  simp [Environment.setTemplate]

theorem setTemplate_template {env : Environment} (h : 0 < env.docs.size) : env.setTemplate env.template = env := by
  have hdocs : env.docs.setIfInBounds templateKey env.template = env.docs := by
    simp [Environment.template, templateKey, Array.setIfInBounds_def, h]
  rw [Environment.setTemplate, hdocs]

/-! ## Content -/

theorem updateElement_updateElement (d : Document) (n : NodeId) (f g : Element → Element) :
    (d.updateElement n f).updateElement n g = d.updateElement n (g ∘ f) := by
  refine ext_node? rfl rfl rfl fun m => ?_
  simp only [updateElement, node?_updateNode]
  split
  · cases d.node? m with
    | none => rfl
    | some x =>
      simp only [Option.map_some]
      cases x.kind <;> rfl
  · rfl

theorem copyContent_eq (d : Document) (n : NodeId) (source : Document) (m : NodeId) :
    copyContent d n source m =
      d.updateElement n (·.takeContent (source.attributes m) (source.text? m)) := by
  have hattributes : ∀ (as : List Attribute) (d : Document) (text : Option String),
      (as.foldl (fun d a => d.setAttribute n a.name a.value) d).setText n text =
        d.updateElement n (·.takeContent as text) := by
    intro as
    induction as with
    | nil => exact fun _ _ => rfl
    | cons a as ih =>
      intro d text
      rw [List.foldl_cons, ih, setAttribute, updateElement_updateElement]
      rfl
  exact hattributes _ d _

/-! ## Elements that are copied -/

/-- Where copies of an element are walked as branches: the copies stand after
the element, and all are without the directive that asked for them. -/
theorem exists_branches (hd : Stands d p before n after) (hn : Spells d [n] t.forest)
    (copies : Nat) :
    ∃ ids d', (∀ visit s (e : Engine), e.template = d → replicate visit s n copies e =
        walkBranches visit s 0 (n :: ids) (e.setTemplate d')) ∧ ids.length = copies ∧
      (∀ c ∈ ids, d.size ≤ c) ∧ Spliced d p before n after (n :: ids) d' ∧
      ∀ c ∈ n :: ids, Spells d' [c] (t.mapElement (·.removeDirective .multi)).forest := by
  have hremove := hd.spliced_updateElement (·.removeDirective .multi)
  have hn₁ := spells_updateElement hd.wellFormed.linked hn (·.removeDirective .multi)
  have hstands := hremove.stands hd
  obtain ⟨ids, d', hclones, hlen, hnew, hspliced, hspells⟩ :=
    insertAll_clones_stands hstands hn₁ copies
  refine ⟨ids, _, fun visit s e he => ?_, hlen, fun c hc => by simpa using hnew c hc,
    hremove.trans hd hspliced, hspells⟩
  have hparent : (d.removeDirective n .multi).parent? n = some p := hstands.parent
  have hindex : (d.removeDirective n .multi).indexInParent? n = some before.length := hstands.index
  simp only [replicate, he, hparent, hindex, Option.getD_some]
  rw [show clones (d.removeDirective n .multi) n copies = (ids, d') from hclones]

/-- An element is expanded where it stands. -/
theorem expandSources_eq {e : Engine} (hd : Stands e.template p before n after) (visit : Visit)
    (s : ElementState) :
    expandSources visit s n e = walkSources visit s n p before.length s.sources.members.reverse
      (e.setTemplate ((e.template.removeDirective n .sources).detach n)) := by
  have hstands := (hd.spliced_updateElement (·.removeDirective .sources)).stands hd
  have hparent : (e.template.removeDirective n .sources).parent? n = some p := hstands.parent
  have hindex : (e.template.removeDirective n .sources).indexInParent? n = some before.length :=
    hstands.index
  simp only [expandSources, hparent, hindex, Option.getD_some]

end Engine

end LabelTemplate
