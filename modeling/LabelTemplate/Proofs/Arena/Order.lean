import LabelTemplate.Proofs.Arena.Path
import LabelTemplate.Proofs.Arena.Preorder

/-!
# Document order

`Earlier` says by parents and siblings which of two nodes stands first: an
ancestor stands before what is below it, and what is within one child stands
before what is within a later child.

`Preorder` is the list of a subtree by recursion over the children, and
`descendants`, which keeps a stack, gives it
(`WellFormed.preorder_descendants`).  It has every node of the subtree
(`WellFormed.mem_descendants`), each before those it is earlier than
(`WellFormed.pairwise_descendants`), and so each once.
-/

namespace LabelTemplate.Xml.Document

/-- `Earlier d m n`: `m` stands before `n` in document order. -/
inductive Earlier (d : Document) (m n : NodeId) : Prop where
  | above (h : Below d m n)
  | aside {p a b : NodeId} (hab : [a, b].Sublist (d.children p)) (ha : Within d a m)
      (hb : Within d b n)

/-- In a list without repetitions two members stand one way round only. -/
theorem eq_of_sublist_of_sublist {l : List NodeId} (hl : l.Nodup) {a b : NodeId}
    (hab : [a, b].Sublist l) (hba : [b, a].Sublist l) : a = b := by
  induction l with
  | nil => cases hab
  | cons x l ih =>
    obtain ⟨hx, hl⟩ := List.nodup_cons.1 hl
    rcases List.sublist_cons_iff.1 hab with habl | ⟨_, hax, hbl⟩ <;>
      rcases List.sublist_cons_iff.1 hba with hbal | ⟨_, hbx, hal⟩
    · exact ih hl habl hbal
    · obtain ⟨rfl, -⟩ := List.cons.inj hbx
      exact absurd (habl.subset (List.mem_cons_of_mem _ List.mem_cons_self)) hx
    · obtain ⟨rfl, -⟩ := List.cons.inj hax
      exact absurd (hbal.subset (List.mem_cons_of_mem _ List.mem_cons_self)) hx
    · exact (List.cons.inj hax).1.trans (List.cons.inj hbx).1.symm

/-- Two members of a list stand in it as their positions say. -/
theorem sublist_of_getElem? {l : List NodeId} {a b : NodeId} {i j : Nat} (ha : l[i]? = some a)
    (hb : l[j]? = some b) (hij : i < j) : [a, b].Sublist l := by
  obtain ⟨hi, rfl⟩ := List.getElem?_eq_some_iff.1 ha
  obtain ⟨hj, rfl⟩ := List.getElem?_eq_some_iff.1 hb
  have hl : l.Pairwise fun a b => [a, b].Sublist l := List.pairwise_iff_forall_sublist.2 id
  exact List.pairwise_iff_getElem.1 hl i j hi hj hij

variable {d : Document}

/-- Of two children in their order neither is the other. -/
theorem Linked.ne_of_sublist_children (hd : d.Linked) {p a b : NodeId}
    (h : [a, b].Sublist (d.children p)) : a ≠ b := by
  simpa using h.nodup (hd.children_nodup p)

/-- No node is within two children of one node. -/
theorem Linked.not_within_of_sublist_children (hd : d.Linked) {p a b m : NodeId}
    (h : [a, b].Sublist (d.children p)) (ha : Within d a m) : ¬ Within d b m := by
  intro hb
  have hparent : ∀ c ∈ [a, b], d.parent? c = some p := fun c hc =>
    (hd.parent_iff_child p c).2 (h.subset hc)
  refine hd.ne_of_sublist_children h (hd.not_within_siblings ?_ ha hb)
  rw [hparent a (by simp), hparent b (by simp)]

theorem Earlier.ne (hd : d.Linked) {m n : NodeId} (h : Earlier d m n) : m ≠ n := by
  rintro rfl
  cases h with
  | above h => exact hd.acyclic m h
  | aside hab ha hb => exact hd.not_within_of_sublist_children hab ha hb

/-- What stands before a node is not within it. -/
theorem Earlier.not_within (hd : d.Linked) {m n : NodeId} (h : Earlier d m n) :
    ¬ Within d n m := by
  intro hw
  cases h with
  | above h =>
    rcases hw with rfl | hb
    · exact hd.acyclic m h
    · exact hd.acyclic n (hb.trans h)
  | aside hab ha hb => exact hd.not_within_of_sublist_children hab ha (hb.trans hw)

/-- Nodes within two children of one node are not both within a node further
down. -/
theorem Linked.not_within_below (hd : d.Linked) {p q a b m n : NodeId}
    (hab : [a, b].Sublist (d.children p)) (ha : Within d a m) (hb : Within d b n)
    (hq : Below d p q) (hm : Within d q m) : ¬ Within d q n := by
  intro hn
  obtain ⟨c, hc, hw⟩ := hq.exists_child
  have hparent : ∀ x ∈ [a, b], d.parent? c = d.parent? x := fun x hx => by
    rw [hc, (hd.parent_iff_child p x).2 (hab.subset hx)]
  have hca : c = a := hd.not_within_siblings (hparent a (by simp)) (hw.trans hm) ha
  have hcb : c = b := hd.not_within_siblings (hparent b (by simp)) (hw.trans hn) hb
  exact hd.ne_of_sublist_children hab (hca.symm.trans hcb)

/-- Of two nodes at most one stands before the other. -/
theorem Earlier.asymm (hd : d.Linked) {m n : NodeId} (h : Earlier d m n) : ¬ Earlier d n m := by
  intro h'
  cases h with
  | above h => exact h'.not_within hd (.inr h)
  | @aside p a b hab ha hb =>
    cases h' with
    | above h' => exact hd.not_within_of_sublist_children hab ha (hb.trans (.inr h'))
    | @aside q c e hce hc he =>
      have hpa : d.parent? a = some p := (hd.parent_iff_child p a).2 (hab.subset (by simp))
      have hpb : d.parent? b = some p := (hd.parent_iff_child p b).2 (hab.subset (by simp))
      have hqc : d.parent? c = some q := (hd.parent_iff_child q c).2 (hce.subset (by simp))
      have hqe : d.parent? e = some q := (hd.parent_iff_child q e).2 (hce.subset (by simp))
      -- both nodes are below `p` and below `q`, and they part ways only once
      rcases within_or_below (.inr (ha.below hpa)) (.inr (he.below hqe)) with (rfl | hpq) | hqp
      · obtain rfl : a = e := hd.not_within_siblings (hpa.trans hqe.symm) ha he
        obtain rfl : b = c := hd.not_within_siblings (hpb.trans hqc.symm) hb hc
        exact hd.ne_of_sublist_children hab
          (eq_of_sublist_of_sublist (hd.children_nodup q) hab hce)
      · exact hd.not_within_below hab ha hb hpq (.inr (he.below hqe)) (.inr (hc.below hqc))
      · exact hd.not_within_below hce hc he hqp (.inr (hb.below hpb)) (.inr (ha.below hpa))

theorem childrenNamed_sublist (d : Document) (p : NodeId) (uri : Option String)
    (localName : String) : (d.childrenNamed p uri localName).Sublist (d.children p) :=
  List.filter_sublist.trans List.filter_sublist

/-- The children of one name stand in document order. -/
theorem pairwise_childrenNamed (d : Document) (p : NodeId) (uri : Option String)
    (localName : String) : (d.childrenNamed p uri localName).Pairwise (Earlier d) :=
  List.pairwise_iff_forall_sublist.2 fun hab =>
    .aside (hab.trans (childrenNamed_sublist d p uri localName)) (within_self d _)
      (within_self d _)

/-! ## The traversal lists a subtree in order -/

/-- The nodes `ns` and all that is below them: a node, then what is below it,
then what comes after it. -/
inductive Preorder (d : Document) : List NodeId → List NodeId → Prop where
  | nil : Preorder d [] []
  | node {n : NodeId} {ns below after : List NodeId} (hbelow : Preorder d (d.children n) below)
      (hafter : Preorder d ns after) : Preorder d (n :: ns) (n :: (below ++ after))

/-- In preorder the number of a node is followed by those of what is below it,
and these by the numbers of what comes after it. -/
theorem range'_node (base below after : Nat) :
    List.range' base (below + 1 + after) =
      base :: (List.range' (base + 1) below ++ List.range' (base + 1 + below) after) := by
  rw [List.range'_append_1, ← List.range'_succ, Nat.add_right_comm]

/-- Nodes that spell a forest have a preorder. -/
theorem Spells.exists_preorder {ns : List NodeId} {f : Forest} (hf : Spells d ns f) :
    ∃ ids, Preorder d ns ids ∧ ids.length = f.size := by
  induction hf with
  | nil => exact ⟨[], .nil, rfl⟩
  | @node n ns x kids rest hx _ _ ihk ihr =>
    obtain ⟨below, hbelow, hkids⟩ := ihk
    obtain ⟨after, hafter, hrest⟩ := ihr
    rw [← children_of_node? hx] at hbelow
    refine ⟨n :: (below ++ after), .node hbelow hafter, ?_⟩
    simp only [List.length_cons, List.length_append, Forest.size]
    omega

namespace Preorder

variable {ns ids : List NodeId}

theorem unique {ids' : List NodeId} (h : Preorder d ns ids) (h' : Preorder d ns ids') :
    ids = ids' := by
  induction h generalizing ids' with
  | nil =>
    cases h'
    rfl
  | node _ _ ihk ihr =>
    cases h' with
    | node hbelow hafter => rw [ihk hbelow, ihr hafter]

/-- The traversal with a stack meets the nodes of its top in preorder. -/
theorem visit (h : Preorder d ns ids) {fuel : Nat} (hfuel : ids.length ≤ fuel)
    (stack : List NodeId) :
    d.visit fuel (ns ++ stack) = ids ++ d.visit (fuel - ids.length) stack := by
  induction h generalizing fuel stack with
  | nil => rfl
  | @node n ns below after _ _ ihk ihr =>
    simp only [List.length_cons, List.length_append] at hfuel ⊢
    obtain ⟨fuel, rfl⟩ : ∃ k, fuel = k + 1 := ⟨fuel - 1, by omega⟩
    have hrest : fuel + 1 - (below.length + after.length + 1) =
        fuel - below.length - after.length := by
      omega
    rw [List.cons_append, Document.visit, ihk (by omega), ihr (by omega), hrest]
    simp

/-- It lists what is within the nodes. -/
theorem mem_iff (hd : d.Linked) (h : Preorder d ns ids) {m : NodeId} :
    m ∈ ids ↔ ∃ n ∈ ns, Within d n m := by
  induction h with
  | nil => simp
  | @node n ns below after _ _ ihk ihr =>
    have hbelow : (∃ c ∈ d.children n, Within d c m) ↔ Below d n m := by
      constructor
      · rintro ⟨c, hc, hw⟩
        exact hw.below ((hd.parent_iff_child n c).2 hc)
      · intro hm
        obtain ⟨c, hc, hw⟩ := hm.exists_child
        exact ⟨c, (hd.parent_iff_child n c).1 hc, hw⟩
    rw [List.mem_cons, List.mem_append, ihk, ihr, hbelow, ← or_assoc]
    simp [Within]

/-- Nodes that stand in order are listed with their subtrees in order. -/
theorem pairwise (hd : d.Linked) (h : Preorder d ns ids)
    (hns : ns.Pairwise fun a b => ∃ p, [a, b].Sublist (d.children p)) :
    ids.Pairwise (Earlier d) := by
  induction h with
  | nil => exact .nil
  | @node n ns below after hbelow hafter ihk ihr =>
    obtain ⟨hfirst, hns⟩ := List.pairwise_cons.1 hns
    have hwithin : ∀ m ∈ below, Below d n m := fun m hm => by
      obtain ⟨c, hc, hw⟩ := (hbelow.mem_iff hd).1 hm
      exact hw.below ((hd.parent_iff_child n c).2 hc)
    have haside : ∀ m, Within d n m → ∀ b ∈ after, Earlier d m b := fun m hm b hb => by
      obtain ⟨a, ha, hw⟩ := (hafter.mem_iff hd).1 hb
      obtain ⟨p, hp⟩ := hfirst a ha
      exact .aside hp hm hw
    have hchildren : below.Pairwise (Earlier d) :=
      ihk (List.pairwise_iff_forall_sublist.2 fun h => ⟨n, h⟩)
    refine List.pairwise_cons.2 ⟨fun m hm => ?_, List.pairwise_append.2
      ⟨hchildren, ihr hns, fun m hm => haside m (.inr (hwithin m hm))⟩⟩
    rcases List.mem_append.1 hm with hm | hm
    · exact .above (hwithin m hm)
    · exact haside n (within_self d n) m hm

end Preorder

namespace WellFormed

variable (hd : d.WellFormed) {n : NodeId} (hn : n < d.size)

include hd hn

/-- The fuel of the traversal is enough for any subtree. -/
theorem preorder_descendants : Preorder d [n] (d.descendants n) := by
  obtain ⟨f, hf, -⟩ := hd.exists_spells [n] fun m hm => List.mem_singleton.1 hm ▸ hn
  obtain ⟨ids, hids, hlength⟩ := hf.exists_preorder
  have hvisit := hids.visit (hlength ▸ hf.size_le hd.linked) []
  have hempty : ∀ fuel, d.visit fuel [] = [] := fun fuel => by cases fuel <;> rfl
  rw [hempty, List.append_nil, List.append_nil] at hvisit
  rwa [descendants, hvisit]

/-- A subtree is listed in document order. -/
theorem pairwise_descendants : (d.descendants n).Pairwise (Earlier d) :=
  (hd.preorder_descendants hn).pairwise hd.linked (List.pairwise_singleton _ _)

/-- The whole subtree is listed. -/
theorem mem_descendants {m : NodeId} : m ∈ d.descendants n ↔ Within d n m := by
  simp [(hd.preorder_descendants hn).mem_iff hd.linked]

/-- Each node of it once. -/
theorem nodup_descendants : (d.descendants n).Nodup :=
  (hd.pairwise_descendants hn).imp fun h => h.ne hd.linked

end WellFormed

/-! ## The elements of the tree -/

/-- `n` is an element of the tree, not of a detached part of the arena. -/
def InTree (d : Document) (n : NodeId) : Prop := Within d d.root n ∧ d.isElement n = true

namespace WellFormed

variable (hd : d.WellFormed)

include hd

theorem inTree_root : d.InTree d.root := ⟨within_self d d.root, hd.root_isElement⟩

/-- The parent of a node of the tree is an element of the tree. -/
theorem inTree_parent {n p : NodeId} (hn : Within d d.root n) (hp : d.parent? n = some p) :
    d.InTree p := by
  have hne : n ≠ d.root := by
    rintro rfl
    rw [hd.root_parent] at hp
    cases hp
  obtain ⟨q, hq, hw⟩ := hn.exists_parent hne
  rw [hp] at hq
  cases hq
  exact ⟨hw, hd.linked.parent_isElement hp⟩

theorem mem_descendantElements_root {n : NodeId} :
    n ∈ d.descendantElements d.root ↔ d.InTree n := by
  rw [descendantElements, List.mem_filter, hd.mem_descendants hd.root_lt_size]
  rfl

end WellFormed

end LabelTemplate.Xml.Document
