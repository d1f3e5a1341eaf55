import LabelTemplate.Proofs.Arena.Clone
import LabelTemplate.Proofs.Arena.Order
import LabelTemplate.Proofs.Reading.Run

/-!
# The ids of a copy

A copy of a subtree is numbered in preorder, so each node of the subtree has
its place in the copy: `copyOf` gives the id there.  `IsCopy` says that this
renames the subtree into the copy, with all that the nodes are and with their
links, and that the arena is otherwise as it was.

`Planted.renames` is the induction: where a forest is planted in preorder,
the nodes that spell it elsewhere are renamed by any map that takes their
preorder to the ids of the plantation.  `WellFormed.isCopy_deepClone` is the
case of a copy, of an attached or a detached node.
-/

namespace LabelTemplate.Xml.Document

/-- The node that stands for `m` in a copy of the subtree of `n`. -/
def copyOf (d : Document) (n m : NodeId) : NodeId := d.size + (d.descendants n).idxOf m

/-- In `e` the nodes of `d` are as they were, and `copy` is a copy of `n` with
all that is below it. -/
structure IsCopy (d : Document) (n : NodeId) (e : Document) (copy : NodeId) : Prop where
  /-- The nodes below the copy are the copies of the nodes below `n`, in the
  same order. -/
  descendants : e.descendants copy = (d.descendants n).map (d.copyOf n)
  /-- They have the free ids in preorder. -/
  fresh : (d.descendants n).map (d.copyOf n) = List.range' d.size (d.descendants n).length
  size : e.size = d.size + (d.descendants n).length
  kind : ∀ m ∈ d.descendants n, e.kind? (d.copyOf n m) = d.kind? m
  line : ∀ m ∈ d.descendants n, e.line? (d.copyOf n m) = d.line? m
  children : ∀ m ∈ d.descendants n, e.children (d.copyOf n m) = (d.children m).map (d.copyOf n)
  detached : e.parent? copy = none
  parent : ∀ m ∈ d.descendants n, m ≠ n →
    e.parent? (d.copyOf n m) = (d.parent? m).map (d.copyOf n)
  /-- What was there before is the same, whether in the subtree or not. -/
  old : ∀ m, m < d.size → e.node? m = d.node? m
  root : e.root = d.root
  prolog : e.prolog = d.prolog
  url : e.url = d.url

variable {d e : Document} {ns ids : List NodeId} {f : Forest} {rename : NodeId → NodeId}

theorem Preorder.length_eq (h : Preorder d ns ids) (hf : Spells d ns f) : ids.length = f.size := by
  obtain ⟨ids', h', hlength⟩ := hf.exists_preorder
  rw [h.unique h', hlength]

/-- Renamed nodes whose children are renamed have a renamed preorder. -/
theorem Preorder.map (h : Preorder d ns ids)
    (hchildren : ∀ m ∈ ids, e.children (rename m) = (d.children m).map rename) :
    Preorder e (ns.map rename) (ids.map rename) := by
  induction h with
  | nil => exact .nil
  | @node n ns below after _ _ ihk ihr =>
    rw [List.map_cons, List.map_cons, List.map_append]
    apply Preorder.node
    · rw [hchildren n List.mem_cons_self]
      exact ihk fun m hm => hchildren m (List.mem_cons_of_mem _ (List.mem_append_left _ hm))
    · exact ihr fun m hm => hchildren m (List.mem_cons_of_mem _ (List.mem_append_right _ hm))

/-- Nodes that spell a forest are renamed into a plantation of it by what takes
their preorder to its ids. -/
theorem Planted.renames (h : Preorder d ns ids) (hf : Spells d ns f) {par : Option NodeId}
    {base : NodeId} (hplanted : e.Planted par base f)
    (hrename : ids.map rename = List.range' base ids.length) :
    ns.map rename = f.roots base ∧ ∀ m ∈ ids, e.kind? (rename m) = d.kind? m ∧
      e.line? (rename m) = d.line? m ∧ e.children (rename m) = (d.children m).map rename := by
  induction h generalizing f par base with
  | nil =>
    cases hf
    exact ⟨rfl, by simp⟩
  | @node n ns below after hbelow hafter ihk ihr =>
    cases hf with
    | @node _ _ x kids rest hx hkids hrest =>
      obtain ⟨hroot, hplantedKids, hplantedRest⟩ := hplanted
      rw [← children_of_node? hx] at hkids
      have hlength : below.length = kids.size := hbelow.length_eq hkids
      -- the first id is for the node, the next ones for what is below it
      have hids : List.range' base (n :: (below ++ after)).length =
          base :: (List.range' (base + 1) below.length ++
            List.range' (base + 1 + kids.size) after.length) := by
        rw [List.length_cons, List.length_append, Nat.add_right_comm, range'_node, hlength]
      rw [hids, List.map_cons, List.map_append] at hrename
      obtain ⟨hfirst, hothers⟩ := List.cons.inj hrename
      obtain ⟨hrenameBelow, hrenameAfter⟩ := List.append_inj hothers (by simp)
      obtain ⟨hrootsKids, htwinsKids⟩ := ihk hkids hplantedKids hrenameBelow
      obtain ⟨hrootsRest, htwinsRest⟩ := ihr hrest hplantedRest hrenameAfter
      refine ⟨by rw [List.map_cons, hfirst, hrootsRest]; rfl, fun m hm => ?_⟩
      rcases List.mem_cons.1 hm with rfl | hm
      · rw [hfirst, kind?_of_node? hroot, kind?_of_node? hx, children_of_node? hroot, hrootsKids]
        simp [line?, hroot, hx]
      · rcases List.mem_append.1 hm with hm | hm
        · exact htwinsKids m hm
        · exact htwinsRest m hm

/-- Counting from a start through a list without repetitions. -/
theorem map_add_idxOf {l : List NodeId} (hl : l.Nodup) (start : Nat) :
    (l.map fun m => start + l.idxOf m) = List.range' start l.length := by
  apply List.ext_getElem
  · simp
  · intro i hi _
    simp [hl.idxOf_getElem]

/-! ## One node copied -/

section Copied

variable {n : NodeId}

theorem Spells.roots_eq (hf : Spells d [n] f) (base : NodeId) : f.roots base = [base] := by
  cases hf with
  | node _ _ hrest =>
    cases hrest
    rfl

theorem Spells.size_pos (hf : Spells d [n] f) : 0 < f.size := by
  cases hf
  rw [Forest.size]
  omega

theorem Planted.parent? (hf : Spells d [n] f) {par : Option NodeId} {base : NodeId}
    (h : e.Planted par base f) : e.parent? base = par := by
  cases hf
  simp [Document.parent?, h.1]

/-- The parent of a renamed node is the renamed parent. -/
theorem Linked.parent?_rename (hd : d.Linked) (he : e.Linked)
    (hchildren : ∀ m, Within d n m → e.children (rename m) = (d.children m).map rename)
    {m : NodeId} (hm : Within d n m) (hne : m ≠ n) :
    e.parent? (rename m) = (d.parent? m).map rename := by
  obtain ⟨p, hp, hpw⟩ := hm.exists_parent hne
  rw [hp, Option.map_some, he.parent_iff_child, hchildren p hpw]
  exact List.mem_map_of_mem ((hd.parent_iff_child p m).1 hp)

/-- Copying a node adds a copy of its subtree, detached and under the next free
ids in preorder, and leaves every node that there was as it is. -/
theorem WellFormed.isCopy_deepClone (hd : d.WellFormed) (hn : n < d.size) :
    IsCopy d n (d.deepClone n).2 (d.deepClone n).1 := by
  obtain ⟨f, hf, -⟩ := hd.exists_spells [n] fun m hm => List.mem_singleton.1 hm ▸ hn
  rw [deepClone_eq_graft hd hf]
  have hwf : (d.graft none f).WellFormed := hd.graft (hf.proper hd.linked)
  have hplanted : (d.graft none f).Planted none d.size f :=
    planted_of_agree (by simp) fun _ _ _ => rfl
  have hids : Preorder d [n] (d.descendants n) := hd.preorder_descendants hn
  have hfresh : (d.descendants n).map (d.copyOf n) =
      List.range' d.size (d.descendants n).length :=
    map_add_idxOf (hd.nodup_descendants hn) d.size
  have hlt : d.size < (d.graft none f).size := by
    rw [size_graft]
    exact Nat.lt_add_of_pos_right hf.size_pos
  obtain ⟨hroots, htwins⟩ := hplanted.renames hids hf hfresh
  have hpreorder : Preorder (d.graft none f) [d.size] ((d.descendants n).map (d.copyOf n)) := by
    rw [← hf.roots_eq d.size, ← hroots]
    exact hids.map fun m hm => (htwins m hm).2.2
  have hchildren : ∀ m, Within d n m →
      (d.graft none f).children (d.copyOf n m) = (d.children m).map (d.copyOf n) :=
    fun m hm => (htwins m ((hd.mem_descendants hn).2 hm)).2.2
  exact {
    descendants := (hwf.preorder_descendants hlt).unique hpreorder
    fresh := hfresh
    size := by rw [size_graft, hids.length_eq hf]
    kind := fun m hm => (htwins m hm).1
    line := fun m hm => (htwins m hm).2.1
    children := fun m hm => (htwins m hm).2.2
    detached := Planted.parent? hf hplanted
    parent := fun m hm hne =>
      hd.linked.parent?_rename hwf.linked hchildren ((hd.mem_descendants hn).1 hm) hne
    old := fun m hm => by simpa using node?_graft d none (by simp) f hm
    root := root_graft d none f
    prolog := prolog_graft d none f
    url := url_graft d none f }

end Copied

/-- A branch with an attribute, a comment and a text, each on its line. -/
def lined : Document :=
  .ofTree [] { name := .plain "a" } (some 1)
    (.node (.element { name := .plain "b", attributes := [⟨.plain "k", "v"⟩] }) (some 2)
      (.node (.comment "between") (some 3) .nil
        (.node (.element { name := .plain "c", text := some "text" }) (some 4) .nil .nil)) .nil)

theorem lined_wellFormed : lined.WellFormed :=
  wellFormed_ofTree (by simp [Forest.Proper, NodeKind.isElement, NodeKind.element?]) _

theorem isCopy_deepClone_lined :
    IsCopy lined 1 (lined.deepClone 1).2 4 ∧
      IsCopy (lined.detach 1) 1 ((lined.detach 1).deepClone 1).2 4 ∧
      (lined.deepClone 1).2.descendants 4 = [4, 5, 6] ∧
      (lined.deepClone 1).2.line? 6 = some 4 ∧ (lined.deepClone 1).2.node? 1 = lined.node? 1 := by
  have hcopy := lined_wellFormed.isCopy_deepClone (n := 1) (by decide)
  have hloose := (lined_wellFormed.detach 1).isCopy_deepClone (n := 1) (by decide)
  refine ⟨hcopy, hloose, hcopy.descendants.trans (by decide +kernel), ?_, hcopy.old 1 (by decide)⟩
  exact (hcopy.line 3 (by decide +kernel)).trans (by decide +kernel)

end LabelTemplate.Xml.Document
