import LabelTemplate.Proofs.Arena.Clone
import LabelTemplate.Proofs.Arena.Operations
import LabelTemplate.Proofs.Reading.Frames
import LabelTemplate.Template.Walk

/-!
# What changes of an arena keep

`Keeps out d e` says that `e` came from `d` by changes that left the nodes in
`out` where they were: nodes are added but none is lost, elements stay
elements, and the nodes in `out` keep their parents.  The changes of the walk
below a node keep all nodes outside that node, and so they keep what is below
what out there (`Keeps.within_iff`).

`AllKinds P` is about the content of nodes.  Moving and copying nodes never
makes new content.

At the end the two loops that copy a node and insert the copies are put in
these terms.
-/

namespace LabelTemplate.Xml

/-- Every kind in the forest has the property. -/
def Forest.AllKinds (P : NodeKind → Prop) : Forest → Prop
  | .nil => True
  | .node kind _ kids rest => P kind ∧ kids.AllKinds P ∧ rest.AllKinds P

theorem Forest.AllKinds.mono {P Q : NodeKind → Prop} (hPQ : ∀ k, P k → Q k) {f : Forest}
    (h : f.AllKinds P) : f.AllKinds Q := by
  induction f with
  | nil => trivial
  | node kind line kids rest ihk ihr => exact ⟨hPQ kind h.1, ihk h.2.1, ihr h.2.2⟩

theorem Forest.AllKinds.and {P Q : NodeKind → Prop} {f : Forest} (h : f.AllKinds P)
    (h' : f.AllKinds Q) : f.AllKinds fun k => P k ∧ Q k := by
  induction f with
  | nil => trivial
  | node kind line kids rest ihk ihr =>
    exact ⟨⟨h.1, h'.1⟩, ihk h.2.1 h'.2.1, ihr h.2.2 h'.2.2⟩

namespace Document

/-! ## Nodes kept in place -/

structure Keeps (out : NodeId → Prop) (d e : Document) : Prop where
  root : e.root = d.root
  prolog : e.prolog = d.prolog
  size_le : d.size ≤ e.size
  isElement : ∀ m, m < d.size → e.isElement m = d.isElement m
  parent : ∀ m, m < d.size → out m → e.parent? m = d.parent? m

namespace Keeps

variable {out out' : NodeId → Prop} {d e f : Document}

theorem refl (out : NodeId → Prop) (d : Document) : Keeps out d d :=
  ⟨rfl, rfl, Nat.le_refl _, fun _ _ => rfl, fun _ _ _ => rfl⟩

/-- Changes one after the other keep what both keep. -/
theorem trans (h : Keeps out d e) (h' : Keeps out' e f)
    (hout : ∀ m, m < d.size → out m → out' m) : Keeps out d f where
  root := h'.root.trans h.root
  prolog := h'.prolog.trans h.prolog
  size_le := Nat.le_trans h.size_le h'.size_le
  isElement m hm :=
    (h'.isElement m (Nat.lt_of_lt_of_le hm h.size_le)).trans (h.isElement m hm)
  parent m hm ho :=
    (h'.parent m (Nat.lt_of_lt_of_le hm h.size_le) (hout m hm ho)).trans (h.parent m hm ho)

theorem mono (h : Keeps out d e) (hout : ∀ m, m < d.size → out' m → out m) : Keeps out' d e :=
  ⟨h.root, h.prolog, h.size_le, h.isElement, fun m hm ho => h.parent m hm (hout m hm ho)⟩

theorem isElement_of (h : Keeps out d e) {m : NodeId} (hm : d.isElement m = true) :
    e.isElement m = true :=
  (h.isElement m (lt_size_of_isElement hm)).trans hm

/-- What is above a node that is kept together with all above it. -/
theorem within_iff (h : Keeps out d e) (hd : d.Linked)
    (hup : ∀ m p, out m → d.parent? m = some p → out p) {a m : NodeId} (hm : m < d.size)
    (ho : out m) : Within e a m ↔ Within d a m := by
  have hancestor : ∀ k m, m < d.size → out m → e.ancestor? k m = d.ancestor? k m := by
    intro k
    induction k with
    | zero => exact fun _ _ _ => rfl
    | succ k ih =>
      intro m hm ho
      rw [ancestor?_succ, ancestor?_succ, h.parent m hm ho]
      cases hp : d.parent? m with
      | none => rfl
      | some p => exact ih p (hd.parent_lt_size hp) (hup m p ho hp)
  rw [within_iff_ancestor?, within_iff_ancestor?]
  exact exists_congr fun k => by rw [hancestor k m hm ho]

end Keeps

/-- What is outside a node is outside together with all above it. -/
theorem not_within_parent {d : Document} {n m p : NodeId} (h : ¬ Within d n m)
    (hp : d.parent? m = some p) : ¬ Within d n p :=
  fun hw => h (within_of_parent? hp hw)

/-- The parent of a node is outside the node. -/
theorem Linked.not_within_self_parent {d : Document} (hd : d.Linked) {n p : NodeId}
    (hp : d.parent? n = some p) : ¬ Within d n p := by
  rintro (rfl | h)
  · exact hd.acyclic p (.child hp)
  · exact hd.acyclic n (h.trans (.child hp))

/-- What is above an old node is old. -/
theorem Linked.lt_size_of_within {d : Document} (hd : d.Linked) {a m : NodeId}
    (h : Within d a m) (hm : m < d.size) : a < d.size := by
  rcases h with rfl | h
  · exact hm
  · exact hd.below_lt_size h

theorem keeps_updateElement (out : NodeId → Prop) (d : Document) (n : NodeId)
    (f : Element → Element) : Keeps out d (d.updateElement n f) :=
  ⟨rfl, rfl, by simp, by simp, by simp⟩

theorem keeps_detach (d : Document) (n : NodeId) : Keeps (· ≠ n) d (d.detach n) where
  root := root_detach d n
  prolog := prolog_detach d n
  size_le := by simp
  isElement m _ := by simp
  parent m _ ho := by rw [parent?_detach, if_neg ho]

theorem keeps_insertChild (d : Document) (p i : NodeId) {c : NodeId} (hc : c < d.size) :
    Keeps (· ≠ c) d (d.insertChild p i c) where
  root := root_insertChild d p i c
  prolog := prolog_insertChild d p i c
  size_le := by simp
  isElement m _ := by simp
  parent m _ ho := by rw [parent?_insertChild d p i m hc, if_neg ho]

theorem keeps_graft (out : NodeId → Prop) (d : Document) (f : Forest) :
    Keeps out d (d.graft none f) where
  root := root_graft d none f
  prolog := prolog_graft d none f
  size_le := by simp
  isElement m hm := isElement_congr (kind?_graft (by simp) f hm)
  parent m hm _ := parent?_graft (by simp) f hm

/-! ## Content -/

/-- Every node of the arena has a kind with the property. -/
def AllKinds (P : NodeKind → Prop) (d : Document) : Prop :=
  ∀ m k, d.kind? m = some k → P k

theorem AllKinds.congr {P : NodeKind → Prop} {d e : Document} (h : d.AllKinds P)
    (hkind : ∀ m, e.kind? m = d.kind? m) : e.AllKinds P :=
  fun m k hk => h m k (by rw [← hkind, hk])

/-- A property of all elements is one of all kinds. -/
theorem allKinds_iff {Q : Element → Prop} {d : Document} :
    (d.AllKinds fun k => ∀ e, k.element? = some e → Q e) ↔ ∀ n e, d.element? n = some e → Q e := by
  constructor
  · intro h n e he
    obtain ⟨k, hk, hke⟩ := Option.bind_eq_some_iff.1 he
    exact h n k hk e hke
  · intro h n k hk e he
    refine h n e ?_
    rw [element?, hk]
    exact he

/-- All elements of an arena are in the list of its nodes. -/
theorem forall_element?_of_nodes {Q : Element → Prop} {d : Document}
    (h : ∀ x ∈ d.nodes.toList, ∀ e ∈ x.kind.element?, Q e) :
    ∀ n e, d.element? n = some e → Q e := by
  rw [← allKinds_iff]
  intro n k hk e he
  obtain ⟨x, hx, rfl⟩ := Option.map_eq_some_iff.1 hk
  exact h x (Array.mem_toList_iff.2 (Array.mem_of_getElem? hx)) e he

theorem AllKinds.stripComments {P : NodeKind → Prop} {d : Document} (h : d.AllKinds P) :
    d.stripComments.AllKinds P := by
  unfold Document.stripComments
  generalize (d.descendants d.root).filter d.isComment = comments
  induction comments generalizing d with
  | nil => exact h
  | cons c comments ih => exact ih (h.congr fun m => by simp)

theorem AllKinds.updateElement {P : NodeKind → Prop} {d : Document} (h : d.AllKinds P)
    (n : NodeId) {f : Element → Element} (hf : ∀ e, P (.element e) → P (.element (f e))) :
    (d.updateElement n f).AllKinds P := by
  intro m k hk
  rw [kind?_updateElement] at hk
  split at hk
  · obtain ⟨k', hk', rfl⟩ := Option.map_eq_some_iff.1 hk
    have hP := h m k' hk'
    cases k' with
    | element e => exact hf e hP
    | comment text => exact hP
  · exact h m k hk

theorem Spells.allKinds {P : NodeKind → Prop} {d : Document} (h : d.AllKinds P)
    {ns : List NodeId} {f : Forest} (hf : Spells d ns f) : f.AllKinds P := by
  induction hf with
  | nil => trivial
  | node hx _ _ ihk ihr => exact ⟨h _ _ (kind?_of_node? hx), ihk, ihr⟩

theorem AllKinds.graft {P : NodeKind → Prop} {d : Document} (h : d.AllKinds P)
    {par : Option NodeId} (hpar : ∀ p, par = some p → p < d.size) {f : Forest}
    (hf : f.AllKinds P) : (d.graft par f).AllKinds P := by
  induction f generalizing d par with
  | nil => exact h
  | node kind line kids rest ihk ihr =>
    obtain ⟨hkind, hkids, hrest⟩ := hf
    have hsprout : (d.sprout par kind line).AllKinds P := by
      intro m k hk
      rw [kind?_sprout d par kind line hpar] at hk
      split at hk
      · cases hk
        exact hkind
      · exact h m k hk
    refine ihr (ihk hsprout (by simp) hkids) (fun p hp => ?_) hrest
    rw [size_graft, size_sprout]
    exact Nat.lt_add_right _ (Nat.lt_succ_of_lt (hpar p hp))

/-- The arena of a forest has the content of the forest. -/
theorem allKinds_ofForest {P : NodeKind → Prop} {f : Forest} (hf : f.AllKinds P)
    (prolog : List Misc) : ({ ofForest f with prolog } : Document).AllKinds P := by
  have hempty : ({ nodes := #[], root := 0 } : Document).AllKinds P := fun m k hk => by
    simp [kind?, node?] at hk
  exact hempty.graft (by simp) hf

/-! ## Copies -/

variable {P : NodeKind → Prop} {d : Document}

/-- A copy is new, hangs nowhere and has old content. -/
theorem WellFormed.deepClone (hd : d.WellFormed) {n : NodeId} (hn : n < d.size) :
    (d.deepClone n).1 = d.size ∧ d.size < (d.deepClone n).2.size ∧
      (d.deepClone n).2.WellFormed ∧ (d.deepClone n).2.parent? d.size = none ∧
      Keeps (fun _ => True) d (d.deepClone n).2 ∧
      (d.AllKinds P → (d.deepClone n).2.AllKinds P) := by
  obtain ⟨f, hf, -⟩ := hd.exists_spells [n] (by simpa using hn)
  have hproper : f.Proper := hf.proper hd.linked
  rw [deepClone_eq_graft hd hf]
  refine ⟨rfl, ?_, hd.graft hproper, ?_, keeps_graft _ d f,
    fun h => h.graft (by simp) (hf.allKinds h)⟩
  · cases hf
    simp only [size_graft, Forest.size]
    omega
  · cases hf with
    | @node _ _ x kids _ hx hkids hrest =>
      cases hrest
      rw [graft_node, graft_nil, parent?_graft (by simp) kids (by simp),
        parent?_sprout _ _ _ _ (by simp), if_pos rfl]

/-- Inserting keeps what was above the parent of the insertion. -/
theorem Linked.within_insertChild (hd : d.Linked) {p i c a : NodeId} (hp : p < d.size)
    (hc : c < d.size) (hout : ¬ Within d c p) :
    Within (d.insertChild p i c) a p ↔ Within d a p := by
  have hkeeps : Keeps (Within d · p) d (d.insertChild p i c) :=
    (keeps_insertChild d p i hc).mono fun m _ hm hmc => hout (hmc ▸ hm)
  refine hkeeps.within_iff hd (fun m q hm hq => ?_) hp (within_self d p)
  exact Within.trans (.inr (.child hq)) hm

end Document

end LabelTemplate.Xml

namespace LabelTemplate.Engine

open Xml Document

variable {P : NodeKind → Prop} {d : Document}

theorem clones_spec (hd : d.WellFormed) {n : NodeId} (hn : n < d.size) (count : Nat) :
    (clones d n count).2.WellFormed ∧ Keeps (fun _ => True) d (clones d n count).2 ∧
      (d.AllKinds P → (clones d n count).2.AllKinds P) ∧
      ∀ c ∈ (clones d n count).1, d.size ≤ c ∧ c < (clones d n count).2.size := by
  induction count generalizing d with
  | zero => exact ⟨hd, Keeps.refl _ d, id, by simp [clones]⟩
  | succ count ih =>
    obtain ⟨hid, hsize, hwf, -, hkeeps, hkinds⟩ := hd.deepClone (P := P) hn
    obtain ⟨hwf', hkeeps', hkinds', hids⟩ := ih hwf (Nat.lt_of_lt_of_le hn hkeeps.size_le)
    refine ⟨hwf', hkeeps.trans hkeeps' fun _ _ _ => trivial, hkinds' ∘ hkinds, fun c hc => ?_⟩
    rcases List.mem_cons.1 hc with hhead | hc
    · rw [show c = d.size from hhead.trans hid]
      exact ⟨Nat.le_refl _, Nat.lt_of_lt_of_le hsize hkeeps'.size_le⟩
    · obtain ⟨hge, hlt⟩ := hids c hc
      exact ⟨Nat.le_trans hkeeps.size_le hge, hlt⟩

theorem insertAll_spec (hd : d.WellFormed) {p : NodeId} (hp : d.isElement p = true)
    {ids : List NodeId} (hids : ∀ c ∈ ids, c < d.size ∧ c ≠ d.root ∧ ¬ Within d c p) (i : Nat) :
    (insertAll d p i ids).WellFormed ∧ Keeps (· ∉ ids) d (insertAll d p i ids) ∧
      (d.AllKinds P → (insertAll d p i ids).AllKinds P) := by
  induction ids generalizing d i with
  | nil => exact ⟨hd, Keeps.refl _ d, id⟩
  | cons c ids ih =>
    obtain ⟨hc, hroot, hout⟩ := hids c List.mem_cons_self
    have hwf : (d.insertChild p i c).WellFormed := hd.insertChild i hp hc hroot hout
    obtain ⟨hwf', hkeeps', hkinds'⟩ := ih hwf (by simpa using hp) (fun c' hc' => by
      obtain ⟨hlt, hne, hn⟩ := hids c' (List.mem_cons_of_mem _ hc')
      rw [hd.linked.within_insertChild (lt_size_of_isElement hp) hc hout, size_insertChild,
        root_insertChild]
      exact ⟨hlt, hne, hn⟩) (i + 1)
    refine ⟨hwf', ?_, fun h => hkinds' (h.congr fun m => by simp)⟩
    refine ((keeps_insertChild d p i hc).mono fun m _ hm => ?_).trans hkeeps' fun m _ hm => ?_
    · exact fun h => hm (h ▸ List.mem_cons_self)
    · exact fun h => hm (List.mem_cons_of_mem _ h)

/-- Copies of a node inserted below its parent. -/
theorem insertAll_clones (hd : d.WellFormed) {n p : NodeId} (hp : d.parent? n = some p)
    (count i : Nat) :
    let r := clones d n count
    (insertAll r.2 p i r.1).WellFormed ∧ Keeps (fun _ => True) d (insertAll r.2 p i r.1) ∧
      (d.AllKinds P → (insertAll r.2 p i r.1).AllKinds P) ∧
      ∀ c ∈ r.1, d.size ≤ c ∧ c < (insertAll r.2 p i r.1).size := by
  intro r
  obtain ⟨hwf, hkeeps, hkinds, hids⟩ := clones_spec (P := P) hd (lt_size_of_parent? hp) count
  have hlt : p < d.size := hd.linked.parent_lt_size hp
  obtain ⟨hwf', hkeeps', hkinds'⟩ := insertAll_spec (P := P) hwf
    (hkeeps.isElement_of (hd.linked.parent_isElement hp)) (fun c hc => by
      obtain ⟨hge, hc⟩ := hids c hc
      refine ⟨hc, ?_, fun hw => ?_⟩
      · rw [hkeeps.root]
        exact fun he => Nat.not_lt.2 hge (he ▸ hd.root_lt_size)
      · rw [hkeeps.within_iff hd.linked (fun _ _ _ _ => trivial) hlt trivial] at hw
        exact Nat.not_lt.2 hge (hd.linked.lt_size_of_within hw hlt)) i
  refine ⟨hwf', hkeeps.trans hkeeps' fun m hm _ hmem => ?_, hkinds' ∘ hkinds, fun c hc => ?_⟩
  · exact Nat.not_lt.2 (hids m hmem).1 hm
  · obtain ⟨hge, hc⟩ := hids c hc
    exact ⟨hge, Nat.lt_of_lt_of_le hc hkeeps'.size_le⟩

end LabelTemplate.Engine
