import LabelTemplate.Proofs.Arena.Order
import LabelTemplate.Proofs.Reading.Run
import LabelTemplate.Proofs.Writing.Prefixes
import LabelTemplate.Template.Export
import Mathlib.Data.Set.Function

/-!
# What the comparison of structures compares

`structureDiff` looks up the path of every element of one tree in the other
tree, both ways round.  A path has a number only where siblings of one name
repeat, and a look-up without a number takes the first of several, so one way
alone accepts trees that differ.  Both ways together accept exactly the trees
of one shape: `structureDiff_eq_nil_iff_sameShape`.

* From shape to paths: the children of one name of an element are, in their
  order, the images of those of its counterpart, so both get the same number
  and the paths agree (`SameShape.elementPath_eq`).
* From paths to shape: where two elements have one path, the last of several
  children of a name can be found only if the other tree has as many, and this
  both ways (`length_childrenNamed_le`).  Level by level every element then has
  a counterpart with the same path (`exists_elementPath_eq`), and mapping an
  element to it is the bijection.
-/

namespace LabelTemplate.Xml

/-- The step of a path to the `i`-th of `count` siblings of one name. -/
def PathSegment.ofSibling (uri : Option String) (localName : String) (count i : Nat) :
    PathSegment :=
  { namespaceUri := uri, localName, index := if count > 1 then some (i + 1) else none }

namespace Document

/-- The expanded name of an element; a comment has none. -/
def expandedName? (d : Document) (n : NodeId) : Option (Option String × String) :=
  (d.name? n).map (·.expanded)

/-- `f` maps the elements of the tree of `d` to those of `e`: each to one and
each hit once, the root to the root, children to children, names kept except
that of the root, and siblings of one name kept in their order. -/
structure SameShape (f : NodeId → NodeId) (d e : Document) : Prop where
  bijOn : Set.BijOn f {n | d.InTree n} {m | e.InTree m}
  root : f d.root = e.root
  parent : ∀ n p, d.InTree n → d.parent? n = some p → e.parent? (f n) = some (f p)
  name : ∀ n, d.InTree n → n ≠ d.root → e.expandedName? (f n) = d.expandedName? n
  order : ∀ p a b, d.InTree a → d.InTree b → d.expandedName? a = d.expandedName? b →
    [a, b].Sublist (d.children p) → [f a, f b].Sublist (e.children (f p))

/-! ## Elements of the tree -/

theorem isElement_iff_expandedName? {d : Document} {n : NodeId} :
    d.isElement n = true ↔ ∃ uri localName, d.expandedName? n = some (uri, localName) := by
  rw [← name?_isSome, expandedName?]
  cases d.name? n <;> simp [QName.expanded]

namespace WellFormed

variable {d : Document} (hd : d.WellFormed)

include hd

/-- An element of the tree is the root or a child of an element of the tree
that has one step less above it. -/
theorem inTree_induction {motive : NodeId → Prop} (root : motive d.root)
    (child : ∀ n p, d.InTree n → d.InTree p → d.parent? n = some p → motive p → motive n)
    {n : NodeId} (hn : d.InTree n) : motive n := by
  obtain ⟨k, hk⟩ := within_iff_ancestor?.1 hn.1
  induction k generalizing n with
  | zero =>
    obtain rfl : n = d.root := Option.some.inj hk
    exact root
  | succ k ih =>
    obtain ⟨p, hp, hup⟩ := Option.bind_eq_some_iff.1 hk
    have hpTree := hd.inTree_parent hn.1 hp
    exact child n p hn hpTree hp (ih hpTree hup)

/-- Elements with one path are one element. -/
theorem eq_of_elementPath_eq {a b : NodeId} (ha : d.InTree a) (hb : d.InTree b)
    (h : d.elementPath a = d.elementPath b) : a = b := by
  have hfind := hd.find?_elementPath ha.1 ha.2
  rw [h, hd.find?_elementPath hb.1 hb.2] at hfind
  exact (Option.some.inj hfind).symm

/-- Paths identify elements: looking up the path of an attached element finds
this element and no other, so no two attached elements have one path. -/
theorem elementPath_identifies :
    (∀ n, d.isAttached n = true → d.isElement n = true → d.findAll (d.elementPath n) = [n]) ∧
      Set.InjOn d.elementPath {n | d.isAttached n = true ∧ d.isElement n = true} := by
  constructor
  · intro n hatt helem
    exact hd.findAll_elementPath (hd.isAttached_iff.1 hatt) helem
  · rintro m ⟨hmatt, hmelem⟩ n ⟨hnatt, hnelem⟩ hpath
    exact hd.eq_of_elementPath_eq ⟨hd.isAttached_iff.1 hmatt, hmelem⟩
      ⟨hd.isAttached_iff.1 hnatt, hnelem⟩ hpath

end WellFormed

/-- Elements of one local name: two in one namespace under different prefixes,
with a comment between them, and one in none, below which the name stands
again. -/
def labelled : Document :=
  .ofTree [] { name := .plain "a" } none
    (.node (.element { name := ⟨some "p", some "urn:b", "b"⟩ }) none .nil
      (.node (.comment "between") none .nil
        (.node (.element { name := ⟨some "q", some "urn:b", "b"⟩ }) none .nil
          (.node (.element { name := .plain "b" }) none
            (.node (.element { name := .plain "b" }) none .nil .nil) .nil))))

theorem labelled_wellFormed : labelled.WellFormed :=
  wellFormed_ofTree (by simp [Forest.Proper, NodeKind.isElement, NodeKind.element?]) _

theorem elementPath_identifies_labelled :
    [1, 3, 4, 5].map labelled.elementPath =
        [[⟨some "urn:b", "b", some 1⟩], [⟨some "urn:b", "b", some 2⟩], [⟨none, "b", none⟩],
          [⟨none, "b", none⟩, ⟨none, "b", none⟩]] ∧
      (∀ n ∈ [1, 3, 4, 5], labelled.findAll (labelled.elementPath n) = [n]) ∧
      labelled.elementPath 1 ≠ labelled.elementPath 3 := by
  obtain ⟨hfinds, hinj⟩ := labelled_wellFormed.elementPath_identifies
  have helements : ∀ n ∈ [1, 3, 4, 5],
      labelled.isAttached n = true ∧ labelled.isElement n = true := by decide +kernel
  refine ⟨by decide +kernel, fun n hn => hfinds n (helements n hn).1 (helements n hn).2, ?_⟩
  intro hsame
  have heq : 1 = 3 := hinj (helements 1 (by decide)) (helements 3 (by decide)) hsame
  cases heq

/-! ## Siblings of one name -/

namespace Linked

variable {d : Document} (hd : d.Linked)

include hd

theorem nodup_childrenNamed (p : NodeId) (uri : Option String) (localName : String) :
    (d.childrenNamed p uri localName).Nodup :=
  ((hd.children_nodup p).filter _).filter _

theorem mem_childrenNamed_iff {p c : NodeId} {uri : Option String} {localName : String} :
    c ∈ d.childrenNamed p uri localName ↔
      d.parent? c = some p ∧ d.expandedName? c = some (uri, localName) := by
  rw [mem_childrenNamed, hd.parent_iff_child, expandedName?]
  simp [QName.hasName, QName.expanded]

/-- The last step to the `i`-th child of a name. -/
theorem segmentOf_getElem? {p c : NodeId} {name : QName} {i : Nat}
    (h : (d.childrenNamed p name.namespaceUri name.localName)[i]? = some c) :
    d.segmentOf p name c = .ofSibling name.namespaceUri name.localName
      (d.childrenNamed p name.namespaceUri name.localName).length i := by
  obtain ⟨hi, hget⟩ := List.getElem?_eq_some_iff.1 h
  have hindex : (d.childrenNamed p name.namespaceUri name.localName).idxOf? c = some i := by
    refine List.idxOf?_eq_some_iff.2 ⟨hi, hget, fun j hj hsame => ?_⟩
    have hij := (hd.nodup_childrenNamed p _ _).getElem_inj_iff.1 (hsame.trans hget.symm)
    omega
  simp only [segmentOf, PathSegment.ofSibling, hindex, Option.map_some]

end Linked

/-- The path of the `i`-th child of a name. -/
theorem WellFormed.elementPath_getElem? {d : Document} (hd : d.WellFormed) {p c : NodeId}
    (hp : d.InTree p) {uri : Option String} {localName : String} {i : Nat}
    (h : (d.childrenNamed p uri localName)[i]? = some c) :
    d.elementPath c = d.elementPath p ++
      [.ofSibling uri localName (d.childrenNamed p uri localName).length i] := by
  obtain ⟨hparent, hnamed⟩ := hd.linked.mem_childrenNamed_iff.1 (List.mem_of_getElem? h)
  obtain ⟨name, hname, hexpanded⟩ := Option.map_eq_some_iff.1 hnamed
  obtain ⟨rfl, rfl⟩ : name.namespaceUri = uri ∧ name.localName = localName :=
    Prod.mk.inj hexpanded
  rw [hd.elementPath_child hparent hname hp.1, hd.linked.segmentOf_getElem? h]

/-- Every element but the root is one of the children of its name. -/
theorem WellFormed.exists_childrenNamed {d : Document} (hd : d.WellFormed) {n p : NodeId}
    (hn : d.InTree n) (hp : d.parent? n = some p) :
    ∃ uri localName, ∃ i : Nat, d.expandedName? n = some (uri, localName) ∧
      (d.childrenNamed p uri localName)[i]? = some n := by
  obtain ⟨uri, localName, hname⟩ := isElement_iff_expandedName?.1 hn.2
  obtain ⟨i, hi⟩ := List.getElem?_of_mem (hd.linked.mem_childrenNamed_iff.2 ⟨hp, hname⟩)
  exact ⟨uri, localName, i, hname, hi⟩

/-! ## From the shape to the paths -/

namespace SameShape

variable {d e : Document} {f : NodeId → NodeId} (h : SameShape f d e) (hd : d.WellFormed)
  (he : e.WellFormed)

include h hd he

/-- The children of one name correspond, and stand in the same order. -/
theorem map_childrenNamed {p : NodeId} (hp : d.InTree p) (uri : Option String)
    (localName : String) :
    (d.childrenNamed p uri localName).map f = e.childrenNamed (f p) uri localName := by
  have hchild : ∀ c ∈ d.childrenNamed p uri localName,
      d.InTree c ∧ d.parent? c = some p ∧ d.expandedName? c = some (uri, localName) :=
    fun c hc => by
      obtain ⟨hparent, hname⟩ := hd.linked.mem_childrenNamed_iff.1 hc
      exact ⟨⟨within_of_parent? hparent hp.1, isElement_iff_expandedName?.2 ⟨_, _, hname⟩⟩,
        hparent, hname⟩
  have hmem : ∀ m, m ∈ (d.childrenNamed p uri localName).map f ↔
      m ∈ e.childrenNamed (f p) uri localName := by
    intro m
    rw [List.mem_map, he.linked.mem_childrenNamed_iff]
    constructor
    · rintro ⟨c, hc, rfl⟩
      obtain ⟨hcTree, hparent, hname⟩ := hchild c hc
      have hne : c ≠ d.root := by
        rintro rfl
        rw [hd.root_parent] at hparent
        cases hparent
      exact ⟨h.parent c p hcTree hparent, (h.name c hcTree hne).trans hname⟩
    · rintro ⟨hparent, hname⟩
      have hmTree : e.InTree m := ⟨within_of_parent? hparent (h.bijOn.mapsTo hp).1,
        isElement_iff_expandedName?.2 ⟨_, _, hname⟩⟩
      obtain ⟨c, hcTree, rfl⟩ := h.bijOn.surjOn hmTree
      have hne : c ≠ d.root := by
        rintro rfl
        rw [h.root, he.root_parent] at hparent
        cases hparent
      obtain ⟨q, hq, -⟩ := hcTree.1.exists_parent hne
      have hqp : q = p := by
        refine h.bijOn.injOn (hd.inTree_parent hcTree.1 hq) hp (Option.some.inj ?_)
        rw [← h.parent c q hcTree hq, hparent]
      refine ⟨c, hd.linked.mem_childrenNamed_iff.2 ⟨hqp ▸ hq, ?_⟩, rfl⟩
      rw [← h.name c hcTree hne, hname]
  have hnodup : ((d.childrenNamed p uri localName).map f).Nodup :=
    (hd.linked.nodup_childrenNamed p uri localName).map_on fun a ha b hb =>
      h.bijOn.injOn (hchild a ha).1 (hchild b hb).1
  have himages : ((d.childrenNamed p uri localName).map f).Pairwise
      fun a b => [a, b].Sublist (e.children (f p)) := by
    rw [List.pairwise_map, List.pairwise_iff_forall_sublist]
    intro a b hab
    obtain ⟨ha, -, hna⟩ := hchild a (hab.subset (by simp))
    obtain ⟨hb, -, hnb⟩ := hchild b (hab.subset (by simp))
    exact h.order p a b ha hb (hna.trans hnb.symm) (hab.trans (d.childrenNamed_sublist _ _ _))
  have hnamed : (e.childrenNamed (f p) uri localName).Pairwise
      fun a b => [a, b].Sublist (e.children (f p)) :=
    List.pairwise_iff_forall_sublist.2 fun hab => hab.trans (e.childrenNamed_sublist _ _ _)
  -- two lists with the same members that both follow the order of the children
  exact List.Perm.eq_of_pairwise
    (fun _ _ _ _ => eq_of_sublist_of_sublist (he.children_nodup (f p))) himages hnamed
    ((List.perm_ext_iff_of_nodup hnodup (he.linked.nodup_childrenNamed _ _ _)).2 hmem)

/-- An element and its image have one path. -/
theorem elementPath_eq {n : NodeId} (hn : d.InTree n) :
    e.elementPath (f n) = d.elementPath n := by
  refine hd.inTree_induction (motive := fun n => e.elementPath (f n) = d.elementPath n) ?root
    ?child hn
  case root => rw [h.root, elementPath_root, elementPath_root]
  case child =>
    intro n p hn hp hparent ih
    obtain ⟨uri, localName, i, -, hi⟩ := hd.exists_childrenNamed hn hparent
    have hsame := h.map_childrenNamed hd he hp uri localName
    have hi' : (e.childrenNamed (f p) uri localName)[i]? = some (f n) := by
      rw [← hsame, List.getElem?_map, hi, Option.map_some]
    rw [hd.elementPath_getElem? hp hi, he.elementPath_getElem? (h.bijOn.mapsTo hp) hi', ih,
      ← hsame, List.length_map]

end SameShape

/-! ## From the paths to the shape -/

/-- The path of every element of `d` leads somewhere in `e`. -/
def Covers (e d : Document) : Prop := ∀ n, d.InTree n → (e.find? (d.elementPath n)).isSome = true

section Covers

variable {d e : Document} (hd : d.WellFormed) (he : e.WellFormed)

/-- A path one step longer than that of an element leads to children of it. -/
theorem WellFormed.findAll_elementPath_append (he : e.WellFormed) {q : NodeId} (hq : e.InTree q)
    (segment : PathSegment) :
    e.findAll (e.elementPath q ++ [segment]) = e.stepInto segment q := by
  rw [findAll_append, he.findAll_elementPath hq.1 hq.2, List.flatMap_cons, List.flatMap_nil,
    List.append_nil]

/-- The last of several siblings can be entered only where there are as
many. -/
theorem length_le_of_stepInto {q : NodeId} {uri : Option String} {localName : String} {i : Nat}
    (h : e.stepInto (.ofSibling uri localName (i + 1) i) q ≠ []) :
    i + 1 ≤ (e.childrenNamed q uri localName).length := by
  unfold stepInto PathSegment.ofSibling at h
  cases i with
  | zero => exact List.length_pos_iff.2 (by simpa using h)
  | succ i =>
    simp only [Nat.lt_add_left_iff_pos, Nat.zero_lt_succ, gt_iff_lt, if_true] at h
    by_contra hlt
    exact h (by rw [List.getElem?_eq_none (by omega), Option.toList_none])

include hd he

/-- An element has at most as many children of a name as the element of the
other tree with the same path. -/
theorem length_childrenNamed_le (hcovers : e.Covers d) {p q : NodeId} (hp : d.InTree p)
    (hq : e.InTree q) (hpath : e.elementPath q = d.elementPath p) (uri : Option String)
    (localName : String) : (d.childrenNamed p uri localName).length ≤
      (e.childrenNamed q uri localName).length := by
  cases hcount : (d.childrenNamed p uri localName).length with
  | zero => exact Nat.zero_le _
  | succ i =>
    obtain ⟨c, hc⟩ : ∃ c, (d.childrenNamed p uri localName)[i]? = some c :=
      ⟨_, List.getElem?_eq_getElem (by omega)⟩
    obtain ⟨hparent, hname⟩ := hd.linked.mem_childrenNamed_iff.1 (List.mem_of_getElem? hc)
    have hfound := hcovers c
      ⟨within_of_parent? hparent hp.1, isElement_iff_expandedName?.2 ⟨_, _, hname⟩⟩
    rw [hd.elementPath_getElem? hp hc, hcount, ← hpath, find?,
      he.findAll_elementPath_append hq] at hfound
    refine length_le_of_stepInto fun hnone => ?_
    rw [hnone] at hfound
    cases hfound

/-- Where each tree covers the other, elements with one path have equally many
children of each name. -/
theorem length_childrenNamed_eq (hde : e.Covers d) (hed : d.Covers e) {p q : NodeId}
    (hp : d.InTree p) (hq : e.InTree q) (hpath : e.elementPath q = d.elementPath p)
    (uri : Option String) (localName : String) :
    (d.childrenNamed p uri localName).length = (e.childrenNamed q uri localName).length :=
  Nat.le_antisymm (length_childrenNamed_le hd he hde hp hq hpath uri localName)
    (length_childrenNamed_le he hd hed hq hp hpath.symm uri localName)

/-- Every element of the one tree has a counterpart with the same path. -/
theorem exists_elementPath_eq (hde : e.Covers d) (hed : d.Covers e) {n : NodeId}
    (hn : d.InTree n) : ∃ m, e.InTree m ∧ e.elementPath m = d.elementPath n := by
  refine hd.inTree_induction
    (motive := fun n => ∃ m, e.InTree m ∧ e.elementPath m = d.elementPath n) ?root ?child hn
  case root => exact ⟨e.root, he.inTree_root, by rw [elementPath_root, elementPath_root]⟩
  case child =>
    rintro n p hn hp hparent ⟨q, hq, hpath⟩
    obtain ⟨uri, localName, i, -, hi⟩ := hd.exists_childrenNamed hn hparent
    have hcount := length_childrenNamed_eq hd he hde hed hp hq hpath uri localName
    obtain ⟨m, hm⟩ : ∃ m, (e.childrenNamed q uri localName)[i]? = some m :=
      ⟨_, List.getElem?_eq_getElem (hcount ▸ (List.getElem?_eq_some_iff.1 hi).1)⟩
    obtain ⟨hparent', hname'⟩ := he.linked.mem_childrenNamed_iff.1 (List.mem_of_getElem? hm)
    refine ⟨m, ⟨within_of_parent? hparent' hq.1,
      isElement_iff_expandedName?.2 ⟨_, _, hname'⟩⟩, ?_⟩
    rw [he.elementPath_getElem? hq hm, hd.elementPath_getElem? hp hi, hpath, hcount]

end Covers

/-- The element of `e` with the path of an element of `d`. -/
def counterpart (d e : Document) (n : NodeId) : NodeId := (e.find? (d.elementPath n)).getD e.root

section Counterpart

variable {d e : Document}

theorem counterpart_eq (he : e.WellFormed) {n m : NodeId} (hm : e.InTree m)
    (hpath : e.elementPath m = d.elementPath n) : counterpart d e n = m := by
  rw [counterpart, ← hpath, he.find?_elementPath hm.1 hm.2, Option.getD_some]

variable (hd : d.WellFormed) (he : e.WellFormed) (hde : e.Covers d) (hed : d.Covers e)

include hd he hde hed

theorem counterpart_spec {n : NodeId} (hn : d.InTree n) :
    e.InTree (counterpart d e n) ∧ e.elementPath (counterpart d e n) = d.elementPath n := by
  obtain ⟨m, hm, hpath⟩ := exists_elementPath_eq hd he hde hed hn
  rw [counterpart_eq he hm hpath]
  exact ⟨hm, hpath⟩

/-- The counterparts of the children of a name are the children of that name
of the counterpart, in the same order. -/
theorem counterpart_child {p n : NodeId} (hp : d.InTree p) {uri : Option String}
    {localName : String} {i : Nat} (hi : (d.childrenNamed p uri localName)[i]? = some n) :
    (e.childrenNamed (counterpart d e p) uri localName)[i]? = some (counterpart d e n) := by
  obtain ⟨hq, hpath⟩ := counterpart_spec hd he hde hed hp
  have hcount := length_childrenNamed_eq hd he hde hed hp hq hpath uri localName
  obtain ⟨m, hm⟩ : ∃ m, (e.childrenNamed (counterpart d e p) uri localName)[i]? = some m :=
    ⟨_, List.getElem?_eq_getElem (hcount ▸ (List.getElem?_eq_some_iff.1 hi).1)⟩
  obtain ⟨hparent, hname⟩ := he.linked.mem_childrenNamed_iff.1 (List.mem_of_getElem? hm)
  have hmTree : e.InTree m :=
    ⟨within_of_parent? hparent hq.1, isElement_iff_expandedName?.2 ⟨_, _, hname⟩⟩
  rw [hm, counterpart_eq he hmTree]
  rw [he.elementPath_getElem? hq hm, hd.elementPath_getElem? hp hi, hpath, hcount]

/-- Trees that cover each other have one shape. -/
theorem sameShape_counterpart : SameShape (counterpart d e) d e where
  bijOn := by
    refine ⟨fun n hn => (counterpart_spec hd he hde hed hn).1, fun a ha b hb hab => ?_,
      fun m hm => ?_⟩
    · refine hd.eq_of_elementPath_eq ha hb ?_
      rw [← (counterpart_spec hd he hde hed ha).2, hab, (counterpart_spec hd he hde hed hb).2]
    · obtain ⟨n, hn, hpath⟩ := exists_elementPath_eq he hd hed hde hm
      exact ⟨n, hn, counterpart_eq he hm hpath.symm⟩
  root := counterpart_eq he he.inTree_root (by rw [elementPath_root, elementPath_root])
  parent n p hn hparent := by
    obtain ⟨uri, localName, i, -, hi⟩ := hd.exists_childrenNamed hn hparent
    have hchild := counterpart_child hd he hde hed (hd.inTree_parent hn.1 hparent) hi
    exact (he.linked.mem_childrenNamed_iff.1 (List.mem_of_getElem? hchild)).1
  name n hn hne := by
    obtain ⟨p, hparent, -⟩ := hn.1.exists_parent hne
    obtain ⟨uri, localName, i, hname, hi⟩ := hd.exists_childrenNamed hn hparent
    have hchild := counterpart_child hd he hde hed (hd.inTree_parent hn.1 hparent) hi
    rw [hname]
    exact (he.linked.mem_childrenNamed_iff.1 (List.mem_of_getElem? hchild)).2
  order p a b ha hb hsame hab := by
    have hparent : ∀ c ∈ [a, b], d.parent? c = some p := fun c hc =>
      (hd.parent_iff_child p c).2 (hab.subset hc)
    have hp : d.InTree p := hd.inTree_parent ha.1 (hparent a (by simp))
    obtain ⟨uri, localName, i, hname, hi⟩ := hd.exists_childrenNamed ha (hparent a (by simp))
    obtain ⟨j, hj⟩ := List.getElem?_of_mem (hd.linked.mem_childrenNamed_iff.2
      ⟨hparent b (by simp), hsame.symm.trans hname⟩)
    have hne : a ≠ b := hd.linked.ne_of_sublist_children hab
    have hij : i < j := by
      rcases Nat.lt_trichotomy i j with hlt | rfl | hlt
      · exact hlt
      · exact absurd (Option.some.inj (hi.symm.trans hj)) hne
      · have hba := (sublist_of_getElem? hj hi hlt).trans (d.childrenNamed_sublist p uri localName)
        exact absurd (eq_of_sublist_of_sublist (hd.children_nodup p) hab hba) hne
    exact (sublist_of_getElem? (counterpart_child hd he hde hed hp hi)
      (counterpart_child hd he hde hed hp hj) hij).trans (e.childrenNamed_sublist _ _ _)

end Counterpart

end Document

end LabelTemplate.Xml

namespace LabelTemplate

open Xml Document

theorem missingFrom_eq_nil_iff {d e : Document} (hd : d.WellFormed) :
    missingFrom d e = [] ↔ e.Covers d := by
  simp only [missingFrom, List.filterMap_eq_nil_iff, hd.mem_descendantElements_root, Covers]
  refine forall_congr' fun n => imp_congr_right fun _ => ?_
  cases e.find? (d.elementPath n) <;> simp

/-- The comparison of structures finds no change exactly when the trees have
one shape. -/
theorem structureDiff_eq_nil_iff_sameShape {d e : Document} (hd : d.WellFormed)
    (he : e.WellFormed) : structureDiff d e = ([], []) ↔ ∃ f, SameShape f d e := by
  rw [structureDiff, Prod.mk.injEq, missingFrom_eq_nil_iff hd, missingFrom_eq_nil_iff he]
  constructor
  · rintro ⟨hde, hed⟩
    exact ⟨counterpart d e, sameShape_counterpart hd he hde hed⟩
  · rintro ⟨f, hf⟩
    refine ⟨fun n hn => ?_, fun m hm => ?_⟩
    · have hfn := hf.bijOn.mapsTo hn
      rw [← hf.elementPath_eq hd he hn, he.find?_elementPath hfn.1 hfn.2, Option.isSome_some]
    · obtain ⟨n, hn, rfl⟩ := hf.bijOn.surjOn hm
      rw [hf.elementPath_eq hd he hn, hd.find?_elementPath hn.1 hn.2, Option.isSome_some]

/-- A root with two children `b` around a child `c`; the second `b` has a
child. -/
def plainList : Document :=
  .ofTree [] { name := .plain "a" } none
    (.node (.element { name := .plain "b" }) none .nil
      (.node (.element { name := .plain "c" }) none .nil
        (.node (.element { name := .plain "b" }) none
          (.node (.element { name := ⟨none, some "u", "x"⟩ }) none .nil .nil) .nil)))

/-- The same under another root, with a comment, a prefix, a text and an
attribute, and with `c` in front. -/
def dressedList : Document :=
  .ofTree [] { name := .plain "z" } none
    (.node (.comment "comment") none .nil
      (.node (.element { name := .plain "c", text := some "text" }) none .nil
        (.node (.element { name := .plain "b" }) none .nil
          (.node (.element { name := .plain "b", attributes := [⟨.plain "k", "v"⟩] }) none
            (.node (.element { name := ⟨some "p", some "u", "x"⟩ }) none .nil .nil) .nil))))

/-- The same as `plainList` with the two children `b` exchanged. -/
def exchangedList : Document :=
  .ofTree [] { name := .plain "a" } none
    (.node (.element { name := .plain "b" }) none
      (.node (.element { name := ⟨none, some "u", "x"⟩ }) none .nil .nil)
      (.node (.element { name := .plain "c" }) none .nil
        (.node (.element { name := .plain "b" }) none .nil .nil)))

theorem structureDiff_eq_nil_iff_sameShape_lists :
    (plainList.WellFormed ∧ dressedList.WellFormed ∧ exchangedList.WellFormed) ∧
      (∃ f, SameShape f plainList dressedList) ∧ ¬ ∃ f, SameShape f plainList exchangedList := by
  have hplain : plainList.WellFormed := by
    refine wellFormed_ofTree ?_ _
    simp [Forest.Proper, NodeKind.isElement, NodeKind.element?]
  have hdressed : dressedList.WellFormed := by
    refine wellFormed_ofTree ?_ _
    simp [Forest.Proper, NodeKind.isElement, NodeKind.element?]
  have hexchanged : exchangedList.WellFormed := by
    refine wellFormed_ofTree ?_ _
    simp [Forest.Proper, NodeKind.isElement, NodeKind.element?]
  refine ⟨⟨hplain, hdressed, hexchanged⟩, ?_, fun h => ?_⟩
  · exact (structureDiff_eq_nil_iff_sameShape hplain hdressed).1 (by decide +kernel)
  · have hnone := (structureDiff_eq_nil_iff_sameShape hplain hexchanged).2 h
    exact absurd hnone (by decide +kernel)

end LabelTemplate
