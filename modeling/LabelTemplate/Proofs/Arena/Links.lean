import LabelTemplate.Xml.Document
import Mathlib.Data.Fintype.Card
import Mathlib.Data.List.Nodup
import Mathlib.Tactic.SplitIfs

/-!
# The links of an arena

What each operation on a document does to the kind, the parent and the
children of every node, and what following parents can reach.

There are three groups.

* Views.  For every operation one lemma per view, so that no later proof
  opens an operation.
* Ways up.  `ancestor?` follows a given number of parents.  In an arena
  without cycles the nodes on a way up are distinct, so `lt_size_of_ancestor?`
  bounds their number by the size of the arena.  That is why the fuel of
  `isAttached`, `elementPath` and `deepClone` never runs out.
* Links.  `Linked` is `WellFormed` without what it says of the root.  It
  holds of every stage of reading, also before there is a root.
-/

namespace LabelTemplate.Xml

namespace NodeKind

@[simp] theorem isElement_mapElement (k : NodeKind) (f : Element → Element) :
    (k.mapElement f).isElement = k.isElement := by
  cases k <;> rfl

@[simp] theorem isComment_mapElement (k : NodeKind) (f : Element → Element) :
    (k.mapElement f).isComment = k.isComment := by
  cases k <;> rfl

@[simp] theorem element?_mapElement (k : NodeKind) (f : Element → Element) :
    (k.mapElement f).element? = k.element?.map f := by
  cases k <;> rfl

end NodeKind

namespace Document

/-! ## Views -/

theorem isElement_eq (d : Document) (n : NodeId) :
    d.isElement n = (d.kind? n).any (·.isElement) := by
  simp only [isElement, element?, NodeKind.isElement]
  cases d.kind? n <;> rfl

theorem node?_eq_none_iff {d : Document} {n : NodeId} : d.node? n = none ↔ d.size ≤ n := by
  simp [node?, size]

theorem lt_size_of_node? {d : Document} {n : NodeId} {x : Node} (h : d.node? n = some x) :
    n < d.size := by
  by_contra hn
  rw [node?_eq_none_iff.2 (Nat.le_of_not_lt hn)] at h
  cases h

theorem exists_node? {d : Document} {n : NodeId} (h : n < d.size) : ∃ x, d.node? n = some x := by
  cases hx : d.node? n with
  | none => exact absurd (node?_eq_none_iff.1 hx) (Nat.not_le.2 h)
  | some x => exact ⟨x, rfl⟩

theorem lt_size_of_parent? {d : Document} {n p : NodeId} (h : d.parent? n = some p) :
    n < d.size := by
  obtain ⟨x, hx, -⟩ := Option.bind_eq_some_iff.1 h
  exact lt_size_of_node? hx

theorem lt_size_of_isElement {d : Document} {n : NodeId} (h : d.isElement n = true) :
    n < d.size := by
  rw [isElement_eq, kind?] at h
  cases hx : d.node? n with
  | none => simp [hx] at h
  | some x => exact lt_size_of_node? hx

theorem kind?_of_node? {d : Document} {n : NodeId} {x : Node} (h : d.node? n = some x) :
    d.kind? n = some x.kind := by
  simp [kind?, h]

theorem children_of_node? {d : Document} {n : NodeId} {x : Node} (h : d.node? n = some x) :
    d.children n = x.children := by
  simp [children, h]

theorem isComment_of_isElement {d : Document} {n : NodeId} (h : d.isElement n = true) :
    d.isComment n = false := by
  rw [isElement_eq] at h
  rw [isComment]
  cases hk : d.kind? n with
  | none => rfl
  | some k =>
    rw [hk] at h
    change (!k.isElement) = false
    rw [Bool.not_eq_false']
    exact h

/-- A node of the arena that is no comment is an element. -/
theorem isElement_of_isComment_eq_false {d : Document} {n : NodeId} (hn : n < d.size)
    (h : d.isComment n = false) : d.isElement n = true := by
  obtain ⟨x, hx⟩ := exists_node? hn
  rw [isElement_eq, kind?_of_node? hx]
  rw [isComment, kind?_of_node? hx] at h
  simpa [NodeKind.isComment] using h

theorem isElement_congr {d e : Document} {n : NodeId} (h : d.kind? n = e.kind? n) :
    d.isElement n = e.isElement n := by
  rw [isElement_eq, isElement_eq, h]

/-! ### A changed element -/

@[simp] theorem root_updateNode (d : Document) (n : NodeId) (f : Node → Node) :
    (d.updateNode n f).root = d.root := rfl

@[simp] theorem root_updateElement (d : Document) (n : NodeId) (f : Element → Element) :
    (d.updateElement n f).root = d.root := rfl

@[simp] theorem size_updateElement (d : Document) (n : NodeId) (f : Element → Element) :
    (d.updateElement n f).size = d.size :=
  size_updateNode d n _

@[simp] theorem parent?_updateElement (d : Document) (n m : NodeId) (f : Element → Element) :
    (d.updateElement n f).parent? m = d.parent? m := by
  simp only [updateElement, parent?, node?_updateNode]
  split <;> cases d.node? m <;> rfl

@[simp] theorem children_updateElement (d : Document) (n m : NodeId) (f : Element → Element) :
    (d.updateElement n f).children m = d.children m := by
  simp only [updateElement, children, node?_updateNode]
  split_ifs <;> cases d.node? m <;> rfl

theorem kind?_updateElement (d : Document) (n m : NodeId) (f : Element → Element) :
    (d.updateElement n f).kind? m =
      if n = m then (d.kind? m).map (·.mapElement f) else d.kind? m := by
  simp only [updateElement, kind?, node?_updateNode]
  split <;> cases d.node? m <;> rfl

theorem element?_updateElement (d : Document) (n m : NodeId) (f : Element → Element) :
    (d.updateElement n f).element? m =
      if n = m then (d.element? m).map f else d.element? m := by
  simp only [element?, kind?_updateElement]
  split
  · cases d.kind? m with
    | none => rfl
    | some k => exact NodeKind.element?_mapElement k f
  · rfl

@[simp] theorem isElement_updateElement (d : Document) (n m : NodeId) (f : Element → Element) :
    (d.updateElement n f).isElement m = d.isElement m := by
  simp only [isElement, element?_updateElement]
  split <;> simp

@[simp] theorem hasElementChildren_updateElement (d : Document) (n m : NodeId)
    (f : Element → Element) :
    (d.updateElement n f).hasElementChildren m = d.hasElementChildren m := by
  rw [hasElementChildren, hasElementChildren, children_updateElement]
  exact congrArg ((d.children m).any ·) (funext fun c => isElement_updateElement d n c f)

@[simp] theorem isComment_updateElement (d : Document) (n m : NodeId) (f : Element → Element) :
    (d.updateElement n f).isComment m = d.isComment m := by
  simp only [isComment, kind?_updateElement]
  split
  · cases d.kind? m <;> simp
  · rfl

/-! ### A detached node -/

@[simp] theorem root_detach (d : Document) (n : NodeId) : (d.detach n).root = d.root := by
  unfold detach
  split <;> rfl

@[simp] theorem prolog_detach (d : Document) (n : NodeId) : (d.detach n).prolog = d.prolog := by
  unfold detach
  split <;> rfl

@[simp] theorem size_detach (d : Document) (n : NodeId) : (d.detach n).size = d.size := by
  unfold detach
  split <;> simp

@[simp] theorem kind?_detach (d : Document) (n m : NodeId) :
    (d.detach n).kind? m = d.kind? m := by
  unfold detach
  split
  · rfl
  · simp only [kind?, node?_updateNode]
    split_ifs <;> cases d.node? m <;> rfl

@[simp] theorem isElement_detach (d : Document) (n m : NodeId) :
    (d.detach n).isElement m = d.isElement m :=
  isElement_congr (kind?_detach d n m)

theorem parent?_detach (d : Document) (n m : NodeId) :
    (d.detach n).parent? m = if m = n then none else d.parent? m := by
  unfold detach
  cases hp : d.parent? n with
  | none =>
    by_cases hm : m = n
    · rw [if_pos hm, hm]
      exact hp
    · rw [if_neg hm]
  | some p =>
    simp only [parent?, node?_updateNode]
    by_cases hm : m = n
    · rw [if_pos hm, if_pos hm.symm]
      split_ifs <;> cases d.node? m <;> rfl
    · rw [if_neg hm, if_neg (Ne.symm hm)]
      split_ifs <;> cases d.node? m <;> rfl

theorem children_detach (d : Document) (n m : NodeId) :
    (d.detach n).children m =
      if d.parent? n = some m then (d.children m).erase n else d.children m := by
  unfold detach
  cases hp : d.parent? n with
  | none => simp
  | some p =>
    simp only [children, node?_updateNode, Option.some.injEq]
    by_cases hm : p = m
    · rw [if_pos hm, if_pos hm]
      split_ifs <;> cases d.node? m <;> rfl
    · rw [if_neg hm, if_neg hm]
      split_ifs <;> cases d.node? m <;> rfl

/-! ### An inserted node -/

/-- Inserting at a position that is cut to the length of the list. -/
theorem insertIdx_min (l : List NodeId) (i : Nat) (c : NodeId) :
    l.insertIdx (min i l.length) c = l.take i ++ c :: l.drop i := by
  induction l generalizing i with
  | nil => simp
  | cons x l ih =>
    cases i with
    | zero => simp
    | succ i => simpa [Nat.succ_min_succ] using ih i

@[simp] theorem root_insertChild (d : Document) (p i c : NodeId) :
    (d.insertChild p i c).root = d.root := by
  simp [insertChild]

@[simp] theorem prolog_insertChild (d : Document) (p i c : NodeId) :
    (d.insertChild p i c).prolog = d.prolog :=
  prolog_detach d c

@[simp] theorem size_insertChild (d : Document) (p i c : NodeId) :
    (d.insertChild p i c).size = d.size := by
  simp [insertChild]

@[simp] theorem kind?_insertChild (d : Document) (p i c m : NodeId) :
    (d.insertChild p i c).kind? m = d.kind? m := by
  rw [← kind?_detach d c m]
  simp only [insertChild, kind?, node?_updateNode]
  split_ifs <;> cases (d.detach c).node? m <;> rfl

@[simp] theorem isElement_insertChild (d : Document) (p i c m : NodeId) :
    (d.insertChild p i c).isElement m = d.isElement m :=
  isElement_congr (kind?_insertChild d p i c m)

theorem parent?_insertChild (d : Document) {c : NodeId} (p i m : NodeId) (hc : c < d.size) :
    (d.insertChild p i c).parent? m = if m = c then some p else d.parent? m := by
  have hdetach := parent?_detach d c m
  simp only [insertChild, parent?, node?_updateNode] at hdetach ⊢
  by_cases hm : m = c
  · subst hm
    obtain ⟨x, hx⟩ := exists_node? (d := d.detach m) (by simpa using hc)
    rw [if_pos rfl, if_pos rfl]
    split_ifs <;> simp [hx]
  · rw [if_neg hm] at hdetach
    rw [if_neg hm, if_neg (Ne.symm hm), ← hdetach]
    split_ifs <;> cases (d.detach c).node? m <;> rfl

theorem children_insertChild (d : Document) {p : NodeId} (i c m : NodeId) (hp : p < d.size) :
    (d.insertChild p i c).children m =
      if m = p then
        ((d.detach c).children p).take i ++ c :: ((d.detach c).children p).drop i
      else (d.detach c).children m := by
  obtain ⟨x, hx⟩ := exists_node? (d := d.detach c) (n := p) (by simpa using hp)
  simp only [insertChild, children, node?_updateNode]
  by_cases hm : m = p
  · subst hm
    rw [if_pos rfl, if_pos rfl, hx]
    split_ifs <;> simp [insertIdx_min]
  · rw [if_neg hm, if_neg (Ne.symm hm)]
    split_ifs <;> cases (d.detach c).node? m <;> rfl

/-! ## Ways up -/

/-- The ancestor `k` parents above a node, the node itself for `k = 0`. -/
def ancestor? (d : Document) : (k : Nat) → NodeId → Option NodeId
  | 0, n => some n
  | k + 1, n => (d.parent? n).bind (d.ancestor? k)

@[simp] theorem ancestor?_zero (d : Document) (n : NodeId) : d.ancestor? 0 n = some n := rfl

theorem ancestor?_succ (d : Document) (k : Nat) (n : NodeId) :
    d.ancestor? (k + 1) n = (d.parent? n).bind (d.ancestor? k) := rfl

theorem ancestor?_add (d : Document) (i j : Nat) (n : NodeId) :
    d.ancestor? (i + j) n = (d.ancestor? i n).bind (d.ancestor? j) := by
  induction i generalizing n with
  | zero => simp
  | succ i ih =>
    rw [Nat.succ_add, ancestor?_succ, ancestor?_succ, Option.bind_assoc]
    congr 1
    funext p
    exact ih p

theorem ancestor?_succ_of {d : Document} {k : Nat} {n p a : NodeId}
    (h : d.ancestor? k n = some p) (hp : d.parent? p = some a) :
    d.ancestor? (k + 1) n = some a := by
  rw [ancestor?_add, h, Option.bind_some, ancestor?_succ, hp, Option.bind_some, ancestor?_zero]

theorem Below.trans {d : Document} {a b n : NodeId} (hab : Below d a b) (hbn : Below d b n) :
    Below d a n := by
  induction hbn with
  | child h => exact .step h hab
  | step h _ ih => exact .step h ih

theorem below_iff_ancestor? {d : Document} {a n : NodeId} :
    Below d a n ↔ ∃ k, d.ancestor? (k + 1) n = some a := by
  constructor
  · intro h
    induction h with
    | child h => exact ⟨0, by simp [ancestor?_succ, h]⟩
    | step h _ ih =>
      obtain ⟨k, hk⟩ := ih
      exact ⟨k + 1, by rw [ancestor?_succ, h, Option.bind_some, hk]⟩
  · rintro ⟨k, hk⟩
    induction k generalizing n with
    | zero =>
      obtain ⟨p, hp, he⟩ := Option.bind_eq_some_iff.1 hk
      cases he
      exact .child hp
    | succ k ih =>
      obtain ⟨p, hp, he⟩ := Option.bind_eq_some_iff.1 hk
      exact .step hp (ih he)

/-- `Within d a n`: `n` is `a` or is somewhere below it. -/
def Within (d : Document) (a n : NodeId) : Prop := n = a ∨ Below d a n

theorem within_self (d : Document) (a : NodeId) : Within d a a := .inl rfl

theorem within_iff_ancestor? {d : Document} {a n : NodeId} :
    Within d a n ↔ ∃ k, d.ancestor? k n = some a := by
  constructor
  · rintro (rfl | h)
    · exact ⟨0, rfl⟩
    · obtain ⟨k, hk⟩ := below_iff_ancestor?.1 h
      exact ⟨k + 1, hk⟩
  · rintro ⟨k, hk⟩
    cases k with
    | zero => exact .inl (Option.some.inj hk)
    | succ k => exact .inr (below_iff_ancestor?.2 ⟨k, hk⟩)

/-- Below a node is below its parent. -/
theorem Within.below {d : Document} {a p n : NodeId} (h : Within d p n)
    (hp : d.parent? p = some a) : Below d a n := by
  rcases h with rfl | h
  · exact .child hp
  · exact Below.trans (.child hp) h

theorem Within.trans {d : Document} {a b n : NodeId} (hab : Within d a b) (hbn : Within d b n) :
    Within d a n := by
  rcases hbn with rfl | hbn
  · exact hab
  · rcases hab with rfl | hab
    · exact .inr hbn
    · exact .inr (hab.trans hbn)

/-- Of two nodes above a third one, one is above the other. -/
theorem within_or_below {d : Document} {a b n : NodeId} (ha : Within d a n)
    (hb : Within d b n) : Within d a b ∨ Below d b a := by
  obtain ⟨i, hi⟩ := within_iff_ancestor?.1 ha
  obtain ⟨j, hj⟩ := within_iff_ancestor?.1 hb
  rcases Nat.lt_or_ge i j with h | h
  · obtain ⟨k, rfl⟩ := Nat.exists_eq_add_of_lt h
    rw [Nat.add_assoc, ancestor?_add, hi, Option.bind_some] at hj
    exact .inr (below_iff_ancestor?.2 ⟨k, hj⟩)
  · obtain ⟨k, rfl⟩ := Nat.exists_eq_add_of_le h
    rw [ancestor?_add, hj, Option.bind_some] at hi
    exact .inl (within_iff_ancestor?.2 ⟨k, hi⟩)

/-- A node within `a` other than `a` has a parent within `a`. -/
theorem Within.exists_parent {d : Document} {a n : NodeId} (h : Within d a n) (hn : n ≠ a) :
    ∃ p, d.parent? n = some p ∧ Within d a p := by
  rcases h with rfl | h
  · exact absurd rfl hn
  · cases h with
    | child hp => exact ⟨a, hp, within_self d a⟩
    | step hp up => exact ⟨_, hp, .inr up⟩

theorem Below.exists_parent {d : Document} {a n : NodeId} (h : Below d a n) :
    ∃ p, d.parent? n = some p := by
  cases h with
  | child hp => exact ⟨_, hp⟩
  | step hp _ => exact ⟨_, hp⟩

/-- Below a node is within one of its children. -/
theorem Below.exists_child {d : Document} {a n : NodeId} (h : Below d a n) :
    ∃ c, d.parent? c = some a ∧ Within d c n := by
  induction h with
  | child hp => exact ⟨_, hp, within_self d _⟩
  | step hp _ ih =>
    obtain ⟨c, hc, hw⟩ := ih
    exact ⟨c, hc, hw.trans (.inr (.child hp))⟩

theorem within_of_parent? {d : Document} {a n p : NodeId} (hp : d.parent? n = some p)
    (h : Within d a p) : Within d a n := by
  rcases h with rfl | h
  · exact .inr (.child hp)
  · exact .inr (.step hp h)

/-- Whether a node is below another depends on parents only. -/
theorem Below.mono {d e : Document} {a n : NodeId}
    (hpar : ∀ m p, d.parent? m = some p → e.parent? m = some p) (h : Below d a n) :
    Below e a n := by
  induction h with
  | child h => exact .child (hpar _ _ h)
  | step h _ ih => exact .step (hpar _ _ h) ih

theorem Within.mono {d e : Document} {a n : NodeId}
    (hpar : ∀ m p, d.parent? m = some p → e.parent? m = some p) (h : Within d a n) :
    Within e a n := by
  rcases h with rfl | h
  · exact within_self e n
  · exact .inr (h.mono hpar)

/-! ## Links -/

/-- `WellFormed` apart from the root. -/
structure Linked (d : Document) : Prop where
  parent_iff_child : ∀ p c, d.parent? c = some p ↔ c ∈ d.children p
  children_nodup : ∀ p, (d.children p).Nodup
  isElement_of_child : ∀ p c, c ∈ d.children p → d.isElement p = true
  acyclic : ∀ n, ¬ Below d n n

theorem WellFormed.linked {d : Document} (h : d.WellFormed) : d.Linked where
  parent_iff_child := h.parent_iff_child
  children_nodup := h.children_nodup
  isElement_of_child := h.isElement_of_child
  acyclic := h.acyclic

theorem Linked.wellFormed {d : Document} (h : d.Linked) (hroot : d.isElement d.root = true)
    (hparent : d.parent? d.root = none) : d.WellFormed where
  root_isElement := hroot
  root_parent := hparent
  parent_iff_child := h.parent_iff_child
  children_nodup := h.children_nodup
  isElement_of_child := h.isElement_of_child
  acyclic := h.acyclic

namespace Linked

variable {d : Document} (hd : d.Linked)

include hd

theorem parent_isElement {n p : NodeId} (h : d.parent? n = some p) : d.isElement p = true :=
  hd.isElement_of_child p n ((hd.parent_iff_child p n).1 h)

theorem parent_lt_size {n p : NodeId} (h : d.parent? n = some p) : p < d.size :=
  lt_size_of_isElement (hd.parent_isElement h)

theorem child_lt_size {p c : NodeId} (h : c ∈ d.children p) : c < d.size :=
  lt_size_of_parent? ((hd.parent_iff_child p c).2 h)

theorem below_lt_size {a n : NodeId} (h : Below d a n) : a < d.size := by
  induction h with
  | child h => exact hd.parent_lt_size h
  | step _ _ ih => exact ih

/-- The nodes on a way up are distinct. -/
theorem ancestor?_injective {n : NodeId} {i j : Nat} {a : NodeId}
    (hi : d.ancestor? i n = some a) (hj : d.ancestor? j n = some a) : i = j := by
  by_contra hne
  wlog hlt : i < j generalizing i j
  · exact this hj hi (Ne.symm hne) (by omega)
  obtain ⟨k, rfl⟩ : ∃ k, j = i + (k + 1) := ⟨j - i - 1, by omega⟩
  rw [ancestor?_add, hi, Option.bind_some] at hj
  exact hd.acyclic a (below_iff_ancestor?.2 ⟨k, hj⟩)

/-- A way up of one step or more has fewer steps than the arena has nodes. -/
theorem lt_size_of_ancestor?_succ {n a : NodeId} {k : Nat}
    (h : d.ancestor? (k + 1) n = some a) : k + 1 < d.size := by
  have hsome : ∀ i : Fin (k + 2), ∃ b, d.ancestor? i n = some b ∧ b < d.size := by
    intro i
    obtain ⟨j, hj⟩ : ∃ j, k + 1 = i + j := ⟨k + 1 - i, by omega⟩
    rw [hj, ancestor?_add] at h
    obtain ⟨b, hb, hrest⟩ := Option.bind_eq_some_iff.1 h
    refine ⟨b, hb, ?_⟩
    cases j with
    | zero =>
      cases hrest
      exact hd.below_lt_size (below_iff_ancestor?.2 ⟨k, by rw [hj]; exact hb⟩)
    | succ j =>
      obtain ⟨p, hp, -⟩ := Option.bind_eq_some_iff.1 hrest
      exact lt_size_of_parent? hp
  choose f hf hlt using hsome
  have hinj : Function.Injective (fun i : Fin (k + 2) => (⟨f i, hlt i⟩ : Fin d.size)) := by
    intro i j hij
    have hfij : f i = f j := congrArg Fin.val hij
    exact Fin.ext (hd.ancestor?_injective (hf i) (by rw [hf j, hfij]))
  have hcard := Fintype.card_le_of_injective _ hinj
  simp only [Fintype.card_fin] at hcard
  omega

end Linked

namespace WellFormed

variable {d : Document} (hd : d.WellFormed)

include hd

theorem root_lt_size : d.root < d.size := lt_size_of_isElement hd.root_isElement

theorem lt_size_of_within_root {n : NodeId} (h : Within d d.root n) : n < d.size := by
  rcases h with rfl | h
  · exact hd.root_lt_size
  · obtain ⟨p, hp⟩ := h.exists_parent
    exact lt_size_of_parent? hp

/-- Every way up has fewer steps than the arena has nodes. -/
theorem lt_size_of_ancestor? {n a : NodeId} {k : Nat} (h : d.ancestor? k n = some a) :
    k < d.size := by
  cases k with
  | zero => exact Nat.lt_of_le_of_lt (Nat.zero_le _) hd.root_lt_size
  | succ k => exact hd.linked.lt_size_of_ancestor?_succ h

end WellFormed

end Document

end LabelTemplate.Xml
