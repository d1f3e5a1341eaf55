import LabelTemplate.Proofs.Arena.Moves
import LabelTemplate.Proofs.XPath.Attached

/-!
# Parents, children and siblings

Upwards an axis follows links to parents, with the document node above the
root and an element above its attributes and text.  Downwards it follows lists
of children, with the text of an element in front.  For the nodes that can be
reached from the document node (`Reachable`) and are no attributes, both ways
say the same: `mem_childNodes_iff`.  `Reachable.byKind` splits these nodes by
what they are, elements and comments together, since both are stored in lists
of children.

`nodeAbove?` counts the way up.  The ancestors of a node are the nodes so many
steps above it (`getElem?_nodesAbove`), the descendants those that it is so
many steps above of (`mem_nodesBelow_iff`), within the same number of levels.
A way up from a node of the tree ends at the document node within the levels
that the axes look through (`exists_nodeAbove?_eq_document`), so they look
through all of them.

The sibling axes go by the children of an element as they are stored, and so
pass over its text (`children_around`).
-/

namespace LabelTemplate.XPath

open Xml Document

variable {d : Document} {key : DocKey}

/-! ## Reachable nodes -/

def NodeRef.isAttribute : NodeRef → Bool
  | .attribute _ _ => true
  | _ => false

def NodeRef.isText : NodeRef → Bool
  | .text _ => true
  | _ => false

/-- Children and attributes lead from the document node to this node. -/
inductive Reachable (d : Document) (key : DocKey) : Handle → Prop where
  | document : Reachable d key ⟨key, .document⟩
  | child {p c : Handle} (hp : Reachable d key p) (hc : c ∈ axisNodes d p .child) :
      Reachable d key c
  | attr {e a : Handle} (he : Reachable d key e) (ha : a ∈ axisNodes d e .attribute) :
      Reachable d key a

/-- The node is in the tree, and its attribute or its text is there. -/
def NodeRef.IsPresent (d : Document) : NodeRef → Prop
  | .document => True
  | .element id => d.InTree id
  | .attribute id i => d.InTree id ∧ i < (d.attributes id).length
  | .text id => d.InTree id ∧ (d.text? id).any (!·.isEmpty) = true
  | .comment id => Within d d.root id ∧ d.isComment id = true

theorem NodeRef.IsPresent.isIn {a : NodeRef} (h : a.IsPresent d) : a.IsIn d :=
  match a, h with
  | .document, _ => trivial
  | .element _, h => h
  | .attribute _ _, h | .text _, h => h.1
  | .comment _, h => h

theorem treeNode_of_isElement {n : NodeId} (h : d.isElement n = true) :
    treeNode d key n = ⟨key, .element n⟩ := by
  simp [treeNode, isComment_of_isElement h]

theorem treeNode_of_isComment {n : NodeId} (h : d.isComment n = true) :
    treeNode d key n = ⟨key, .comment n⟩ := by
  simp [treeNode, h]

theorem parentNode?_treeNode (n : NodeId) : parentNode? d (treeNode d key n) =
    if n = d.root then some ⟨key, .document⟩ else (d.parent? n).map fun p => ⟨key, .element p⟩ := by
  unfold treeNode
  split <;> rfl

/-- Only the document node and elements are parents. -/
theorem kind_of_parentNode? {p c : Handle} (hp : parentNode? d c = some p) :
    p.node = .document ∨ ∃ q, p.node = .element q := by
  have hup : ∀ {doc : DocKey} {id : NodeId}, (if id = d.root then some (⟨doc, .document⟩ : Handle)
      else (d.parent? id).map fun q => ⟨doc, .element q⟩) = some p →
      p.node = .document ∨ ∃ q, p.node = .element q := by
    intro doc id h
    split at h
    · cases h
      exact .inl rfl
    · obtain ⟨q, -, rfl⟩ := Option.map_eq_some_iff.1 h
      exact .inr ⟨q, rfl⟩
  obtain ⟨doc, node⟩ := c
  match node, hp with
  | .element _, hp | .comment _, hp => exact hup hp
  | .attribute id _, hp | .text id, hp =>
    cases hp
    exact .inr ⟨id, rfl⟩

theorem mem_childNodes_element {id : NodeId} {c : Handle} :
    c ∈ childNodes d ⟨key, .element id⟩ ↔
      (c = ⟨key, .text id⟩ ∧ (d.text? id).any (!·.isEmpty) = true) ∨
        ∃ n ∈ d.children id, c = treeNode d key n := by
  simp only [childNodes, List.mem_append, List.mem_map]
  refine or_congr ?_ (exists_congr fun n => and_congr_right fun _ => eq_comm)
  split
  · simp [*]
  · simp [*]

theorem mem_attributeNodes {id : NodeId} {a : Handle} :
    a ∈ attributeNodes d ⟨key, .element id⟩ ↔
      ∃ i < (d.attributes id).length, a = ⟨key, .attribute id i⟩ := by
  simp [attributeNodes, eq_comm]

section WellFormed

variable (hd : d.WellFormed)

include hd

theorem isPresent_treeNode {n : NodeId} (hn : Within d d.root n) :
    (treeNode d key n).node.IsPresent d := by
  cases hcomment : d.isComment n with
  | true =>
    rw [treeNode_of_isComment hcomment]
    exact ⟨hn, hcomment⟩
  | false =>
    have helement := isElement_of_isComment_eq_false (hd.lt_size_of_within_root hn) hcomment
    rw [treeNode_of_isElement helement]
    exact ⟨hn, helement⟩

theorem isPresent_of_mem_childNodes {p c : Handle} (hp : p.node.IsPresent d)
    (hc : c ∈ childNodes d p) : c.doc = p.doc ∧ c.node.IsPresent d := by
  obtain ⟨key, node⟩ := p
  cases node with
  | document =>
    obtain rfl := List.mem_singleton.1 hc
    exact ⟨rfl, hd.inTree_root⟩
  | element id =>
    obtain ⟨rfl, htext⟩ | ⟨n, hn, rfl⟩ := mem_childNodes_element.1 hc
    · exact ⟨rfl, hp, htext⟩
    · have hparent : d.parent? n = some id := (hd.parent_iff_child id n).2 hn
      exact ⟨rfl, isPresent_treeNode hd (within_of_parent? hparent hp.1)⟩
  | _ => cases hc

/-- Every element and comment that hangs below the root can be reached. -/
theorem reachable_treeNode {n : NodeId} (hn : Within d d.root n) :
    Reachable d key (treeNode d key n) := by
  have hroot : Reachable d key (treeNode d key d.root) := by
    rw [treeNode_of_isElement hd.root_isElement]
    exact .child .document (List.mem_singleton.2 rfl)
  have hstep : ∀ {p m : NodeId}, d.parent? m = some p → Reachable d key (treeNode d key p) →
      Reachable d key (treeNode d key m) := by
    intro p m hm hp
    rw [treeNode_of_isElement (hd.linked.parent_isElement hm)] at hp
    exact .child hp (mem_childNodes_element.2 (.inr ⟨m, (hd.parent_iff_child p m).1 hm, rfl⟩))
  rcases hn with rfl | hn
  · exact hroot
  induction hn with
  | child h => exact hstep h hroot
  | step h _ ih => exact hstep h ih

theorem reachable_element {id : NodeId} (h : d.InTree id) :
    Reachable d key ⟨key, .element id⟩ := by
  rw [← treeNode_of_isElement h.2]
  exact reachable_treeNode hd h.1

/-- What can be reached are the document node and the elements, attributes,
texts that are not empty, and comments of the tree. -/
theorem reachable_iff {h : Handle} : Reachable d key h ↔ h.doc = key ∧ h.node.IsPresent d := by
  constructor
  · intro hr
    induction hr with
    | document => exact ⟨rfl, trivial⟩
    | child _ hc ih =>
      obtain ⟨hdoc, hpresent⟩ := isPresent_of_mem_childNodes hd ih.2 hc
      exact ⟨hdoc.trans ih.1, hpresent⟩
    | @attr e a _ ha ih =>
      obtain ⟨doc, node⟩ := e
      obtain ⟨rfl, hin⟩ := ih
      cases node with
      | element id =>
        obtain ⟨i, hi, rfl⟩ := mem_attributeNodes.1 ha
        exact ⟨rfl, hin, hi⟩
      | _ => cases ha
  · obtain ⟨doc, node⟩ := h
    rintro ⟨rfl, hin⟩
    match node, hin with
    | .document, _ => exact .document
    | .element id, hin => exact reachable_element hd hin
    | .attribute id i, hin =>
      exact .attr (reachable_element hd hin.1) (mem_attributeNodes.2 ⟨i, hin.2, rfl⟩)
    | .text id, hin =>
      exact .child (reachable_element hd hin.1) (mem_childNodes_element.2 (.inl ⟨rfl, hin.2⟩))
    | .comment id, hin =>
      rw [← treeNode_of_isComment hin.2]
      exact reachable_treeNode hd hin.1

/-- A reachable node is the document node, an element or a comment, an
attribute or a text. -/
theorem Reachable.byKind {motive : (h : Handle) → Reachable d key h → Prop}
    (document : motive ⟨key, .document⟩ .document)
    (tree : ∀ n, Within d d.root n → ∀ hr, motive (treeNode d key n) hr)
    (attr : ∀ id i, d.InTree id → ∀ hr, motive ⟨key, .attribute id i⟩ hr)
    (text : ∀ id, d.InTree id → (d.text? id).any (!·.isEmpty) = true →
      ∀ hr, motive ⟨key, .text id⟩ hr)
    {h : Handle} (hr : Reachable d key h) : motive h hr := by
  obtain ⟨rfl, hin⟩ := (reachable_iff hd).1 hr
  obtain ⟨doc, node⟩ := h
  match node, hin, hr with
  | .document, _, _ => exact document
  | .element id, hin, hr =>
    have helement := tree id hin.1
    rw [treeNode_of_isElement hin.2] at helement
    exact helement hr
  | .comment id, hin, hr =>
    have hcomment := tree id hin.1
    rw [treeNode_of_isComment hin.2] at hcomment
    exact hcomment hr
  | .attribute id i, hin, hr => exact attr id i hin.1 hr
  | .text id, hin, hr => exact text id hin.1 hin.2 hr

/-! ## Parents and children -/

theorem treeNode_mem_childNodes {n : NodeId} {p : Handle}
    (hp : parentNode? d (treeNode d key n) = some p) : treeNode d key n ∈ childNodes d p := by
  rw [parentNode?_treeNode] at hp
  split at hp
  · cases hp
    subst n
    rw [treeNode_of_isElement hd.root_isElement]
    exact List.mem_singleton.2 rfl
  · obtain ⟨q, hq, rfl⟩ := Option.map_eq_some_iff.1 hp
    exact mem_childNodes_element.2 (.inr ⟨n, (hd.parent_iff_child q n).1 hq, rfl⟩)

/-- The way back from a child. -/
theorem parentNode?_of_mem_childNodes {p c : Handle} (hc : c ∈ childNodes d p) :
    parentNode? d c = some p := by
  obtain ⟨key, node⟩ := p
  cases node with
  | document =>
    obtain rfl := List.mem_singleton.1 hc
    simp [parentNode?]
  | element id =>
    obtain ⟨rfl, -⟩ | ⟨n, hn, rfl⟩ := mem_childNodes_element.1 hc
    · rfl
    · have hparent : d.parent? n = some id := (hd.parent_iff_child id n).2 hn
      have hne : n ≠ d.root := by
        rintro rfl
        rw [hd.root_parent] at hparent
        cases hparent
      rw [parentNode?_treeNode, if_neg hne, hparent, Option.map_some]
  | _ => cases hc

theorem mem_childNodes_of_parentNode? {p c : Handle} (hc : Reachable d key c)
    (hattribute : c.node.isAttribute = false) (hp : parentNode? d c = some p) :
    c ∈ childNodes d p := by
  cases hc using Reachable.byKind hd with
  | document => cases hp
  | tree n _ _ => exact treeNode_mem_childNodes hd hp
  | attr => cases hattribute
  | text id _ htext _ =>
    cases hp
    exact mem_childNodes_element.2 (.inl ⟨rfl, htext⟩)

/-- Children are the nodes with this parent, attributes apart. -/
theorem mem_childNodes_iff {p c : Handle} (hc : Reachable d key c)
    (hattribute : c.node.isAttribute = false) :
    c ∈ childNodes d p ↔ parentNode? d c = some p :=
  ⟨parentNode?_of_mem_childNodes hd, mem_childNodes_of_parentNode? hd hc hattribute⟩

/-- The parent of a node can be reached, and is no attribute. -/
theorem reachable_parentNode {p c : Handle} (hc : Reachable d key c)
    (hp : parentNode? d c = some p) : Reachable d key p ∧ p.node.isAttribute = false := by
  obtain ⟨hkey, hin⟩ := (reachable_iff hd).1 hc
  obtain ⟨hdoc, hparent⟩ := isIn_parentNode hd hkey hin.isIn hp
  rw [reachable_iff hd]
  obtain h | ⟨q, h⟩ := kind_of_parentNode? hp <;> rw [h] at hparent ⊢
  · exact ⟨⟨hdoc, trivial⟩, rfl⟩
  · exact ⟨⟨hdoc, hparent⟩, rfl⟩

end WellFormed

/-! ## Ways up -/

/-- The node `k` parents above a node, the node itself for `k = 0`. -/
def nodeAbove? (d : Document) : (k : Nat) → Handle → Option Handle
  | 0, h => some h
  | k + 1, h => (parentNode? d h).bind (nodeAbove? d k)

theorem nodeAbove?_succ (k : Nat) (h : Handle) :
    nodeAbove? d (k + 1) h = (parentNode? d h).bind (nodeAbove? d k) := rfl

/-- The last step of a way up. -/
theorem nodeAbove?_succ' (k : Nat) (h : Handle) :
    nodeAbove? d (k + 1) h = (nodeAbove? d k h).bind (parentNode? d) := by
  induction k generalizing h with
  | zero => simp [nodeAbove?]
  | succ k ih =>
    rw [nodeAbove?_succ, nodeAbove?_succ, Option.bind_assoc]
    exact Option.bind_congr fun p _ => ih p

/-- The ancestors of a node are the nodes above it, nearest first. -/
theorem getElem?_nodesAbove (fuel i : Nat) (h : Handle) :
    (nodesAbove d fuel h)[i]? = if i < fuel then nodeAbove? d (i + 1) h else none := by
  induction fuel generalizing h i with
  | zero => simp [nodesAbove]
  | succ fuel ih =>
    rw [nodesAbove, nodeAbove?_succ]
    cases parentNode? d h with
    | none => simp
    | some p =>
      cases i with
      | zero => simp [nodeAbove?]
      | succ i => simp [ih]

theorem mem_nodesAbove_iff {fuel : Nat} {h p : Handle} :
    p ∈ nodesAbove d fuel h ↔ ∃ k < fuel, nodeAbove? d (k + 1) h = some p := by
  simp [List.mem_iff_getElem?, getElem?_nodesAbove]

/-- Each node is followed by its parent. -/
theorem isChain_nodesAbove (fuel : Nat) (h : Handle) :
    (h :: nodesAbove d fuel h).IsChain fun a b => parentNode? d a = some b := by
  induction fuel generalizing h with
  | zero => exact .singleton h
  | succ fuel ih =>
    rw [nodesAbove]
    split
    · exact List.isChain_cons_cons.2 ⟨‹_›, ih _⟩
    · exact .singleton h

/-- Enough fuel for a way up reaches its end. -/
theorem getLast?_nodesAbove {k fuel : Nat} {h top : Handle} (htop : parentNode? d top = none)
    (hk : nodeAbove? d k h = some top) (hfuel : k ≤ fuel) :
    (h :: nodesAbove d fuel h).getLast? = some top := by
  induction k generalizing fuel h with
  | zero =>
    cases hk
    cases fuel with
    | zero => rfl
    | succ fuel => simp [nodesAbove, htop]
  | succ k ih =>
    obtain ⟨p, hp, hk⟩ := Option.bind_eq_some_iff.1 hk
    obtain ⟨fuel, rfl⟩ : ∃ m, fuel = m + 1 := ⟨fuel - 1, by omega⟩
    rw [nodesAbove, hp, List.getLast?_cons_cons]
    exact ih hk (by omega)

section WellFormed

variable (hd : d.WellFormed)

include hd

theorem reachable_of_nodeAbove? {k : Nat} {h p : Handle} (hh : Reachable d key h)
    (hattribute : h.node.isAttribute = false) (hk : nodeAbove? d k h = some p) :
    Reachable d key p ∧ p.node.isAttribute = false := by
  induction k generalizing h with
  | zero =>
    cases hk
    exact ⟨hh, hattribute⟩
  | succ k ih =>
    obtain ⟨q, hq, hk⟩ := Option.bind_eq_some_iff.1 hk
    obtain ⟨hreach, hkind⟩ := reachable_parentNode hd hh hq
    exact ih hreach hkind hk

/-- The descendants of a node are those that it is above of. -/
theorem mem_nodesBelow_iff {fuel : Nat} {h c : Handle} (hc : Reachable d key c)
    (hattribute : c.node.isAttribute = false) :
    c ∈ nodesBelow d fuel h ↔ ∃ k < fuel, nodeAbove? d (k + 1) c = some h := by
  induction fuel generalizing h with
  | zero => simp [nodesBelow]
  | succ fuel ih =>
    simp only [nodesBelow, List.mem_flatMap, List.mem_cons, ih]
    constructor
    · rintro ⟨b, hb, rfl | ⟨k, hk, hkb⟩⟩
      · exact ⟨0, by omega, by simp [nodeAbove?, parentNode?_of_mem_childNodes hd hb]⟩
      · refine ⟨k + 1, by omega, ?_⟩
        rw [nodeAbove?_succ', hkb, Option.bind_some, parentNode?_of_mem_childNodes hd hb]
    · rintro ⟨k, hk, hkh⟩
      cases k with
      | zero =>
        have hp : parentNode? d c = some h := by simpa [nodeAbove?] using hkh
        exact ⟨c, mem_childNodes_of_parentNode? hd hc hattribute hp, .inl rfl⟩
      | succ k =>
        rw [nodeAbove?_succ'] at hkh
        obtain ⟨b, hb, hp⟩ := Option.bind_eq_some_iff.1 hkh
        obtain ⟨hreach, hkind⟩ := reachable_of_nodeAbove? hd hc hattribute hb
        exact ⟨b, mem_childNodes_of_parentNode? hd hreach hkind hp, .inr ⟨k, by omega, hb⟩⟩

/-- The way up from an element or a comment goes one step beyond the root. -/
theorem nodeAbove?_treeNode {n : NodeId} {k : Nat} (hk : d.ancestor? k n = some d.root) :
    nodeAbove? d (k + 1) (treeNode d key n) = some ⟨key, .document⟩ := by
  induction k generalizing n with
  | zero =>
    cases hk
    simp [nodeAbove?, parentNode?_treeNode]
  | succ k ih =>
    obtain ⟨p, hp, hk⟩ := Option.bind_eq_some_iff.1 hk
    have hne : n ≠ d.root := by
      rintro rfl
      rw [hd.root_parent] at hp
      cases hp
    rw [nodeAbove?_succ, parentNode?_treeNode, if_neg hne, hp, Option.map_some, Option.bind_some,
      ← treeNode_of_isElement (hd.linked.parent_isElement hp)]
    exact ih hk

/-- Every way up ends at the document node, within the levels of a
document. -/
theorem exists_nodeAbove?_eq_document {h : Handle} (hh : Reachable d key h) :
    ∃ k ≤ levels d, nodeAbove? d k h = some ⟨key, .document⟩ := by
  have htree : ∀ {id : NodeId}, Within d d.root id →
      ∃ k < d.size, nodeAbove? d (k + 1) (treeNode d key id) = some ⟨key, .document⟩ := by
    intro id hid
    obtain ⟨k, hk⟩ := within_iff_ancestor?.1 hid
    exact ⟨k, hd.lt_size_of_ancestor? hk, nodeAbove?_treeNode hd hk⟩
  -- an attribute and a text are one level further down than their element
  have hbeside : ∀ {c : Handle} {id : NodeId}, d.InTree id →
      parentNode? d c = some ⟨key, .element id⟩ →
      ∃ k ≤ levels d, nodeAbove? d k c = some ⟨key, .document⟩ := by
    intro c id hid hc
    obtain ⟨k, hk, hup⟩ := htree hid.1
    refine ⟨k + 2, by unfold levels; omega, ?_⟩
    rw [nodeAbove?_succ, hc, Option.bind_some, ← treeNode_of_isElement hid.2]
    exact hup
  cases hh using Reachable.byKind hd with
  | document => exact ⟨0, Nat.zero_le _, rfl⟩
  | tree n hn _ =>
    obtain ⟨k, hk, hup⟩ := htree hn
    exact ⟨k + 1, by unfold levels; omega, hup⟩
  | attr _ _ hid _ => exact hbeside hid rfl
  | text _ hid _ _ => exact hbeside hid rfl

/-- The descendant axis is the converse of the ancestor axis, and the child
axis that of the parent axis, attributes apart.  On the ancestor axis each node
is followed by its parent, up to the document node. -/
theorem axes_converse {x y : Handle} (hy : Reachable d key y) :
    (y.node.isAttribute = false →
      (y ∈ axisNodes d x .descendant ↔ x ∈ axisNodes d y .ancestor) ∧
      (y ∈ axisNodes d x .child ↔ x ∈ axisNodes d y .parent)) ∧
    (y :: axisNodes d y .ancestor).IsChain (fun a b => parentNode? d a = some b) ∧
    (y :: axisNodes d y .ancestor).getLast? = some ⟨key, .document⟩ := by
  refine ⟨fun hattribute => ⟨?descendants, ?children⟩, isChain_nodesAbove _ y, ?top⟩
  case descendants =>
    exact (mem_nodesBelow_iff hd hy hattribute).trans mem_nodesAbove_iff.symm
  case children =>
    exact (mem_childNodes_iff hd hy hattribute).trans Option.mem_toList.symm
  case top =>
    obtain ⟨k, hk, hup⟩ := exists_nodeAbove?_eq_document hd hy
    exact getLast?_nodesAbove rfl hup hk

end WellFormed

/-- `<a>t<b/><!--c--><b/></a>` -/
def mixed : Document :=
  .ofTree [] { name := .plain "a", text := some "t" } none
    (.node (.element { name := .plain "b" }) none .nil
      (.node (.comment "c") none .nil (.node (.element { name := .plain "b" }) none .nil .nil)))

theorem mixed_wellFormed : mixed.WellFormed :=
  wellFormed_ofTree (by simp [Forest.Proper, NodeKind.isElement, NodeKind.element?]) _

theorem reachable_mixed_last : Reachable mixed 0 ⟨0, .element 3⟩ :=
  .child (.child .document (by decide +kernel : _ ∈ axisNodes mixed ⟨0, .document⟩ .child))
    (by decide +kernel : _ ∈ axisNodes mixed ⟨0, .element 0⟩ .child)

theorem axes_converse_mixed :
    Reachable mixed 0 ⟨0, .text 0⟩ ∧
      axisNodes mixed ⟨0, .text 0⟩ .ancestor = [⟨0, .element 0⟩, ⟨0, .document⟩] ∧
      ⟨0, .text 0⟩ ∈ axisNodes mixed ⟨0, .document⟩ .descendant ∧
      ⟨0, .text 0⟩ ∉ axisNodes mixed ⟨0, .element 1⟩ .descendant ∧
      ⟨0, .text 0⟩ ∈ axisNodes mixed ⟨0, .element 0⟩ .child := by
  have hreach : Reachable mixed 0 ⟨0, .text 0⟩ :=
    .child (.child .document (by decide +kernel : _ ∈ axisNodes mixed ⟨0, .document⟩ .child))
      (by decide +kernel : _ ∈ axisNodes mixed ⟨0, .element 0⟩ .child)
  have hconverse := fun x => (axes_converse mixed_wellFormed (x := x) hreach).1 rfl
  have hup : axisNodes mixed ⟨0, .text 0⟩ .ancestor = [⟨0, .element 0⟩, ⟨0, .document⟩] := by
    decide +kernel
  refine ⟨hreach, hup, ?_, ?_, ?_⟩
  · rw [(hconverse _).1, hup]
    decide
  · rw [(hconverse _).1, hup]
    decide
  · rw [(hconverse _).2]
    decide +kernel

/-! ## Siblings -/

/-- A node between its siblings, as the sibling axes give them. -/
def amongSiblings (d : Document) (x : Handle) : List Handle :=
  (axisNodes d x .precedingSibling).reverse ++ x :: axisNodes d x .followingSibling

/-- The texts on the child axis. -/
def childTexts (d : Document) (p : Handle) : List Handle :=
  (axisNodes d p .child).filter (·.node.isText)

theorem isText_treeNode (n : NodeId) : (treeNode d key n).node.isText = false := by
  unfold treeNode
  split <;> rfl

/-- The text of an element stands in front of its stored children. -/
theorem childNodes_element (d : Document) (key : DocKey) (id : NodeId) :
    axisNodes d ⟨key, .element id⟩ .child =
      childTexts d ⟨key, .element id⟩ ++ (d.children id).map (treeNode d key) := by
  have hnone : ((d.children id).map (treeNode d key)).filter (·.node.isText) = [] := by
    simp [List.filter_eq_nil_iff, isText_treeNode]
  rw [childTexts]
  simp only [axisNodes, childNodes, List.filter_append, hnone, List.append_nil]
  split <;> rfl

theorem siblings_treeNode_of_loose {n : NodeId} (hp : d.parent? n = none) (following : Bool) :
    siblings d (treeNode d key n) following = [] := by
  unfold treeNode
  split <;> simp [siblings, hp]

theorem siblings_treeNode {n p : NodeId} {before after : List NodeId} (hp : d.parent? n = some p)
    (hsplit : d.children p = before ++ n :: after) (hn : n ∉ before) (following : Bool) :
    siblings d (treeNode d key n) following =
      (if following then after else before.reverse).map (treeNode d key) := by
  have hkind : treeNode d key n = ⟨key, .element n⟩ ∨ treeNode d key n = ⟨key, .comment n⟩ := by
    unfold treeNode
    split
    · exact .inr rfl
    · exact .inl rfl
  rcases hkind with h | h <;> rw [h] <;>
    simp [siblings, hp, indexInParent?_eq hp hsplit hn, hsplit]

/-- The siblings of a stored child are the other stored children. -/
theorem amongSiblings_treeNode (hd : d.WellFormed) {n p : NodeId} (hp : d.parent? n = some p) :
    amongSiblings d (treeNode d key n) = (d.children p).map (treeNode d key) := by
  obtain ⟨before, after, hsplit, hn⟩ :=
    List.eq_append_cons_of_mem ((hd.parent_iff_child p n).1 hp)
  simp [amongSiblings, axisNodes, siblings_treeNode hp hsplit hn, hsplit]

/-- The child axis of the parent of an element or a comment. -/
theorem childNodes_eq_amongSiblings (hd : d.WellFormed) {n : NodeId} {p : Handle}
    (hp : parentNode? d (treeNode d key n) = some p) :
    axisNodes d p .child = childTexts d p ++ amongSiblings d (treeNode d key n) := by
  rw [parentNode?_treeNode] at hp
  split at hp
  · subst n
    cases hp
    have halone : amongSiblings d (treeNode d key d.root) = [treeNode d key d.root] := by
      simp [amongSiblings, axisNodes, siblings_treeNode_of_loose hd.root_parent]
    rw [halone, treeNode_of_isElement hd.root_isElement]
    simp [axisNodes, childTexts, childNodes, NodeRef.isText]
  · obtain ⟨q, hq, rfl⟩ := Option.map_eq_some_iff.1 hp
    rw [amongSiblings_treeNode hd hq, childNodes_element]

/-- How the children of a node stand around one of them.  Among its siblings an
element or a comment has all other children but the text, which stands in
front of them; a text has no siblings.  So a node and its siblings are the
children of its parent if none of these is a text, or if there is no other
child, and only then. -/
theorem children_around (hd : d.WellFormed) {x p : Handle} (hx : Reachable d key x)
    (hattribute : x.node.isAttribute = false) (hp : p ∈ axisNodes d x .parent) :
    (x.node.isText = true → amongSiblings d x = [x]) ∧
    (x.node.isText = false → axisNodes d p .child = childTexts d p ++ amongSiblings d x) ∧
    (axisNodes d p .child = amongSiblings d x ↔
      childTexts d p = [] ∨ axisNodes d p .child = [x]) := by
  have hparent : parentNode? d x = some p := Option.mem_toList.1 hp
  have hchild : x ∈ axisNodes d p .child :=
    mem_childNodes_of_parentNode? hd hx hattribute hparent
  cases htext : x.node.isText with
  | true =>
    have halone : amongSiblings d x = [x] := by
      obtain ⟨doc, node⟩ := x
      match node, htext with
      | .text _, _ => rfl
    have hmem : x ∈ childTexts d p := List.mem_filter.2 ⟨hchild, htext⟩
    rw [halone]
    simp [List.ne_nil_of_mem hmem]
  | false =>
    have hsplit : axisNodes d p .child = childTexts d p ++ amongSiblings d x := by
      cases hx using Reachable.byKind hd with
      | document => cases hparent
      | tree n _ _ => exact childNodes_eq_amongSiblings hd hparent
      | attr => cases hattribute
      | text => cases htext
    refine ⟨fun h => absurd h (by simp), fun _ => hsplit, ?_⟩
    have hlength := congrArg List.length hsplit
    constructor
    · intro h
      exact .inl (List.append_left_eq_self.1 (hsplit.symm.trans h))
    · rintro (h | h)
      · rw [hsplit, h, List.nil_append]
      · -- a node stands among its siblings itself
        have hnone : (childTexts d p).length = 0 := by
          simp only [h, amongSiblings, List.length_append, List.length_cons, List.length_nil]
            at hlength
          omega
        rw [hsplit, List.length_eq_zero_iff.1 hnone, List.nil_append]

/-- Between the two elements stand the text and the comment of their parent, of
which the sibling axes have the comment only. -/
theorem children_around_mixed :
    Reachable mixed 0 ⟨0, .element 3⟩ ∧
      amongSiblings mixed ⟨0, .element 3⟩ =
        [⟨0, .element 1⟩, ⟨0, .comment 2⟩, ⟨0, .element 3⟩] ∧
      axisNodes mixed ⟨0, .element 0⟩ .child =
        childTexts mixed ⟨0, .element 0⟩ ++ amongSiblings mixed ⟨0, .element 3⟩ ∧
      axisNodes mixed ⟨0, .element 0⟩ .child ≠ amongSiblings mixed ⟨0, .element 3⟩ := by
  obtain ⟨-, hsplit, hiff⟩ := children_around mixed_wellFormed (p := ⟨0, .element 0⟩)
    reachable_mixed_last rfl (by decide +kernel)
  refine ⟨reachable_mixed_last, by decide +kernel, hsplit rfl, fun h => ?_⟩
  exact absurd (hiff.1 h) (by decide +kernel)

end LabelTemplate.XPath
