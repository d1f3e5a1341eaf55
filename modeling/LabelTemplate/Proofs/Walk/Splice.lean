import LabelTemplate.Proofs.Arena.Moves
import LabelTemplate.Proofs.Arena.Path
import LabelTemplate.Proofs.Arena.Preorder
import LabelTemplate.Proofs.Walk.Copies
import LabelTemplate.Proofs.Walk.Trees

/-!
# Changes in the place of one child

A visit of the walk changes an element, what is below it and which children
stand in its place; it leaves all other nodes as they are.  `Frame out p d e`
says that the nodes in `out` are as they were, only that `p` may have other
children, and `Spliced d p before n after left e` that the nodes `left` stand
in `e` where `n` stood among the children of `p`.

What is spelled outside the changes stays spelled (`Frame.spells`), and the
path of `p` stays its path (`Frame.elementPath_eq`).
-/

namespace LabelTemplate.Xml.Document

/-! ## Frames -/

structure Frame (out : NodeId → Prop) (p : NodeId) (d e : Document) : Prop
    extends Keeps out d e where
  shell : ∀ m, m < d.size → out m → e.shell? m = d.shell? m
  children : ∀ m, m < d.size → out m → m ≠ p → e.children m = d.children m

namespace Frame

variable {out out' : NodeId → Prop} {p : NodeId} {d e f : Document}

theorem refl (out : NodeId → Prop) (p : NodeId) (d : Document) : Frame out p d d :=
  ⟨Keeps.refl out d, fun _ _ _ => rfl, fun _ _ _ _ => rfl⟩

/-- Changes one after the other leave alone what both leave alone. -/
theorem trans (h : Frame out p d e) (h' : Frame out' p e f)
    (hout : ∀ m, m < d.size → out m → out' m) : Frame out p d f where
  toKeeps := h.toKeeps.trans h'.toKeeps hout
  shell m hm ho :=
    (h'.shell m (Nat.lt_of_lt_of_le hm h.size_le) (hout m hm ho)).trans (h.shell m hm ho)
  children m hm ho hp :=
    (h'.children m (Nat.lt_of_lt_of_le hm h.size_le) (hout m hm ho) hp).trans
      (h.children m hm ho hp)

theorem mono (h : Frame out p d e) (hout : ∀ m, m < d.size → out' m → out m) :
    Frame out' p d e where
  toKeeps := h.toKeeps.mono hout
  shell m hm ho := h.shell m hm (hout m hm ho)
  children m hm ho hp := h.children m hm (hout m hm ho) hp

theorem kind? (h : Frame out p d e) {m : NodeId} (hm : m < d.size) (ho : out m) :
    e.kind? m = d.kind? m :=
  kind?_of_shell? (h.shell m hm ho)

theorem name? (h : Frame out p d e) {m : NodeId} (hm : m < d.size) (ho : out m) :
    e.name? m = d.name? m := by
  simp only [Document.name?, element?, h.kind? hm ho]

/-- A forest outside the changes is still spelled. -/
theorem spells (h : Frame out p d e) (hd : d.Linked) {ns : List NodeId} {g : Forest}
    (hg : Spells d ns g) (hns : ∀ n ∈ ns, ∀ m, Within d n m → out m ∧ m ≠ p) : Spells e ns g := by
  refine hg.of_shells hd fun n hn m hm x hx => ?_
  obtain ⟨ho, hp⟩ := hns n hn m hm
  have hlt : m < d.size := lt_size_of_node? hx
  exact ⟨h.shell m hlt ho, h.children m hlt ho hp⟩

/-- A node that was not there, or was not outside the changes, is not above
one that was. -/
theorem not_within (h : Frame out p d e) (hd : d.Linked)
    (hup : ∀ a m, Within d a m → out m → out a) {c : NodeId} (hc : c < d.size → ¬ out c)
    {m : NodeId} (hm : m < d.size) (ho : out m) : ¬ Within e c m := by
  intro hw
  rw [h.within_iff hd (fun m q ho hq => hup q m (.inr (.child hq)) ho) hm ho] at hw
  exact hc (hd.lt_size_of_within hw hm) (hup c m hw ho)

/-- A subtree that is outside the changes keeps its nodes. -/
theorem within_iff_of_above (h : Frame out p d e) (hd : d.Linked) (he : e.Linked) {a : NodeId}
    (ha : a < d.size) (hout : ∀ m, Within d a m → out m ∧ m ≠ p) (m : NodeId) :
    Within e a m ↔ Within d a m := by
  have hchild : ∀ {q c}, Within d a q → (e.parent? c = some q ↔ d.parent? c = some q) := by
    intro q c hq
    have hlt : q < d.size := by
      rcases hq with rfl | hq
      · exact ha
      · exact lt_size_of_parent? hq.exists_parent.choose_spec
    rw [hd.parent_iff_child, he.parent_iff_child, h.children q hlt (hout q hq).1 (hout q hq).2]
  constructor
  · rintro (rfl | hm)
    · exact within_self d m
    · induction hm with
      | child hp => exact within_of_parent? ((hchild (within_self d a)).1 hp) (within_self d a)
      | step hp _ ih => exact within_of_parent? ((hchild ih).1 hp) ih
  · rintro (rfl | hm)
    · exact within_self e m
    · induction hm with
      | child hp => exact within_of_parent? ((hchild (within_self d a)).2 hp) (within_self e a)
      | step hp hup ih => exact within_of_parent? ((hchild (.inr hup)).2 hp) ih

/-- The children of another node may have changed, as long as it is outside. -/
theorem of_children (h : Frame out p d e) (q : NodeId) (hout : ∀ m, out' m → out m ∧ m ≠ p) :
    Frame out' q d e where
  toKeeps := h.toKeeps.mono fun m _ ho => (hout m ho).1
  shell m hm ho := h.shell m hm (hout m ho).1
  children m hm ho _ := h.children m hm (hout m ho).1 (hout m ho).2

end Frame

/-! ## The changes of one step -/

theorem frame_updateElement (d : Document) (n p : NodeId) (f : Element → Element) :
    Frame (· ≠ n) p d (d.updateElement n f) where
  toKeeps := keeps_updateElement _ d n f
  shell _ _ ho := shell?_updateElement d ho f
  children _ _ _ _ := children_updateElement d n _ f

theorem frame_detach {d : Document} {n p : NodeId} (hp : d.parent? n = some p) :
    Frame (· ≠ n) p d (d.detach n) where
  toKeeps := keeps_detach d n
  shell m _ _ := shell?_detach d n m
  children m _ _ hm := by
    rw [children_detach, hp, if_neg fun h => hm (Option.some.inj h).symm]

theorem frame_insertChild {d : Document} {p c : NodeId} (i : Nat) (hp : p < d.size)
    (hc : c < d.size) (hfree : d.parent? c = none) :
    Frame (· ≠ c) p d (d.insertChild p i c) where
  toKeeps := keeps_insertChild d p i hc
  shell m _ _ := shell?_insertChild d p i c m
  children m _ _ hm := by
    rw [children_insertChild d i c m hp, if_neg hm, children_detach, hfree]
    simp

theorem frame_graft (d : Document) (p : NodeId) (f : Forest) :
    Frame (fun _ => True) p d (d.graft none f) where
  toKeeps := keeps_graft _ d f
  shell m hm _ := shell?_graft d f hm
  children m hm _ _ := by
    rw [children_graft (by simp) f hm]
    simp

/-! ## The paths of what is above -/

theorem isElement_of_below {d : Document} (hd : d.Linked) {a n : NodeId} (h : Below d a n) :
    d.isElement a = true := by
  induction h with
  | child h => exact hd.parent_isElement h
  | step _ _ ih => exact ih

/-- Changes that leave everything above `p` alone, and all siblings there,
leave the path of `p` as it was. -/
theorem Frame.path_eq {out : NodeId → Prop} {p : NodeId} {d e : Document} (h : Frame out p d e)
    (hd : d.WellFormed) (he : e.WellFormed) (hp : d.isElement p = true)
    (hatt : Within d d.root p) (hup : ∀ a, Within d a p → out a)
    (hnear : ∀ a, Below d a p → ∀ c ∈ d.children a, out c) :
    Within e e.root p ∧ e.elementPath p = d.elementPath p := by
  obtain ⟨k, hk⟩ := within_iff_ancestor?.1 hatt
  have hall : ∀ k m, Within d m p → d.ancestor? k m = some d.root →
      Within e e.root m ∧ e.elementPath m = d.elementPath m := by
    intro k
    induction k with
    | zero =>
      intro m _ hm
      obtain rfl : m = d.root := Option.some.inj hm
      rw [← h.root, elementPath_root, h.root, elementPath_root]
      exact ⟨within_self e _, rfl⟩
    | succ k ih =>
      intro m hw hm
      obtain ⟨a, ha, hroot⟩ := Option.bind_eq_some_iff.1 hm
      have hbelow : Below d a p := hw.below ha
      have hlt : m < d.size := lt_size_of_parent? ha
      have hea : e.parent? m = some a := by rw [h.parent m hlt (hup m hw), ha]
      obtain ⟨hatt', hpath⟩ := ih a (.inr hbelow) hroot
      have helem : d.isElement m = true := by
        rcases hw with rfl | hw
        · exact hp
        · exact isElement_of_below hd.linked hw
      obtain ⟨name, hname⟩ : ∃ name, d.name? m = some name :=
        Option.isSome_iff_exists.1 (by rw [name?_isSome, helem])
      have hnear' : e.children a = d.children a :=
        h.children a (hd.linked.parent_lt_size ha) (hup a (.inr hbelow)) fun hap =>
          hd.acyclic p (hap ▸ hbelow)
      have hsame : ∀ c ∈ d.children a, e.isElement c = d.isElement c ∧ e.name? c = d.name? c :=
        fun c hc => by
          have hlt := hd.linked.child_lt_size hc
          exact ⟨h.isElement c hlt, h.name? hlt (hnear a hbelow c hc)⟩
      have hnamed : e.childrenNamed a name.namespaceUri name.localName =
          d.childrenNamed a name.namespaceUri name.localName := by
        simp only [childrenNamed, elementChildren, hnear', List.filter_filter]
        refine List.filter_congr fun c hc => ?_
        rw [(hsame c hc).1, (hsame c hc).2]
      refine ⟨within_of_parent? hea hatt', ?_⟩
      rw [he.elementPath_child hea (by rw [h.name? hlt (hup m hw), hname]) hatt',
        hd.elementPath_child ha hname (within_iff_ancestor?.2 ⟨k, hroot⟩), hpath]
      simp only [segmentOf, hnamed]
  exact hall k p (within_self d p) hk

/-! ## Siblings of one name -/

/-- True for the elements with the expanded name of `name`. -/
def isNamed (d : Document) (name : QName) (n : NodeId) : Bool :=
  (d.name? n).any (·.hasName name.namespaceUri name.localName)

/-- How many of some nodes are elements with the expanded name of `name`. -/
def named (d : Document) (name : QName) (ns : List NodeId) : Nat := ns.countP (d.isNamed name)

@[simp] theorem named_append (d : Document) (name : QName) (ns ms : List NodeId) :
    d.named name (ns ++ ms) = d.named name ns + d.named name ms :=
  List.countP_append

theorem Spells.named_eq {d : Document} {ns : List NodeId} {f : Forest} (hf : Spells d ns f)
    (name : QName) : d.named name ns = f.named name := by
  induction hf with
  | nil => rfl
  | @node n ns x kids rest hx _ _ _ ih =>
    have hname : d.isNamed name n =
        x.kind.element?.any (·.name.hasName name.namespaceUri name.localName) := by
      simp only [isNamed, Document.name?, element?, kind?_of_node? hx, Option.bind_some,
        Option.any_map]
    rw [named, List.countP_cons, ← named, ih, Forest.named, hname, Nat.add_comm]

theorem Frame.named_eq {out : NodeId → Prop} {p : NodeId} {d e : Document} (h : Frame out p d e)
    (name : QName) {ns : List NodeId} (hns : ∀ n ∈ ns, n < d.size ∧ out n) :
    e.named name ns = d.named name ns := by
  refine List.countP_congr fun n hn => ?_
  rw [isNamed, isNamed, h.name? (hns n hn).1 (hns n hn).2]

theorem childrenNamed_eq (d : Document) (p : NodeId) (name : QName) :
    d.childrenNamed p name.namespaceUri name.localName = (d.children p).filter (d.isNamed name) :=
  childrenNamed_eq_filter d p _ _

/-- The last step of the path of a child, from the names of its siblings. -/
theorem segmentOf_eq {d : Document} {p n : NodeId} {before after : List NodeId} {name : QName}
    (hchildren : d.children p = before ++ n :: after) (hname : d.name? n = some name)
    (hn : n ∉ before) :
    d.segmentOf p name n =
      { namespaceUri := name.namespaceUri
        localName := name.localName
        index := if d.named name before + d.named name after = 0 then none
          else some (d.named name before + 1) } := by
  have hself : d.isNamed name n = true := by
    rw [isNamed, hname]
    exact QName.hasName_self name
  have hsame : d.childrenNamed p name.namespaceUri name.localName =
      before.filter (d.isNamed name) ++ n :: after.filter (d.isNamed name) := by
    rw [childrenNamed_eq, hchildren, List.filter_append, List.filter_cons_of_pos hself]
  have hlen : ∀ ns : List NodeId, (ns.filter (d.isNamed name)).length = d.named name ns :=
    fun ns => List.countP_eq_length_filter.symm
  have hindex : (before.filter (d.isNamed name) ++ n :: after.filter (d.isNamed name)).idxOf? n =
      some (d.named name before) := by
    rw [idxOf?_append_cons _ (fun h => hn (List.mem_of_mem_filter h)), hlen]
  simp only [segmentOf, hsame, hindex, List.length_append, List.length_cons, hlen]
  by_cases hzero : d.named name before + d.named name after = 0
  · rw [if_pos hzero, if_neg (by omega)]
  · rw [if_neg hzero, if_pos (by omega), Option.map_some]

/-! ## A node among its siblings -/

/-- The children of the attached node `p` are `before`, `n` and `after`. -/
structure Stands (d : Document) (p : NodeId) (before : List NodeId) (n : NodeId)
    (after : List NodeId) : Prop where
  wellFormed : d.WellFormed
  attached : Within d d.root p
  children : d.children p = before ++ n :: after

namespace Stands

variable {d : Document} {p n : NodeId} {before after : List NodeId}

theorem mem (h : Stands d p before n after) : n ∈ d.children p := by
  rw [h.children]
  exact List.mem_append_right _ List.mem_cons_self

theorem parent (h : Stands d p before n after) : d.parent? n = some p :=
  (h.wellFormed.parent_iff_child p n).2 h.mem

theorem not_mem (h : Stands d p before n after) : n ∉ before ∧ n ∉ after := by
  have hnodup := h.wellFormed.children_nodup p
  rw [h.children, List.nodup_append, List.nodup_cons] at hnodup
  exact ⟨fun hn => hnodup.2.2 n hn n List.mem_cons_self rfl, hnodup.2.1.1⟩

theorem index (h : Stands d p before n after) : d.indexInParent? n = some before.length :=
  indexInParent?_eq h.parent h.children h.not_mem.1

/-- The parent and what is above it are outside the node. -/
theorem not_within_above (h : Stands d p before n after) {a : NodeId} (ha : Within d a p) :
    ¬ Within d n a :=
  fun hn => h.wellFormed.linked.not_within_self_parent h.parent (hn.trans ha)

/-- A sibling and what is below it are outside the node. -/
theorem not_within_sibling (h : Stands d p before n after) {c m : NodeId}
    (hc : c ∈ before ++ after) (hm : Within d c m) : ¬ Within d n m ∧ m ≠ p := by
  have hparent : d.parent? c = some p := by
    rw [h.wellFormed.parent_iff_child, h.children]
    rcases List.mem_append.1 hc with hc | hc
    · exact List.mem_append_left _ hc
    · exact List.mem_append_right _ (List.mem_cons_of_mem _ hc)
  refine ⟨fun hn => ?_, ?_⟩
  · have hcn : c = n := h.wellFormed.linked.not_within_siblings
      (hparent.trans h.parent.symm) hm hn
    rcases List.mem_append.1 hc with hc | hc
    · exact h.not_mem.1 (hcn ▸ hc)
    · exact h.not_mem.2 (hcn ▸ hc)
  · rintro rfl
    exact h.wellFormed.linked.not_within_self_parent hparent hm

theorem lt_size_of_sibling (h : Stands d p before n after) {c : NodeId}
    (hc : c ∈ before ++ after) : c < d.size := by
  refine h.wellFormed.linked.child_lt_size (p := p) ?_
  rw [h.children]
  rcases List.mem_append.1 hc with hc | hc
  · exact List.mem_append_left _ hc
  · exact List.mem_append_right _ (List.mem_cons_of_mem _ hc)

/-- Changes in the place of the node leave the path of its parent. -/
theorem path_eq (h : Stands d p before n after) {e : Document} (he : e.WellFormed)
    (hframe : Frame (¬ Within d n ·) p d e) :
    Within e e.root p ∧ e.elementPath p = d.elementPath p := by
  refine hframe.path_eq h.wellFormed he (h.wellFormed.linked.parent_isElement h.parent) h.attached
    (fun a ha => h.not_within_above ha) fun a ha c hc hn => ?_
  have hparent : d.parent? c = some a := (h.wellFormed.parent_iff_child a c).2 hc
  by_cases hcn : c = n
  · rw [hcn, h.parent] at hparent
    cases hparent
    exact h.wellFormed.acyclic p ha
  · obtain ⟨q, hq, hnq⟩ := hn.exists_parent hcn
    rw [hparent] at hq
    cases hq
    exact h.not_within_above (.inr ha) hnq

/-- The names of the siblings are what they were. -/
theorem named_eq (h : Stands d p before n after) {e : Document}
    (hframe : Frame (¬ Within d n ·) p d e) (name : QName) :
    e.named name before = d.named name before ∧ e.named name after = d.named name after := by
  refine ⟨hframe.named_eq name fun c hc => ?_, hframe.named_eq name fun c hc => ?_⟩
  · have hmem : c ∈ before ++ after := List.mem_append_left _ hc
    exact ⟨h.lt_size_of_sibling hmem, (h.not_within_sibling hmem (within_self d c)).1⟩
  · have hmem : c ∈ before ++ after := List.mem_append_right _ hc
    exact ⟨h.lt_size_of_sibling hmem, (h.not_within_sibling hmem (within_self d c)).1⟩

/-- What was outside a node is outside what is put in its place. -/
theorem not_within_new (h : Stands d p before n after) {e : Document}
    (hframe : Frame (¬ Within d n ·) p d e) {c : NodeId} (hc : c < d.size → Within d n c)
    {m : NodeId} (hm : m < d.size) (ho : ¬ Within d n m) : ¬ Within e c m :=
  hframe.not_within h.wellFormed.linked (fun _ _ hw ho hn => ho (hn.trans hw))
    (fun hlt hn => hn (hc hlt)) hm ho

end Stands

/-- A node without parent that shares something with another node is above it. -/
theorem within_of_top {d : Document} {a n m : NodeId} (hn : d.parent? n = none)
    (hm : Within d n m) (ha : Within d a m) : Within d n a := by
  obtain ⟨i, hi⟩ := within_iff_ancestor?.1 hm
  obtain ⟨j, hj⟩ := within_iff_ancestor?.1 ha
  rcases Nat.le_total j i with hji | hij
  · obtain ⟨k, rfl⟩ := Nat.le.dest hji
    rw [ancestor?_add, hj, Option.bind_some] at hi
    exact within_iff_ancestor?.2 ⟨k, hi⟩
  · obtain ⟨k, rfl⟩ := Nat.le.dest hij
    rw [ancestor?_add, hi, Option.bind_some] at hj
    cases k with
    | zero => exact .inl (Option.some.inj hj).symm
    | succ k =>
      rw [ancestor?_succ, hn] at hj
      cases hj

/-- The nodes `left` stand where `n` stood, and all else is as it was. -/
structure Spliced (d : Document) (p : NodeId) (before : List NodeId) (n : NodeId)
    (after left : List NodeId) (e : Document) : Prop where
  wellFormed : e.WellFormed
  frame : Frame (¬ Within d n ·) p d e
  children : e.children p = before ++ left ++ after

/-- What the siblings of the node spell stays. -/
theorem Spliced.spells {d e : Document} {p n : NodeId} {before after left : List NodeId}
    (h : Spliced d p before n after left e) (hd : Stands d p before n after) {ns : List NodeId}
    {f : Forest} (hf : Spells d ns f) (hns : ∀ c ∈ ns, c ∈ before ++ after) : Spells e ns f :=
  h.frame.spells hd.wellFormed.linked hf fun c hc _ hm => hd.not_within_sibling (hns c hc) hm

/-! ## A tree -/

theorem spells_tree {d : Document} {n : NodeId} {t : Tree} :
    Spells d [n] t.forest ↔ ∃ x, d.node? n = some x ∧ x.kind = .element t.element ∧
      x.line = t.line ∧ Spells d x.children t.kids := by
  constructor
  · intro h
    generalize hf : t.forest = f at h
    cases h with
    | @node _ _ x kids rest hx hkids hrest =>
      rw [Tree.forest, Forest.node.injEq] at hf
      exact ⟨x, hx, hf.1.symm, hf.2.1.symm, hf.2.2.1 ▸ hkids⟩
  · rintro ⟨x, hx, hkind, hline, hkids⟩
    rw [Tree.forest, ← hkind, ← hline]
    exact .node hx hkids .nil

theorem Spells.element?_eq {d : Document} {n : NodeId} {t : Tree} (h : Spells d [n] t.forest) :
    d.element? n = some t.element := by
  obtain ⟨x, hx, hkind, -⟩ := spells_tree.1 h
  rw [Document.element?, kind?_of_node? hx, hkind]
  rfl

theorem Spells.attributes_eq {d : Document} {n : NodeId} {t : Tree} (h : Spells d [n] t.forest) :
    d.attributes n = t.element.attributes := by
  rw [Document.attributes, h.element?_eq]

theorem Spells.location_eq {d : Document} {n : NodeId} {t : Tree} (h : Spells d [n] t.forest) :
    d.location n = t.location := by
  obtain ⟨x, hx, hkind, hline, -⟩ := spells_tree.1 h
  rw [Document.location, kind?_of_node? hx, hkind, Document.line?, hx, Tree.location, ← hline]
  rfl

theorem Spells.kids {d : Document} {n : NodeId} {t : Tree} (h : Spells d [n] t.forest) :
    Spells d (d.children n) t.kids := by
  obtain ⟨x, hx, -, -, hkids⟩ := spells_tree.1 h
  rwa [children_of_node? hx]

theorem Spells.any_isElement {d : Document} {ns : List NodeId} {f : Forest} (h : Spells d ns f) :
    ns.any d.isElement = f.hasElement := by
  induction h with
  | nil => rfl
  | node hx _ _ _ ih =>
    rw [List.any_cons, ih, isElement_eq, kind?_of_node? hx]
    rfl

theorem Spells.hasElementChildren_eq {d : Document} {n : NodeId} {t : Tree}
    (h : Spells d [n] t.forest) : d.hasElementChildren n = t.kids.hasElement :=
  h.kids.any_isElement

theorem Spells.isNamed_self {e : Document} {c : NodeId} {t : Tree} (h : Spells e [c] t.forest) :
    e.isNamed t.element.name c = true := by
  rw [isNamed, Document.name?, h.element?_eq]
  exact QName.hasName_self _

theorem named_eq_length {e : Document} {ns : List NodeId} {t : Tree}
    (h : ∀ c ∈ ns, Spells e [c] t.forest) : e.named t.element.name ns = ns.length :=
  List.countP_eq_length.2 fun c hc => (h c hc).isNamed_self

theorem spells_updateElement {d : Document} (hd : d.Linked) {n : NodeId} {t : Tree}
    (hn : Spells d [n] t.forest) (f : Element → Element) :
    Spells (d.updateElement n f) [n] (t.mapElement f).forest := by
  obtain ⟨x, hx, hkind, hline, hkids⟩ := spells_tree.1 hn
  have hnode : (d.updateElement n f).node? n = some { x with kind := x.kind.mapElement f } := by
    rw [updateElement, node?_updateNode, if_pos rfl, hx, Option.map_some]
  refine spells_tree.2 ⟨_, hnode, ?_, hline, hkids.of_shells hd fun c hc m hm y _ => ?_⟩
  · rw [hkind]
    rfl
  · refine ⟨shell?_updateElement d ?_ f, by simp⟩
    have hparent : d.parent? c = some n :=
      (hd.parent_iff_child n c).2 (by rwa [children_of_node? hx])
    rintro rfl
    exact hd.not_within_self_parent hparent hm

/-- A changed element stands where it stood. -/
theorem Stands.spliced_updateElement {d : Document} {p n : NodeId} {before after : List NodeId}
    (h : Stands d p before n after) (f : Element → Element) :
    Spliced d p before n after [n] (d.updateElement n f) where
  wellFormed := h.wellFormed.updateElement n f
  frame := (frame_updateElement d n p f).mono fun m _ ho hm => ho (.inl hm)
  children := by
    rw [children_updateElement, h.children]
    simp

/-- Nothing stands in the place of a detached element. -/
theorem Stands.spliced_detach {d : Document} {p n : NodeId} {before after : List NodeId}
    (h : Stands d p before n after) : Spliced d p before n after [] (d.detach n) where
  wellFormed := h.wellFormed.detach n
  frame := (frame_detach h.parent).mono fun m _ ho hm => ho (.inl hm)
  children := by
    rw [children_detach, h.parent, if_pos rfl, h.children, List.erase_append_right _ h.not_mem.1]
    simp

theorem Spliced.stands {d e : Document} {p n : NodeId} {before after : List NodeId}
    (h : Spliced d p before n after [n] e) (hd : Stands d p before n after) :
    Stands e p before n after where
  wellFormed := h.wellFormed
  attached := (hd.path_eq h.wellFormed h.frame).1
  children := by
    rw [h.children]
    simp

/-- What stands in place of a node that stood in its own place. -/
theorem Spliced.trans {d e f : Document} {p n : NodeId} {before after left : List NodeId}
    (h : Spliced d p before n after [n] e) (hd : Stands d p before n after)
    (h' : Spliced e p before n after left f) : Spliced d p before n after left f where
  wellFormed := h'.wellFormed
  frame := h.frame.trans h'.frame fun _ hm ho =>
    hd.not_within_new h.frame (fun _ => within_self d n) hm ho
  children := h'.children

end LabelTemplate.Xml.Document
