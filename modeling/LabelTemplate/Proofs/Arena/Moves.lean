import LabelTemplate.Proofs.Arena.Clone
import LabelTemplate.Proofs.Arena.Path
import LabelTemplate.Proofs.Reading.Run

/-!
# Moving a node

Inserting a node that hangs elsewhere, or at another position of the same
parent, detaches it first.  So the position counts the children without the
node, and is cut to their number then.  `IsMove` states what a move changes:
two lists of children at most and one link to a parent.
`Linked.isMove_insertChild` is about any nodes of a well linked arena.

A node that is detached and put back at the index where it stood leaves the
document as it was (`Linked.insertChild_detach`).  That is what the walk does
with an element of several sources, which it takes out and puts back among its
copies.
-/

namespace LabelTemplate.Xml.Document

/-- The children of a node, apart from one. -/
def childrenWithout (d : Document) (p c : NodeId) : List NodeId :=
  (d.children p).filter (· != c)

/-- `e` is `d` after `child` became the child of `parent` at a position. -/
structure IsMove (d e : Document) (parent : NodeId) (index : Nat) (child : NodeId) : Prop where
  /-- The position counts the other children and is at most their number. -/
  target : e.children parent = (d.childrenWithout parent child).insertIdx
    (min index (d.childrenWithout parent child).length) child
  former : ∀ q, d.parent? child = some q → q ≠ parent → e.children q = d.childrenWithout q child
  others : ∀ q, d.parent? child ≠ some q → q ≠ parent → e.children q = d.children q
  moved : e.parent? child = some parent
  parents : ∀ m, m ≠ child → e.parent? m = d.parent? m
  kind : ∀ m, e.kind? m = d.kind? m
  line : ∀ m, e.line? m = d.line? m
  size : e.size = d.size
  root : e.root = d.root
  prolog : e.prolog = d.prolog
  url : e.url = d.url

variable {d e : Document} {p c n : NodeId} {before after : List NodeId}

/-! ## Nodes from their views -/

theorem line?_of_shell? (h : e.shell? n = d.shell? n) : e.line? n = d.line? n := by
  have hline := congrArg (·.bind (·.line)) h
  simpa [shell?, line?, Option.bind_map, Function.comp_def] using hline

/-- A node is its shell and its links. -/
theorem node?_of_shell? (hshell : e.shell? n = d.shell? n) (hparent : e.parent? n = d.parent? n)
    (hchildren : e.children n = d.children n) : e.node? n = d.node? n := by
  simp only [shell?, parent?, children] at hshell hparent hchildren
  cases hx : e.node? n with
  | none =>
    rw [hx, Option.map_none] at hshell
    exact (Option.map_eq_none_iff.1 hshell.symm).symm
  | some x =>
    rw [hx, Option.map_some] at hshell
    obtain ⟨y, hy, hxy⟩ := Option.map_eq_some_iff.1 hshell.symm
    rw [hx, hy] at hparent hchildren
    rw [hy]
    cases x
    cases y
    simp_all

@[simp] theorem url_detach (d : Document) (n : NodeId) : (d.detach n).url = d.url := by
  unfold detach
  split <;> rfl

@[simp] theorem url_insertChild (d : Document) (p i c : NodeId) :
    (d.insertChild p i c).url = d.url :=
  url_detach d c

/-! ## A node among its siblings -/

namespace Linked

variable (hd : d.Linked)

include hd

theorem children_detach_eq (p c : NodeId) : (d.detach c).children p = d.childrenWithout p c := by
  rw [children_detach, childrenWithout]
  split
  · exact (hd.children_nodup p).erase_eq_filter c
  · rename_i hp
    -- what is no child of `p` is not among its children either
    rw [List.filter_eq_self.2]
    intro m hm
    rw [bne_iff_ne]
    rintro rfl
    exact hp ((hd.parent_iff_child p m).2 hm)

end Linked

theorem idxOf?_append_cons (after : List NodeId) (hn : n ∉ before) :
    (before ++ n :: after).idxOf? n = some before.length := by
  rw [List.idxOf?_eq_some_iff]
  refine ⟨by simp, by simp, fun j hj => ?_⟩
  rw [List.getElem_append_left hj]
  exact fun h => hn (h ▸ List.getElem_mem hj)

theorem indexInParent?_eq (hp : d.parent? n = some p) (hsplit : d.children p = before ++ n :: after)
    (hn : n ∉ before) : d.indexInParent? n = some before.length := by
  rw [indexInParent?, hp, Option.bind_some, hsplit, idxOf?_append_cons after hn]

/-! ## Moving -/

/-- Inserting a node moves it, and nothing else. -/
theorem Linked.isMove_insertChild (hd : d.Linked) (i : Nat) (hp : p < d.size) (hc : c < d.size) :
    IsMove d (d.insertChild p i c) p i c where
  target := by
    rw [children_insertChild d i c p hp, if_pos rfl, hd.children_detach_eq, insertIdx_min]
  former q _ hq := by rw [children_insertChild d i c q hp, if_neg hq, hd.children_detach_eq]
  others q hparent hq := by
    rw [children_insertChild d i c q hp, if_neg hq, children_detach, if_neg hparent]
  moved := by rw [parent?_insertChild d p i c hc, if_pos rfl]
  parents m hm := by rw [parent?_insertChild d p i m hc, if_neg hm]
  kind m := kind?_insertChild d p i c m
  line m := line?_of_shell? (shell?_insertChild d p i c m)
  size := size_insertChild d p i c
  root := root_insertChild d p i c
  prolog := prolog_insertChild d p i c
  url := url_insertChild d p i c

/-- A detached node that is put back where it stood restores the document. -/
theorem Linked.insertChild_detach (hd : d.Linked) (hp : d.parent? c = some p) :
    ∃ i, d.indexInParent? c = some i ∧ (d.detach c).insertChild p i c = d := by
  obtain ⟨before, after, hsplit, hbefore⟩ :=
    List.eq_append_cons_of_mem ((hd.parent_iff_child p c).1 hp)
  have hpsize : p < (d.detach c).size := by simpa using hd.parent_lt_size hp
  have hcsize : c < (d.detach c).size := by simpa using lt_size_of_parent? hp
  have hloose : (d.detach c).parent? c = none := by rw [parent?_detach, if_pos rfl]
  have hback := (hd.detach c).isMove_insertChild before.length hpsize hcsize
  refine ⟨before.length, indexInParent?_eq hp hsplit hbefore,
    ext_node? (by simp) (by simp) (by simp) fun m => node?_of_shell? (by simp) ?parent ?children⟩
  case parent =>
    by_cases hm : m = c
    · rw [hm, hback.moved, hp]
    · rw [hback.parents m hm, parent?_detach, if_neg hm]
  case children =>
    by_cases hm : m = p
    · have hwithout : (d.detach c).childrenWithout p c = before ++ after := by
        -- detached twice is detached
        rw [← (hd.detach c).children_detach_eq, children_detach, hloose, if_neg (by simp),
          children_detach, if_pos hp, hsplit, List.erase_append_right _ hbefore,
          List.erase_cons_head]
      rw [hm, hback.target, hwithout, insertIdx_min, hsplit]
      simp
    · have hother : d.parent? c ≠ some m := by
        rw [hp]
        exact fun h => hm (Option.some.inj h).symm
      rw [hback.others m (by simp [hloose]) hm, children_detach, if_neg hother]

/-- Moving a node changes the children of its new parent, which are the former
ones with the node at the given position or at the end, those of its former
parent, which lack the node, and its parent.  And each attached node but the
root comes back to its place when it is detached and inserted at its former
index. -/
theorem WellFormed.insertChild_moves_and_restores (hd : d.WellFormed) :
    (∀ p i c, p < d.size → c < d.size → IsMove d (d.insertChild p i c) p i c) ∧
      ∀ c, d.isAttached c = true → c ≠ d.root → ∃ p i, d.parent? c = some p ∧
        d.indexInParent? c = some i ∧ (d.detach c).insertChild p i c = d := by
  constructor
  · intro p i c hp hc
    exact hd.linked.isMove_insertChild i hp hc
  · intro c hc hroot
    obtain ⟨p, hp, -⟩ := (hd.isAttached_iff.1 hc).exists_parent hroot
    obtain ⟨i, hi, hrestored⟩ := hd.linked.insertChild_detach hp
    exact ⟨p, i, hp, hi, hrestored⟩

/-- Three children, the second one with a child and the third one a comment. -/
def threeChildren : Document :=
  .ofTree [] { name := .plain "a" } none
    (.node (.element { name := .plain "b" }) none .nil
      (.node (.element { name := .plain "c" }) none
        (.node (.element { name := .plain "d" }) none .nil .nil)
        (.node (.comment "end") none .nil .nil)))

theorem threeChildren_wellFormed : threeChildren.WellFormed :=
  wellFormed_ofTree (by simp [Forest.Proper, NodeKind.isElement, NodeKind.element?]) _

theorem insertChild_moves_and_restores_threeChildren :
    (threeChildren.insertChild 0 1 1).children 0 = [2, 1, 4] ∧
      (threeChildren.insertChild 0 0 4).children 0 = [4, 1, 2] ∧
      (threeChildren.insertChild 2 9 1).children 2 = [3, 1] ∧
      (threeChildren.insertChild 2 9 1).children 0 = [2, 4] ∧
      threeChildren.indexInParent? 2 = some 1 ∧
      (threeChildren.detach 2).insertChild 0 1 2 = threeChildren := by
  obtain ⟨hmoves, hrestores⟩ := threeChildren_wellFormed.insertChild_moves_and_restores
  have hother := hmoves 2 9 1 (by decide) (by decide)
  refine ⟨(hmoves 0 1 1 (by decide) (by decide)).target.trans (by decide +kernel),
    (hmoves 0 0 4 (by decide) (by decide)).target.trans (by decide +kernel),
    hother.target.trans (by decide +kernel),
    (hother.former 0 (by decide +kernel) (by decide)).trans (by decide +kernel),
    by decide +kernel, ?_⟩
  obtain ⟨p, i, hp, hi, hrestored⟩ := hrestores 2 (by decide +kernel) (by decide)
  have hp' : threeChildren.parent? 2 = some 0 := by decide +kernel
  have hi' : threeChildren.indexInParent? 2 = some 1 := by decide +kernel
  cases hp.symm.trans hp'
  cases hi.symm.trans hi'
  exact hrestored

end LabelTemplate.Xml.Document
