import LabelTemplate.Proofs.Arena.Operations
import LabelTemplate.Proofs.Arena.Path

/-!
# Outlines

The outline of a document is what is left when texts, attributes,
declarations and lines are taken away: the ids, the names of the elements
and the links.  Paths are made of the outline alone, so two documents with
one outline have the same paths, the same elements at a path, and the same
attached nodes.
-/

namespace LabelTemplate.Xml

/-- The name, if the node is an element, and the links. -/
def Node.outline (x : Node) : Option QName × Option NodeId × List NodeId :=
  (x.kind.element?.map (·.name), x.parent, x.children)

namespace Document

/-- Documents that differ in texts, attributes, declarations and lines
only. -/
structure SameOutline (d e : Document) : Prop where
  root : d.root = e.root
  nodes : ∀ n, (d.node? n).map Node.outline = (e.node? n).map Node.outline

namespace SameOutline

theorem refl (d : Document) : d.SameOutline d := ⟨rfl, fun _ => rfl⟩

variable {d e : Document}

theorem symm (h : d.SameOutline e) : e.SameOutline d := ⟨h.root.symm, fun n => (h.nodes n).symm⟩

theorem trans {f : Document} (h : d.SameOutline e) (h' : e.SameOutline f) : d.SameOutline f :=
  ⟨h.root.trans h'.root, fun n => (h.nodes n).trans (h'.nodes n)⟩

/-- The views that an outline fixes. -/
theorem views (h : d.SameOutline e) (n : NodeId) :
    d.name? n = e.name? n ∧ d.parent? n = e.parent? n ∧ d.children n = e.children n := by
  have hn := h.nodes n
  simp only [name?, element?, kind?, parent?, children]
  cases hx : d.node? n with
  | none =>
    cases hy : e.node? n with
    | none => exact ⟨rfl, rfl, rfl⟩
    | some y => simp [hx, hy] at hn
  | some x =>
    cases hy : e.node? n with
    | none => simp [hx, hy] at hn
    | some y =>
      simp only [hx, hy, Option.map_some, Option.some.injEq, Node.outline, Prod.mk.injEq] at hn
      simpa using hn

theorem name? (h : d.SameOutline e) (n : NodeId) : d.name? n = e.name? n := (h.views n).1

theorem parent? (h : d.SameOutline e) (n : NodeId) : d.parent? n = e.parent? n := (h.views n).2.1

theorem children (h : d.SameOutline e) (n : NodeId) : d.children n = e.children n :=
  (h.views n).2.2

theorem isElement (h : d.SameOutline e) (n : NodeId) : d.isElement n = e.isElement n := by
  rw [← name?_isSome, ← name?_isSome, h.name?]

theorem size (h : d.SameOutline e) : d.size = e.size := by
  have hnone : ∀ n, d.node? n = none ↔ e.node? n = none := fun n => by
    rw [← Option.map_eq_none_iff (f := Node.outline), h.nodes, Option.map_eq_none_iff]
  refine Nat.le_antisymm ?_ ?_
  · exact node?_eq_none_iff.1 ((hnone e.size).2 (node?_eq_none_iff.2 (Nat.le_refl _)))
  · exact node?_eq_none_iff.1 ((hnone d.size).1 (node?_eq_none_iff.2 (Nat.le_refl _)))

theorem within_iff (h : d.SameOutline e) (a n : NodeId) : Within d a n ↔ Within e a n :=
  ⟨Within.mono fun m _ hp => (h.parent? m).symm.trans hp,
    Within.mono fun m _ hp => (h.parent? m).trans hp⟩

theorem wellFormed (h : d.SameOutline e) (hd : d.WellFormed) : e.WellFormed :=
  hd.congr h.root.symm (fun m => (h.parent? m).symm) (fun m => (h.children m).symm)
    fun m hm => by rw [← h.isElement]; exact hm

theorem elementChildren (h : d.SameOutline e) (n : NodeId) :
    d.elementChildren n = e.elementChildren n := by
  simp only [Document.elementChildren, h.children n]
  exact List.filter_congr fun m _ => h.isElement m

theorem childrenNamed (h : d.SameOutline e) (n : NodeId) (uri : Option String)
    (localName : String) : d.childrenNamed n uri localName = e.childrenNamed n uri localName := by
  simp only [Document.childrenNamed, h.elementChildren n]
  exact List.filter_congr fun m _ => by rw [h.name?]

theorem stepInto (h : d.SameOutline e) (segment : PathSegment) (n : NodeId) :
    d.stepInto segment n = e.stepInto segment n := by
  simp only [Document.stepInto, h.childrenNamed]

theorem findAll (h : d.SameOutline e) (path : ElementPath) : d.findAll path = e.findAll path := by
  simp only [Document.findAll, h.root]
  congr 1
  funext found segment
  congr 1
  funext n
  exact h.stepInto segment n

theorem find? (h : d.SameOutline e) (path : ElementPath) : d.find? path = e.find? path := by
  rw [Document.find?, Document.find?, h.findAll]

/-- Changing the content of an element keeps the outline. -/
theorem updateElement (d : Document) (n : NodeId) (f : Element → Element)
    (hf : ∀ x, (f x).name = x.name) : (d.updateElement n f).SameOutline d := by
  refine ⟨rfl, fun m => ?_⟩
  simp only [Document.updateElement, node?_updateNode]
  split
  · cases d.node? m with
    | none => rfl
    | some x =>
      simp only [Option.map_some, Node.outline, NodeKind.element?_mapElement]
      cases x.kind.element? <;> simp [hf]
  · rfl

theorem setText (d : Document) (n : NodeId) (text : Option String) :
    (d.setText n text).SameOutline d :=
  updateElement d n _ fun _ => rfl

theorem setAttribute (d : Document) (n : NodeId) (name : QName) (value : String) :
    (d.setAttribute n name value).SameOutline d :=
  updateElement d n _ fun _ => rfl

/-- Detaching a node from two documents with one outline leaves one
outline. -/
theorem detach (h : d.SameOutline e) (n : NodeId) : (d.detach n).SameOutline (e.detach n) := by
  refine ⟨by simpa using h.root, fun m => ?_⟩
  have houtline : ∀ (a : Document), ((a.detach n).node? m).map Node.outline =
      if m < a.size then some (a.name? m, (a.detach n).parent? m, (a.detach n).children m)
      else none := by
    intro a
    split
    · rename_i hm
      obtain ⟨x, hx⟩ := exists_node? (d := a.detach n) (by simpa using hm)
      have hname : a.name? m = (a.detach n).name? m := by
        simp only [Document.name?, Document.element?, kind?_detach]
      rw [hname]
      simp only [Document.parent?, Document.children, Document.name?, Document.element?,
        Document.kind?, hx, Option.map_some, Node.outline, Option.bind_some]
    · rename_i hm
      rw [node?_eq_none_iff.2 (by simpa using hm)]
      rfl
  rw [houtline, houtline, h.size, h.name?, parent?_detach, parent?_detach, h.parent?,
    children_detach, children_detach, h.parent?, h.children]

end SameOutline

end Document

end LabelTemplate.Xml
