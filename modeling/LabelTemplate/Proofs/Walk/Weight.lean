import LabelTemplate.Proofs.Arena.Preorder
import LabelTemplate.Proofs.Walk.Declared
import LabelTemplate.Proofs.Walk.Trees

/-!
# Weights

The weight of a forest is the number of its nodes and attributes.  A tree in
it is no heavier, and an element that lost a directive is lighter than it was,
so the weight bounds how many elements are walked inside one another.
`Spells.weight_lt_depthBound`: the fuel that the walk starts with is more than
the template weighs.
-/

namespace LabelTemplate

open Xml

namespace Xml

/-! ## Directives of an element -/

/-- True where some attribute declares the directive. -/
def Element.declares (e : Element) (d : Directive) : Bool :=
  e.attributes.any d.names

theorem Element.attributes_removeDirective (e : Element) (d : Directive) :
    (e.removeDirective d).attributes = e.attributes.eraseP d.names := rfl

theorem Element.length_removeDirective {e : Element} {d : Directive} (h : e.declares d = true) :
    (e.removeDirective d).attributes.length + 1 = e.attributes.length := by
  obtain ⟨a, ha, hname⟩ := List.any_eq_true.1 h
  have hpos := List.length_pos_of_mem ha
  rw [attributes_removeDirective, List.length_eraseP_of_mem ha hname]
  omega

/-! ## Forests and trees -/

/-- One for the node and one for each attribute. -/
def NodeKind.weight (k : NodeKind) : Nat := k.element?.elim 0 (·.attributes.length) + 1

/-- The number of nodes and attributes. -/
def Forest.weight : Forest → Nat
  | nil => 0
  | node kind _ kids rest => kind.weight + kids.weight + rest.weight

/-- The number of nodes and attributes. -/
def Tree.weight (t : Tree) : Nat := t.element.attributes.length + 1 + t.kids.weight

@[simp] theorem Tree.weight_forest (t : Tree) : t.forest.weight = t.weight := rfl

/-- The trees of the roots that are elements. -/
def Forest.trees : Forest → List Tree
  | .nil => []
  | .node (.element e) line kids rest => ⟨e, line, kids⟩ :: rest.trees
  | .node (.comment _) _ _ rest => rest.trees

theorem Forest.weight_le_of_mem {f : Forest} {t : Tree} (h : t ∈ f.trees) :
    t.weight ≤ f.weight := by
  induction f with
  | nil => cases h
  | node kind line kids rest _ ih =>
    cases kind with
    | comment text =>
      have hle := ih h
      rw [weight]
      omega
    | element e =>
      rcases List.mem_cons.1 h with rfl | h
      · simp only [Tree.weight, weight, NodeKind.weight, NodeKind.element?, Option.elim_some]
        omega
      · have hle := ih h
        rw [weight]
        omega

theorem Tree.weight_removeDirective_lt {t : Tree} {d : Directive}
    (h : t.element.declares d = true) :
    (t.mapElement (·.removeDirective d)).weight + 1 = t.weight := by
  have hlength := Element.length_removeDirective h
  simp only [weight, mapElement]
  omega

theorem Tree.weight_removeDirective_le (t : Tree) (d : Directive) :
    (t.mapElement (·.removeDirective d)).weight ≤ t.weight := by
  have hlength : (t.element.removeDirective d).attributes.length ≤ t.element.attributes.length :=
    List.eraseP_sublist.length_le
  simp only [weight, mapElement]
  omega

end Xml

/-! ## Totals -/

/-- The sum of the values of a list. -/
def total {α : Type} (w : α → Nat) (l : List α) : Nat := l.foldr (w · + ·) 0

section Total

variable {α β : Type}

theorem total_cons (w : α → Nat) (a : α) (l : List α) : total w (a :: l) = w a + total w l := rfl

theorem total_append (w : α → Nat) (l l' : List α) : total w (l ++ l') = total w l + total w l' := by
  induction l with
  | nil => simp [total]
  | cons a l ih =>
    rw [List.cons_append, total_cons, total_cons, ih]
    omega

theorem total_map (w : β → Nat) (f : α → β) (l : List α) :
    total w (l.map f) = total (fun a => w (f a)) l := by
  rw [total, List.foldr_map]
  rfl

/-- Distinct items of a list add up to no more than the list. -/
theorem total_le_of_subset [DecidableEq α] (w : α → Nat) {l l' : List α} (hnodup : l.Nodup)
    (hsub : l ⊆ l') : total w l ≤ total w l' := by
  induction l generalizing l' with
  | nil => exact Nat.zero_le _
  | cons a l ih =>
    rw [List.nodup_cons] at hnodup
    obtain ⟨front, back, rfl⟩ := List.append_of_mem (hsub List.mem_cons_self)
    have hrest : l ⊆ front ++ back := fun b hb => by
      have hne : b ≠ a := fun h => hnodup.1 (h ▸ hb)
      simpa [hne] using hsub (List.mem_cons_of_mem _ hb)
    have hle := ih hnodup.2 hrest
    rw [total_append] at hle
    rw [total_cons, total_append, total_cons]
    omega

end Total

namespace Xml

theorem Forest.weight_eq_total (f : Forest) : f.weight = total NodeKind.weight f.kinds := by
  induction f with
  | nil => rfl
  | node kind line kids rest ihk ihr =>
    rw [weight, kinds, total_cons, total_append, ihk, ihr, Nat.add_assoc]

namespace Document

variable {d : Document}

/-- The weight of a node alone. -/
def nodeWeight (d : Document) (n : NodeId) : Nat := (d.kind? n).elim 0 NodeKind.weight

theorem nodeWeight_eq {n : NodeId} (hn : n < d.size) :
    d.nodeWeight n = (d.attributes n).length + 1 := by
  obtain ⟨x, hx⟩ := exists_node? hn
  simp only [nodeWeight, attributes, element?, kind?_of_node? hx, Option.elim_some,
    Option.bind_some, NodeKind.weight]
  cases x.kind <;> rfl

theorem depthBound_eq (d : Document) :
    Engine.depthBound d = total d.nodeWeight (List.range d.size) + 1 := by
  have hfold : ∀ ns : List NodeId, (∀ n ∈ ns, n < d.size) → ∀ rest : Nat,
      ns.foldr (fun n total => (d.attributes n).length + total) (ns.length + rest) =
        total d.nodeWeight ns + rest := by
    intro ns
    induction ns with
    | nil => intro _ rest; simp [total]
    | cons n ns ih =>
      intro hns rest
      have hcount : (n :: ns).length + rest = ns.length + (rest + 1) := by
        rw [List.length_cons]
        omega
      rw [List.foldr_cons, hcount, ih (fun m hm => hns m (List.mem_cons_of_mem _ hm)), total_cons,
        nodeWeight_eq (hns n List.mem_cons_self)]
      omega
  have h := hfold (List.range d.size) (fun n hn => List.mem_range.1 hn) 1
  rwa [List.length_range] at h

/-- A tree of the template weighs less than the fuel of the walk. -/
theorem Spells.weight_lt_depthBound (hd : d.Linked) {n : NodeId} {f : Forest}
    (hf : Spells d [n] f) : f.weight < Engine.depthBound d := by
  obtain ⟨ids, hnodup, hkinds, hids⟩ :=
    hf.exists_nodup hd (List.nodup_singleton n) (d.parent? n) (by simp)
  have hsub : ids ⊆ List.range d.size := fun m hm => List.mem_range.2 (hids m hm).1
  have hweight : total d.nodeWeight ids = f.weight := by
    have h := congrArg (total fun k : Option NodeKind => k.elim 0 NodeKind.weight) hkinds
    rw [total_map, total_map] at h
    rw [Forest.weight_eq_total]
    exact h
  have hle := total_le_of_subset d.nodeWeight hnodup hsub
  rw [depthBound_eq]
  omega

/-- One of several nodes is no heavier than all of them. -/
theorem Spells.exists_of_mem {ns : List NodeId} {f : Forest} (hf : Spells d ns f) {n : NodeId}
    (hn : n ∈ ns) : ∃ g, Spells d [n] g ∧ g.weight ≤ f.weight := by
  induction hf with
  | nil => cases hn
  | @node m ms x kids rest hx hkids _ _ ih =>
    rcases List.mem_cons.1 hn with rfl | hn
    · refine ⟨_, .node hx hkids .nil, ?_⟩
      simp only [Forest.weight]
      omega
    · obtain ⟨g, hg, hle⟩ := ih hn
      refine ⟨g, hg, Nat.le_trans hle ?_⟩
      rw [Forest.weight]
      omega

/-- An element is the top of a tree. -/
theorem Spells.exists_tree {n : NodeId} {f : Forest} (hf : Spells d [n] f)
    (hn : d.isElement n = true) : ∃ t : Tree, f = t.forest := by
  cases hf with
  | @node _ _ x kids rest hx hkids hrest =>
    cases hrest
    rw [isElement_eq, kind?_of_node? hx] at hn
    cases hkind : x.kind with
    | element e => exact ⟨⟨e, x.line, kids⟩, rfl⟩
    | comment text =>
      rw [hkind] at hn
      cases hn

end Document

end Xml

end LabelTemplate
