import LabelTemplate.Proofs.Arena.Order
import LabelTemplate.Proofs.Walk.Splice
import LabelTemplate.Proofs.Writing.ReadBack

/-!
# Trimming a document

Two operations take something away from all over a document: one strips its
comments, one drops the declarations that no name uses.  Both go along a list
of ids.  Here they are read as functions of the forest of the document
(`spells_stripComments`, `spells_cleanupNamespaces`).  The text of a document
is a function of its prolog and its forest as well (`toXml_congr`), so that
what is written after any of these is known from the forest.
-/

namespace LabelTemplate.Xml

namespace Forest

/-- The forest without its comments. -/
def withoutComments : Forest → Forest
  | nil => nil
  | node (.comment _) _ _ rest => rest.withoutComments
  | node (.element e) line kids rest =>
    node (.element e) line kids.withoutComments rest.withoutComments

@[simp] theorem withoutComments_append (f g : Forest) :
    (f ++ g).withoutComments = f.withoutComments ++ g.withoutComments := by
  induction f with
  | nil => rfl
  | node kind line kids rest _ ih =>
    cases kind with
    | element e => rw [node_append, withoutComments, ih, withoutComments, node_append]
    | comment text => rw [node_append, withoutComments, ih, withoutComments]

theorem hasElement_withoutComments (f : Forest) : f.withoutComments.hasElement = f.hasElement := by
  induction f with
  | nil => rfl
  | node kind line kids rest _ ih =>
    cases kind with
    | element e => rfl
    | comment text => exact ih

/-- Changes every element. -/
def mapElements (f : Element → Element) : Forest → Forest
  | nil => nil
  | node kind line kids rest =>
    node (kind.mapElement f) line (kids.mapElements f) (rest.mapElements f)

/-- Every namespace that a name in the forest uses. -/
def usedNamespaces (f : Forest) : List String :=
  f.elements.flatMap fun e => (e.name :: e.attributes.map (·.name)).filterMap (·.namespaceUri)

/-- The forest without declarations of other namespaces than these. -/
def restricted (used : List String) (f : Forest) : Forest :=
  f.mapElements fun e => { e with namespaces := e.namespaces.filter (used.contains ·.uri) }

/-- The forest without the declarations that no name uses. -/
def cleaned (f : Forest) : Forest := f.restricted f.usedNamespaces

theorem withoutComments_mapElements (g : Element → Element) (f : Forest) :
    (f.mapElements g).withoutComments = f.withoutComments.mapElements g := by
  induction f with
  | nil => rfl
  | node kind line kids rest ihkids ihrest =>
    cases kind with
    | element e =>
      rw [mapElements, NodeKind.mapElement, withoutComments, withoutComments, ihkids, ihrest]
      rfl
    | comment text =>
      rw [mapElements, NodeKind.mapElement, withoutComments, withoutComments, ihrest]

end Forest

namespace Document

variable {d : Document}

/-! ## Comments -/

/-- Detaching nodes one after the other takes them away from among the children
of every node. -/
theorem detach_all (hd : d.Linked) (cs : List NodeId) (n : NodeId) :
    (cs.foldl detach d).shell? n = d.shell? n ∧
      (cs.foldl detach d).children n = (d.children n).filter (· ∉ cs) := by
  induction cs generalizing d with
  | nil => simp
  | cons c cs ih =>
    obtain ⟨hshell, hchildren⟩ := ih (hd.detach c)
    refine ⟨hshell.trans (shell?_detach d c n), ?_⟩
    rw [List.foldl_cons, hchildren, hd.children_detach_eq, childrenWithout, List.filter_filter]
    refine List.filter_congr fun m _ => ?_
    rw [Bool.eq_iff_iff]
    simp [and_comm]

theorem root_detach_all (d : Document) (cs : List NodeId) : (cs.foldl detach d).root = d.root := by
  induction cs generalizing d with
  | nil => rfl
  | cons c cs ih => exact (ih (d.detach c)).trans (root_detach d c)

/-- Stripping the comments of a document strips those of its forest. -/
theorem spells_stripComments (hd : d.WellFormed) {f : Forest} (hf : Spells d [d.root] f) :
    Spells d.stripComments [d.stripComments.root] f.withoutComments := by
  have hroot : d.stripComments.root = d.root := root_detach_all d _
  have hmem : ∀ m, Within d d.root m →
      (m ∉ (d.descendants d.root).filter d.isComment ↔ d.isComment m = false) := fun m hm => by
    rw [List.mem_filter, hd.mem_descendants hd.root_lt_size]
    simp [hm]
  have hstrip : ∀ {ns : List NodeId} {f : Forest}, Spells d ns f → (∀ n ∈ ns, Within d d.root n) →
      Spells d.stripComments (ns.filter (!d.isComment ·)) f.withoutComments := by
    intro ns f hf
    induction hf with
    | nil => exact fun _ => .nil
    | @node n ns x kids rest hx _ _ ihkids ihrest =>
      intro hns
      have hn := hns n List.mem_cons_self
      have hrest := ihrest fun m hm => hns m (List.mem_cons_of_mem _ hm)
      have hcomment : d.isComment n = x.kind.isComment := by
        rw [isComment, kind?_of_node? hx]
        rfl
      cases hkind : x.kind with
      | comment text =>
        rw [List.filter_cons_of_neg (by rw [hcomment, hkind]; exact Bool.false_ne_true)]
        exact hrest
      | element e =>
        have hkept : ∀ c ∈ d.children n, Within d d.root c := fun c hc =>
          within_of_parent? ((hd.parent_iff_child n c).2 hc) hn
        obtain ⟨hshell, hchildren⟩ := detach_all hd.linked
          ((d.descendants d.root).filter d.isComment) n
        rw [shell?, shell?, hx, Option.map_some] at hshell
        obtain ⟨y, hy, hyx⟩ := Option.map_eq_some_iff.1 hshell
        rw [Node.mk.injEq] at hyx
        rw [List.filter_cons_of_pos (by rw [hcomment, hkind]; rfl), Forest.withoutComments,
          ← hkind, ← hyx.1, ← hyx.2.2.2]
        refine .node hy ?_ hrest
        rw [← children_of_node? hy, hchildren, children_of_node? hx,
          List.filter_congr (q := (!d.isComment ·)) fun c hc => ?_]
        · exact ihkids fun c hc => hkept c (children_of_node? hx ▸ hc)
        · rw [Bool.eq_iff_iff, decide_eq_true_iff, hmem c (hkept c (children_of_node? hx ▸ hc)),
            Bool.not_eq_true']
  have hspells := hstrip hf fun n hn => List.mem_singleton.1 hn ▸ within_self d d.root
  rwa [List.filter_cons_of_pos (by
    rw [isComment_of_isElement hd.root_isElement]; rfl), List.filter_nil, ← hroot] at hspells

/-! ## Declarations -/

/-- Changing the elements of a list changes those that are in it. -/
theorem node?_updateAll (g : Element → Element) {ns : List NodeId} (hns : ns.Nodup) (n : NodeId) :
    (ns.foldl (fun d n => d.updateElement n g) d).node? n =
      if n ∈ ns then (d.node? n).map fun x => { x with kind := x.kind.mapElement g }
      else d.node? n := by
  induction ns generalizing d with
  | nil => rfl
  | cons m ns ih =>
    obtain ⟨hm, hns⟩ := List.nodup_cons.1 hns
    rw [List.foldl_cons, ih hns, updateElement, node?_updateNode]
    by_cases hmn : m = n
    · rw [if_pos hmn, if_neg (hmn ▸ hm), if_pos (hmn ▸ List.mem_cons_self)]
    · rw [if_neg hmn]
      simp only [List.mem_cons, Ne.symm hmn, false_or]

theorem root_updateAll (d : Document) (g : Element → Element) (ns : List NodeId) :
    (ns.foldl (fun d n => d.updateElement n g) d).root = d.root := by
  induction ns generalizing d with
  | nil => rfl
  | cons n ns ih => exact (ih (d.updateElement n g)).trans (root_updateElement d n g)

/-- Nodes whose elements have been changed spell the changed forest. -/
theorem Spells.mapElements {e : Document} {g : Element → Element} {S : NodeId → Prop}
    (hdown : ∀ n, S n → ∀ c ∈ d.children n, S c)
    (hsame : ∀ n x, S n → d.node? n = some x →
      e.node? n = some { x with kind := x.kind.mapElement g })
    {ns : List NodeId} {f : Forest} (hf : Spells d ns f) (hns : ∀ n ∈ ns, S n) :
    Spells e ns (f.mapElements g) := by
  induction hf with
  | nil => exact .nil
  | @node n ns x kids rest hx _ _ ihkids ihrest =>
    have hn := hns n List.mem_cons_self
    exact .node (hsame n x hn hx) (ihkids fun c hc => hdown n hn c (children_of_node? hx ▸ hc))
      (ihrest fun m hm => hns m (List.mem_cons_of_mem _ hm))

theorem usedNamespaces_eq (hd : d.WellFormed) {f : Forest} (hf : Spells d [d.root] f) :
    d.usedNamespaces = f.usedNamespaces := by
  rw [Forest.usedNamespaces, ← elements_eq hf (hf.size_le hd.linked), elements, usedNamespaces]
  induction d.descendantElements d.root with
  | nil => rfl
  | cons n ns ih =>
    rw [List.flatMap_cons, ih]
    cases h : d.element? n with
    | none => rw [List.filterMap_cons_none h, List.nil_append]
    | some e => rw [List.filterMap_cons_some h, List.flatMap_cons]

/-- Dropping the declarations that nothing uses drops those of the forest. -/
theorem spells_cleanupNamespaces (hd : d.WellFormed) {f : Forest} (hf : Spells d [d.root] f) :
    Spells d.cleanupNamespaces [d.cleanupNamespaces.root] f.cleaned := by
  have hroot : d.cleanupNamespaces.root = d.root := root_updateAll d _ _
  have hnodup : (d.descendantElements d.root).Nodup :=
    (hd.nodup_descendants hd.root_lt_size).filter _
  rw [hroot, Forest.cleaned, Forest.restricted, ← usedNamespaces_eq hd hf]
  refine Spells.mapElements (S := Within d d.root) (fun n hn c hc =>
    within_of_parent? ((hd.parent_iff_child n c).2 hc) hn) (fun n x hn hx => ?_) hf
    fun n hn => List.mem_singleton.1 hn ▸ within_self d d.root
  rw [cleanupNamespaces, node?_updateAll _ hnodup, hx]
  by_cases hin : n ∈ d.descendantElements d.root
  · rw [if_pos hin]
    rfl
  · -- a comment of the tree
    rw [if_neg hin]
    have helem : ¬ d.isElement n = true := fun h => hin (hd.mem_descendantElements_root.2 ⟨hn, h⟩)
    rw [isElement_eq, kind?_of_node? hx] at helem
    cases x with
    | mk kind parent children line =>
      cases kind with
      | element e => exact absurd rfl helem
      | comment text => rfl

theorem cleanupNamespaces_keeps (hd : d.WellFormed) :
    d.cleanupNamespaces.WellFormed ∧ d.cleanupNamespaces.prolog = d.prolog := by
  unfold cleanupNamespaces
  generalize d.usedNamespaces = used
  generalize d.descendantElements d.root = ns
  induction ns generalizing d with
  | nil => exact ⟨hd, rfl⟩
  | cons n ns ih => exact ih (hd.updateElement n _)

/-! ## Text -/

/-- Documents with one prolog and one forest are written alike. -/
theorem toXml_congr {d e : Document} (hd : d.WellFormed) (he : e.WellFormed) {f : Forest}
    (hf : Spells d [d.root] f) (hf' : Spells e [e.root] f) (hprolog : d.prolog = e.prolog) :
    d.toXml = e.toXml := by
  have hheight : ∀ {d : Document}, d.WellFormed → Spells d [d.root] f → f.height ≤ d.size := by
    intro d hd hf
    obtain ⟨g, hg, hheight⟩ := hd.exists_spells [d.root] fun n hn =>
      List.mem_singleton.1 hn ▸ hd.root_lt_size
    rwa [hf.unique hg]
  refine String.ext ?_
  rw [toList_toXml hf (hheight hd hf), toList_toXml hf' (hheight he hf'), hprolog]

end Document

end LabelTemplate.Xml
