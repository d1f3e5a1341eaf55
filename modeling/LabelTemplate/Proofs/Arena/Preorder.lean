import LabelTemplate.Proofs.Arena.Forest

/-!
# The elements of a tree in document order

The traversal with a stack meets the nodes of a forest in preorder, as long
as its fuel lasts.  The size of the arena is fuel enough: siblings have no
node below both, so a tree has no more nodes than the arena
(`Spells.size_le`).

`Document.elements` are the elements of a document in this order.  They are
read off its forest (`elements_eq`).
-/

namespace LabelTemplate.Xml

/-- The elements of a forest in document order. -/
def Forest.elements : Forest → List Element
  | .nil => []
  | .node (.element e) _ kids rest => e :: (kids.elements ++ rest.elements)
  | .node (.comment _) _ kids rest => kids.elements ++ rest.elements

/-- What the nodes of a forest are, in document order. -/
def Forest.kinds : Forest → List NodeKind
  | .nil => []
  | .node kind _ kids rest => kind :: (kids.kinds ++ rest.kinds)

theorem Forest.length_kinds (f : Forest) : f.kinds.length = f.size := by
  induction f with
  | nil => rfl
  | node kind line kids rest ihk ihr =>
    simp only [kinds, size, List.length_cons, List.length_append, ihk, ihr]
    omega

namespace Document

/-- The elements of a document in document order. -/
def elements (d : Document) : List Element := (d.descendantElements d.root).filterMap d.element?

/-! ## Enough fuel -/

/-- No node is within two siblings. -/
theorem Linked.not_within_siblings {d : Document} (hd : d.Linked) {a b m : NodeId}
    (hab : d.parent? a = d.parent? b) (ha : Within d a m) (hb : Within d b m) : a = b := by
  have hapart : ∀ {a b : NodeId}, d.parent? a = d.parent? b → ¬ Below d a b := by
    intro a b hab h
    cases h with
    | child hp => exact hd.acyclic a (.child (hab.trans hp))
    | step hp up => exact hd.acyclic a (up.trans (.child (hab.trans hp)))
  rcases within_or_below ha hb with (hsame | h) | h
  · exact hsame.symm
  · exact absurd h (hapart hab)
  · exact absurd h (hapart hab.symm)

/-- The nodes of a forest of siblings are distinct; here they are in document
order. -/
theorem Spells.exists_nodup {d : Document} (hd : d.Linked) {ns : List NodeId} {f : Forest}
    (hf : Spells d ns f) (hns : ns.Nodup) (q : Option NodeId) (hq : ∀ n ∈ ns, d.parent? n = q) :
    ∃ ids : List NodeId, ids.Nodup ∧ ids.map d.kind? = f.kinds.map some ∧
      ∀ m ∈ ids, m < d.size ∧ ∃ n ∈ ns, Within d n m := by
  induction hf generalizing q with
  | nil => exact ⟨[], .nil, rfl, by simp⟩
  | @node n ns x kids rest hx hkids hrest ihk ihr =>
    rw [List.nodup_cons] at hns
    have hchildren : d.children n = x.children := children_of_node? hx
    have hparent : ∀ c ∈ x.children, d.parent? c = some n := fun c hc =>
      (hd.parent_iff_child n c).2 (by rw [hchildren]; exact hc)
    obtain ⟨idsK, hnodupK, hkindsK, hidsK⟩ :=
      ihk (by rw [← hchildren]; exact hd.children_nodup n) (some n) hparent
    obtain ⟨idsR, hnodupR, hkindsR, hidsR⟩ :=
      ihr hns.2 q fun m hm => hq m (List.mem_cons_of_mem _ hm)
    have hbelow : ∀ m ∈ idsK, Below d n m := fun m hm => by
      obtain ⟨c, hc, hw⟩ := (hidsK m hm).2
      exact hw.below (hparent c hc)
    have hapart : ∀ m ∈ idsR, ¬ Within d n m := fun m hm hw => by
      obtain ⟨a, ha, hwa⟩ := (hidsR m hm).2
      have hsame : d.parent? a = d.parent? n := by
        rw [hq a (List.mem_cons_of_mem _ ha), hq n List.mem_cons_self]
      exact hns.1 (hd.not_within_siblings hsame hwa hw ▸ ha)
    refine ⟨n :: (idsK ++ idsR), ?_, ?_, ?_⟩
    · rw [List.nodup_cons, List.mem_append, List.nodup_append]
      refine ⟨?_, hnodupK, hnodupR, fun a ha b hb hab => ?_⟩
      · rintro (h | h)
        · exact hd.acyclic n (hbelow n h)
        · exact hapart n h (within_self d n)
      · exact hapart b hb (.inr (hab ▸ hbelow a ha))
    · simp only [List.map_cons, List.map_append, hkindsK, hkindsR, Forest.kinds, kind?_of_node? hx]
    · intro m hm
      rcases List.mem_cons.1 hm with rfl | hm
      · exact ⟨lt_size_of_node? hx, m, List.mem_cons_self, within_self d m⟩
      · rcases List.mem_append.1 hm with hm | hm
        · exact ⟨(hidsK m hm).1, n, List.mem_cons_self, .inr (hbelow m hm)⟩
        · obtain ⟨hlt, a, ha, hw⟩ := hidsR m hm
          exact ⟨hlt, a, List.mem_cons_of_mem _ ha, hw⟩

/-- A tree has no more nodes than its arena. -/
theorem Spells.size_le {d : Document} (hd : d.Linked) {n : NodeId} {f : Forest}
    (hf : Spells d [n] f) : f.size ≤ d.size := by
  obtain ⟨ids, hnodup, hkinds, hids⟩ :=
    hf.exists_nodup hd (List.nodup_singleton n) (d.parent? n) (by simp)
  have hsub : ids ⊆ List.range d.size := fun m hm => List.mem_range.2 (hids m hm).1
  have hlength : ids.length = f.size := by
    simpa [Forest.length_kinds] using congrArg List.length hkinds
  have hle := (List.subperm_of_subset hnodup hsub).length_le
  rwa [hlength, List.length_range] at hle

/-! ## The traversal -/

/-- What the traversal with a stack meets first. -/
theorem filterMap_visit {d : Document} {ns : List NodeId} {f : Forest} (hf : Spells d ns f)
    {fuel : Nat} (hfuel : f.size ≤ fuel) (stack : List NodeId) :
    (d.visit fuel (ns ++ stack)).filterMap d.element? =
      f.elements ++ (d.visit (fuel - f.size) stack).filterMap d.element? := by
  induction hf generalizing fuel stack with
  | nil => rfl
  | @node n ns x kids rest hx hkids hrest ihk ihr =>
    simp only [Forest.size] at hfuel
    obtain ⟨fuel, rfl⟩ : ∃ k, fuel = k + 1 := ⟨fuel - 1, by omega⟩
    have helement : d.element? n = x.kind.element? := by
      rw [element?, kind?_of_node? hx, Option.bind_some]
    have hfuelEq : fuel + 1 - (kids.size + 1 + rest.size) = fuel - kids.size - rest.size := by
      omega
    rw [List.cons_append, visit, children_of_node? hx, List.filterMap_cons, helement,
      ihk (by omega), ihr (by omega), Forest.size, hfuelEq]
    cases x.kind with
    | element e => simp [NodeKind.element?, Forest.elements]
    | comment text => simp [NodeKind.element?, Forest.elements]

theorem elements_eq {d : Document} {f : Forest} (hf : Spells d [d.root] f)
    (hsize : f.size ≤ d.size) : d.elements = f.elements := by
  have hvisit := filterMap_visit hf hsize []
  have hempty : ∀ fuel, d.visit fuel [] = [] := fun fuel => by cases fuel <;> rfl
  rw [hempty, List.filterMap_nil, List.append_nil, List.append_nil] at hvisit
  rw [← hvisit, elements, descendantElements, List.filterMap_filter, descendants]
  congr 1
  funext n
  cases h : d.element? n with
  | none => simp
  | some e => simp [isElement, h]

end Document

end LabelTemplate.Xml
