import LabelTemplate.Proofs.Arena.Order
import LabelTemplate.Proofs.Reading.Run

/-!
# What a path finds

`LeadsTo` says without any search where a path leads from a node: each step
goes to a child that is an element with the expanded name of the step, and a
step with a number to the one that has so many of that name up to it.

* `mem_stepInto_iff` is one step, `mem_foldl_stepInto` a whole path, from any
  list of nodes that the search may have reached.
* No element that is found is above another one: they are within different
  children of a node (`Apart`), and the next step keeps this
  (`pairwise_foldl_stepInto`).  So the search, which goes level by level, ends
  with its findings in document order, each once.

Together they are `WellFormed.findAll_exact`.
-/

namespace LabelTemplate.Xml.Document

/-- The node is an element with the expanded name of the step. -/
def hasNameOf (d : Document) (segment : PathSegment) (n : NodeId) : Bool :=
  (d.name? n).any (·.hasName segment.namespaceUri segment.localName)

/-- `c` is a child of `p` that the step names.  If the step has a number, it is
the number of `c` among the children of that name, counted from 1. -/
def StepsTo (d : Document) (segment : PathSegment) (p c : NodeId) : Prop :=
  d.hasNameOf segment c = true ∧ ∃ before after, d.children p = before ++ c :: after ∧
    ∀ i, segment.index = some i → before.countP (d.hasNameOf segment) + 1 = i

/-- The steps of the path lead down from one node to another. -/
inductive LeadsTo (d : Document) : NodeId → ElementPath → NodeId → Prop where
  | here (n : NodeId) : LeadsTo d n [] n
  | step {p c m : NodeId} {segment : PathSegment} {path : ElementPath}
      (hstep : d.StepsTo segment p c) (hrest : LeadsTo d c path m) :
      LeadsTo d p (segment :: path) m

variable {d : Document} {segment : PathSegment} {path : ElementPath} {p c m n : NodeId}

/-! ## One step -/

theorem childrenNamed_of_segment (d : Document) (p : NodeId) (segment : PathSegment) :
    d.childrenNamed p segment.namespaceUri segment.localName =
      (d.children p).filter (d.hasNameOf segment) :=
  childrenNamed_eq_filter d p _ _

/-- The member at a position of a filtered list has so many members that pass
in front of it. -/
theorem getElem?_filter_iff {l : List NodeId} {q : NodeId → Bool} {i : Nat} :
    (l.filter q)[i]? = some c ↔
      q c = true ∧ ∃ before after, l = before ++ c :: after ∧ before.countP q = i := by
  constructor
  · intro h
    induction l generalizing i with
    | nil => simp at h
    | cons x l ih =>
      by_cases hx : q x = true
      · rw [List.filter_cons_of_pos hx] at h
        cases i with
        | zero =>
          obtain rfl : x = c := by simpa using h
          exact ⟨hx, [], l, rfl, rfl⟩
        | succ i =>
          obtain ⟨hc, before, after, rfl, hcount⟩ := ih (by simpa using h)
          exact ⟨hc, x :: before, after, rfl, by simp [hx, hcount]⟩
      · rw [List.filter_cons_of_neg hx] at h
        obtain ⟨hc, before, after, rfl, hcount⟩ := ih h
        exact ⟨hc, x :: before, after, rfl, by simp [hx, hcount]⟩
  · rintro ⟨hc, before, after, rfl, rfl⟩
    simp [List.filter_append, hc, List.countP_eq_length_filter]

/-- A step finds the children that it names, and only them. -/
theorem mem_stepInto_iff : c ∈ d.stepInto segment p ↔ d.StepsTo segment p c := by
  simp only [stepInto, childrenNamed_of_segment, StepsTo]
  match segment.index with
  | none => simp [← List.mem_iff_append, and_comm]
  | some 0 => simp
  | some (i + 1) => simp [getElem?_filter_iff]

theorem stepInto_sublist (d : Document) (segment : PathSegment) (p : NodeId) :
    (d.stepInto segment p).Sublist
      (d.childrenNamed p segment.namespaceUri segment.localName) := by
  unfold stepInto
  match segment.index with
  | none => exact List.Sublist.refl _
  | some 0 => exact List.nil_sublist _
  | some (i + 1) =>
    cases hget : (d.childrenNamed p segment.namespaceUri segment.localName)[i]? with
    | none => simp [hget]
    | some c => simpa [hget] using List.mem_of_getElem? hget

theorem mem_childrenNamed_of_mem_stepInto (h : c ∈ d.stepInto segment p) :
    c ∈ d.childrenNamed p segment.namespaceUri segment.localName :=
  (stepInto_sublist d segment p).subset h

theorem parent_of_mem_stepInto (hd : d.Linked) (h : c ∈ d.stepInto segment p) :
    d.parent? c = some p :=
  (hd.parent_iff_child p c).2 (mem_childrenNamed.1 (mem_childrenNamed_of_mem_stepInto h)).1

/-! ## All steps -/

/-- What the search has found after some steps is where they lead from the
nodes that it started with. -/
theorem mem_foldl_stepInto {found : List NodeId} :
    m ∈ path.foldl (fun found segment => found.flatMap (d.stepInto segment)) found ↔
      ∃ n ∈ found, d.LeadsTo n path m := by
  induction path generalizing found with
  | nil =>
    constructor
    · intro h
      exact ⟨m, h, .here m⟩
    · rintro ⟨n, hn, ⟨⟩⟩
      exact hn
  | cons segment path ih =>
    rw [List.foldl_cons, ih]
    constructor
    · rintro ⟨c, hc, hrest⟩
      obtain ⟨p, hp, hstep⟩ := List.mem_flatMap.1 hc
      exact ⟨p, hp, .step (mem_stepInto_iff.1 hstep) hrest⟩
    · rintro ⟨p, hp, hlead⟩
      cases hlead with
      | step hstep hrest => exact ⟨_, List.mem_flatMap.2 ⟨p, hp, mem_stepInto_iff.2 hstep⟩, hrest⟩

/-- Where a path leads from an element is an element. -/
theorem LeadsTo.isElement (h : d.LeadsTo n path m) (hn : d.isElement n = true) :
    d.isElement m = true := by
  induction h with
  | here n => exact hn
  | @step p c m segment path hstep _ ih =>
    refine ih ?_
    have hname := hstep.1
    rw [hasNameOf] at hname
    rw [← name?_isSome]
    cases hq : d.name? c with
    | none => simp [hq] at hname
    | some q => rfl

/-! ## The order of the findings -/

/-- The nodes are within two children of one node, in this order. -/
def Apart (d : Document) (m n : NodeId) : Prop :=
  ∃ p a b, [a, b].Sublist (d.children p) ∧ Within d a m ∧ Within d b n

theorem Apart.earlier (h : Apart d m n) : Earlier d m n := by
  obtain ⟨p, a, b, hab, ha, hb⟩ := h
  exact .aside hab ha hb

/-- Children of nodes that are apart are apart. -/
theorem Apart.children (h : Apart d m n) {x y : NodeId} (hx : d.parent? x = some m)
    (hy : d.parent? y = some n) : Apart d x y := by
  obtain ⟨p, a, b, hab, ha, hb⟩ := h
  exact ⟨p, a, b, hab, within_of_parent? hx ha, within_of_parent? hy hb⟩

theorem pairwise_stepInto (d : Document) (segment : PathSegment) (p : NodeId) :
    (d.stepInto segment p).Pairwise (Apart d) :=
  List.pairwise_iff_forall_sublist.2 fun {a b} hab =>
    ⟨p, a, b, (hab.trans (stepInto_sublist d segment p)).trans (childrenNamed_sublist d p _ _),
      within_self d a, within_self d b⟩

/-- The search keeps its findings apart. -/
theorem pairwise_foldl_stepInto (hd : d.Linked) {found : List NodeId}
    (h : found.Pairwise (Apart d)) :
    (path.foldl (fun found segment => found.flatMap (d.stepInto segment)) found).Pairwise
      (Apart d) := by
  induction path generalizing found with
  | nil => exact h
  | cons segment path ih =>
    rw [List.foldl_cons]
    apply ih
    rw [List.pairwise_flatMap]
    constructor
    · intro p _
      exact pairwise_stepInto d segment p
    · refine h.imp fun hpq x hx y hy => ?_
      exact hpq.children (parent_of_mem_stepInto hd hx) (parent_of_mem_stepInto hd hy)

theorem pairwise_findAll (hd : d.Linked) (path : ElementPath) :
    (d.findAll path).Pairwise (Earlier d) := by
  have hapart : (d.findAll path).Pairwise (Apart d) :=
    pairwise_foldl_stepInto hd (List.pairwise_singleton _ _)
  exact hapart.imp Apart.earlier

/-- Every element is found once. -/
theorem nodup_findAll (hd : d.Linked) (path : ElementPath) : (d.findAll path).Nodup :=
  (pairwise_findAll hd path).imp fun h => h.ne hd

/-- A path finds the elements to which it leads from the root, all of them and
no others, each once and in document order. -/
theorem WellFormed.findAll_exact (hd : d.WellFormed) (path : ElementPath) :
    (∀ m, m ∈ d.findAll path ↔ d.isElement m = true ∧ d.LeadsTo d.root path m) ∧
      (d.findAll path).Nodup ∧ (d.findAll path).Pairwise (Earlier d) := by
  refine ⟨fun m => ?_, nodup_findAll hd.linked path, pairwise_findAll hd.linked path⟩
  rw [findAll, mem_foldl_stepInto]
  constructor
  · rintro ⟨n, hn, hlead⟩
    obtain rfl := List.mem_singleton.1 hn
    exact ⟨hlead.isElement hd.root_isElement, hlead⟩
  · rintro ⟨-, hlead⟩
    exact ⟨d.root, List.mem_singleton_self _, hlead⟩

/-- Two sections around a title.  Among their items stand a comment and an item
of another namespace. -/
def sections : Document :=
  .ofTree [] { name := .plain "a" } none
    (.node (.element { name := .plain "section" }) none
      (.node (.element { name := .plain "item" }) none .nil
        (.node (.comment "between") none .nil
          (.node (.element { name := .plain "item" }) none .nil .nil)))
      (.node (.element { name := .plain "title" }) none .nil
        (.node (.element { name := .plain "section" }) none
          (.node (.element { name := .plain "item" }) none .nil
            (.node (.element { name := ⟨some "p", some "u", "item"⟩ }) none .nil
              (.node (.element { name := .plain "item" }) none .nil .nil))) .nil)))

theorem sections_wellFormed : sections.WellFormed :=
  wellFormed_ofTree (by simp [Forest.Proper, NodeKind.isElement, NodeKind.element?]) _

theorem findAll_exact_sections :
    sections.findAll [⟨none, "section", none⟩, ⟨none, "item", some 2⟩] = [4, 9] ∧
      Earlier sections 4 9 ∧
      sections.LeadsTo 0 [⟨none, "section", some 2⟩, ⟨none, "item", none⟩] 9 ∧
      (∀ m, ¬ sections.LeadsTo 0 [⟨none, "section", some 0⟩] m) ∧
      ¬ sections.LeadsTo 0 [⟨none, "section", some 2⟩, ⟨none, "item", some 3⟩] 9 := by
  have hexact := sections_wellFormed.findAll_exact
  have hfound : sections.findAll [⟨none, "section", none⟩, ⟨none, "item", some 2⟩] = [4, 9] := by
    decide +kernel
  refine ⟨hfound, ?_, ?_, fun m hm => ?_, fun hm => ?_⟩
  · have horder := (hexact [⟨none, "section", none⟩, ⟨none, "item", some 2⟩]).2.2
    rw [hfound] at horder
    exact List.rel_of_pairwise_cons horder List.mem_cons_self
  · exact (((hexact _).1 9).1 (by decide +kernel)).2
  · have helement := hm.isElement sections_wellFormed.root_isElement
    exact absurd (((hexact _).1 m).2 ⟨helement, hm⟩) List.not_mem_nil
  · exact absurd (((hexact _).1 9).2 ⟨by decide +kernel, hm⟩) (by decide +kernel)

end LabelTemplate.Xml.Document
