import LabelTemplate.Proofs.Walk.Fetching

/-!
# Counterparts below one parent and below several

The path of an element ends with a number exactly if it has siblings of its name.
Without the number all counterparts are found, with it at most one below each
parent.  So if all counterparts are siblings the numbered paths share them out
(`Siblings.findAll_numbered`); else a number leaves one below each of several
parents, and the path goes on to find more than one (`two_le_of_scattered`).
-/

namespace LabelTemplate

namespace Xml.Document

variable {d : Document} {above : ElementPath} {segment : PathSegment} {p q m : NodeId}

/-- The nodes have one parent. -/
def Siblings (d : Document) (ns : List NodeId) : Prop := ∃ p, ∀ m ∈ ns, d.parent? m = some p

theorem exists_parent_of_mem_findAll (hd : d.Linked) (h : m ∈ d.findAll (above ++ [segment])) :
    ∃ p ∈ d.findAll above, d.parent? m = some p ∧ m ∈ d.stepInto segment p := by
  rw [findAll_append, List.mem_flatMap] at h
  obtain ⟨p, hp, hm⟩ := h
  exact ⟨p, hp, parent_of_mem_stepInto hd hm, hm⟩

/-- Below a single parent the last step finds what it leads to from there. -/
theorem findAll_below (hd : d.Linked) (hp : p ∈ d.findAll above)
    (hothers : ∀ q ∈ d.findAll above, q ≠ p → d.stepInto segment q = []) :
    d.findAll (above ++ [segment]) = d.stepInto segment p := by
  obtain ⟨front, back, hsplit⟩ := List.append_of_mem hp
  have hnodup := nodup_findAll hd above
  rw [hsplit, List.nodup_append, List.nodup_cons] at hnodup
  obtain ⟨-, ⟨hback, -⟩, hfront⟩ := hnodup
  rw [hsplit] at hothers
  have hnone : ∀ ns : List NodeId, (∀ q ∈ ns, q ∈ front ++ p :: back ∧ q ≠ p) →
      ns.flatMap (d.stepInto segment) = [] := fun ns hns =>
    List.flatMap_eq_nil_iff.2 fun q hq => hothers q (hns q hq).1 (hns q hq).2
  rw [findAll_append, hsplit, List.flatMap_append, List.flatMap_cons, hnone front, hnone back,
    List.nil_append, List.append_nil]
  · exact fun q hq => ⟨by simp [hq], fun hqp => hback (hqp ▸ hq)⟩
  · exact fun q hq => ⟨by simp [hq], fun hqp => hfront q hq p List.mem_cons_self hqp⟩

section Siblings

variable {uri : Option String} {localName : String}

/-- Of counterparts that are siblings each number finds one. -/
theorem Siblings.findAll_numbered (hd : d.Linked)
    (h : Siblings d (d.findAll (above ++ [⟨uri, localName, none⟩]))) (i : Nat) :
    d.findAll (above ++ [⟨uri, localName, some (i + 1)⟩]) =
      (d.findAll (above ++ [⟨uri, localName, none⟩]))[i]?.toList := by
  obtain ⟨p, hp⟩ := h
  -- below any other parent there is none of this name
  have hothers : ∀ q ∈ d.findAll above, q ≠ p → d.stepInto ⟨uri, localName, none⟩ q = [] := by
    intro q hq hne
    refine List.eq_nil_iff_forall_not_mem.2 fun m hm => hne ?_
    have hfound : m ∈ d.findAll (above ++ [⟨uri, localName, none⟩]) := by
      rw [findAll_append]
      exact List.mem_flatMap.2 ⟨q, hq, hm⟩
    exact Option.some.inj ((parent_of_mem_stepInto hd hm).symm.trans (hp m hfound))
  have hnumbered : ∀ q ∈ d.findAll above, q ≠ p →
      d.stepInto ⟨uri, localName, some (i + 1)⟩ q = [] := fun q hq hne => by
    change (d.stepInto ⟨uri, localName, none⟩ q)[i]?.toList = []
    rw [hothers q hq hne]
    rfl
  by_cases hpmem : p ∈ d.findAll above
  · rw [findAll_below hd hpmem hothers, findAll_below hd hpmem hnumbered]
    rfl
  · have hnone : ∀ q ∈ d.findAll above, q ≠ p := fun q hq hqp => hpmem (hqp ▸ hq)
    rw [findAll_append, findAll_append,
      List.flatMap_eq_nil_iff.2 fun q hq => hnumbered q hq (hnone q hq),
      List.flatMap_eq_nil_iff.2 fun q hq => hothers q hq (hnone q hq)]
    rfl

/-- A number finds at most one of them. -/
theorem Siblings.length_le_one (hd : d.Linked) {i : Nat}
    (h : Siblings d (d.findAll (above ++ [⟨uri, localName, some i⟩]))) :
    (d.findAll (above ++ [⟨uri, localName, some i⟩])).length ≤ 1 := by
  obtain ⟨p, hp⟩ := h
  have hone : (d.stepInto ⟨uri, localName, some i⟩ p).length ≤ 1 := by
    match i with
    | 0 => exact Nat.zero_le _
    | i + 1 => exact Option.length_toList_le
  have hstep : ∀ m ∈ d.findAll (above ++ [⟨uri, localName, some i⟩]),
      m ∈ d.stepInto ⟨uri, localName, some i⟩ p := by
    intro m hm
    obtain ⟨q, -, hq, hstep⟩ := exists_parent_of_mem_findAll hd hm
    obtain rfl : q = p := Option.some.inj (hq.symm.trans (hp m hm))
    exact hstep
  exact ((nodup_findAll hd _).subperm hstep).length_le.trans hone

/-- Below each of several parents the first one is found. -/
theorem two_le_of_first (hd : d.Linked)
    (h : ¬ Siblings d (d.findAll (above ++ [⟨uri, localName, none⟩]))) :
    2 ≤ (d.findAll (above ++ [⟨uri, localName, some 1⟩])).length := by
  have hfirst : ∀ m ∈ d.findAll (above ++ [⟨uri, localName, none⟩]),
      ∃ a ∈ d.findAll (above ++ [⟨uri, localName, some 1⟩]), d.parent? a = d.parent? m := by
    intro m hm
    obtain ⟨p, hp, hparent, hmem⟩ := exists_parent_of_mem_findAll hd hm
    obtain ⟨a, rest, hall⟩ := List.exists_cons_of_ne_nil (List.ne_nil_of_mem hmem)
    have ha : a ∈ d.stepInto ⟨uri, localName, some 1⟩ p := by
      change a ∈ (d.stepInto ⟨uri, localName, none⟩ p)[0]?.toList
      simp [hall]
    refine ⟨a, ?_, (parent_of_mem_stepInto hd ha).trans hparent.symm⟩
    rw [findAll_append]
    exact List.mem_flatMap.2 ⟨p, hp, ha⟩
  by_contra hfew
  refine h ?_
  match hfound : d.findAll (above ++ [⟨uri, localName, some 1⟩]) with
  | [] =>
    refine ⟨d.root, fun m hm => ?_⟩
    obtain ⟨a, ha, -⟩ := hfirst m hm
    rw [hfound] at ha
    cases ha
  | [a] =>
    obtain ⟨p, -, hparent, -⟩ := exists_parent_of_mem_findAll hd (hfound ▸ List.mem_singleton_self a)
    refine ⟨p, fun m hm => ?_⟩
    obtain ⟨b, hb, hsame⟩ := hfirst m hm
    rw [hfound, List.mem_singleton] at hb
    rw [← hsame, hb, hparent]
  | a :: b :: rest =>
    rw [hfound] at hfew
    simp at hfew

end Siblings

end Xml.Document

namespace TreeWalk.Place

open Xml Document

variable {d : Document} {above : ElementPath} {before after after' i j : Nat} {name : QName}

/-- How many siblings of the name come after an element does not matter to its
path if there are some. -/
theorem path_eq_of_later (h : after ≠ 0) (h' : after' ≠ 0) :
    (⟨above, before, after⟩ : Place).path name = (⟨above, before, after'⟩ : Place).path name := by
  have hne : before + after ≠ 0 := by omega
  have hne' : before + after' ≠ 0 := by omega
  simp only [path, if_neg hne, if_neg hne']

/-- Several counterparts that are siblings are found by a path without a number,
and shared out by the paths with one. -/
theorem findAll_shared (hd : d.Linked)
    (hmany : 2 ≤ (d.findAll ((⟨above, before, after⟩ : Place).path name)).length)
    (h : Siblings d (d.findAll ((⟨above, before, after⟩ : Place).path name))) :
    before + after = 0 ∧ ∀ i j, i + j ≠ 0 →
      d.findAll ((⟨above, i, j⟩ : Place).path name) =
        (d.findAll ((⟨above, before, after⟩ : Place).path name))[i]?.toList := by
  have hzero : before + after = 0 := by
    by_contra hne
    simp only [Place.path, if_neg hne] at hmany h
    exact absurd (h.length_le_one hd) (by omega)
  refine ⟨hzero, fun i j hij => ?_⟩
  simp only [Place.path, if_pos hzero, if_neg hij] at h ⊢
  exact h.findAll_numbered hd i

/-- Of several counterparts that are no siblings a later element of the name
leaves several. -/
theorem two_le_of_scattered (hd : d.Linked)
    (hmany : 2 ≤ (d.findAll ((⟨above, before, after⟩ : Place).path name)).length)
    (h : ¬ Siblings d (d.findAll ((⟨above, before, after⟩ : Place).path name)))
    (hafter : after' ≠ 0) :
    2 ≤ (d.findAll ((⟨above, before, after'⟩ : Place).path name)).length := by
  have hne : before + after' ≠ 0 := by omega
  by_cases hzero : before + after = 0
  · obtain rfl : before = 0 := by omega
    simp only [Place.path, if_pos hzero] at h
    simp only [Place.path, if_neg hne]
    exact two_le_of_first hd h
  · simp only [Place.path, if_neg hzero] at hmany
    simp only [Place.path, if_neg hne]
    exact hmany

end TreeWalk.Place

end LabelTemplate
