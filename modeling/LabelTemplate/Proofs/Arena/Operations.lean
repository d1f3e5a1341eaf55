import LabelTemplate.Proofs.Arena.Links

/-!
# Operations keep an arena well formed

Changing elements, detaching, inserting and stripping comments keep
`WellFormed`.  An insertion needs what its callers promise: the parent is an
element, the child is not the root, and the parent is not within the child.

`Linked.link` is the one place where a link is added; inserting a child and
hanging a copy both come down to it.
-/

namespace LabelTemplate.Xml.Document

/-! ## Changing elements -/

/-- Documents with the same links are both well linked. -/
theorem Linked.congr {d e : Document} (hd : d.Linked) (hparent : ∀ m, e.parent? m = d.parent? m)
    (hchildren : ∀ m, e.children m = d.children m)
    (helement : ∀ m, d.isElement m = true → e.isElement m = true) : e.Linked where
  parent_iff_child p c := by rw [hparent, hchildren, hd.parent_iff_child]
  children_nodup p := by
    rw [hchildren]
    exact hd.children_nodup p
  isElement_of_child p c hc := helement p (hd.isElement_of_child p c (hchildren p ▸ hc))
  acyclic n hn := hd.acyclic n (hn.mono fun m p h => by rw [← hparent]; exact h)

theorem WellFormed.congr {d e : Document} (hd : d.WellFormed) (hroot : e.root = d.root)
    (hparent : ∀ m, e.parent? m = d.parent? m) (hchildren : ∀ m, e.children m = d.children m)
    (helement : ∀ m, d.isElement m = true → e.isElement m = true) : e.WellFormed :=
  (hd.linked.congr hparent hchildren helement).wellFormed
    (by rw [hroot]; exact helement _ hd.root_isElement)
    (by rw [hroot, hparent]; exact hd.root_parent)

theorem WellFormed.updateElement {d : Document} (hd : d.WellFormed) (n : NodeId)
    (f : Element → Element) : (d.updateElement n f).WellFormed :=
  hd.congr rfl (by simp) (by simp) (by simp)

/-! ## Detaching -/

theorem below_of_below_detach {d : Document} {x a n : NodeId} (h : Below (d.detach x) a n) :
    Below d a n :=
  h.mono fun m p hp => by
    rw [parent?_detach] at hp
    split at hp
    · cases hp
    · exact hp

theorem within_of_within_detach {d : Document} {x a n : NodeId} (h : Within (d.detach x) a n) :
    Within d a n :=
  h.imp id below_of_below_detach

/-- What is outside the detached subtree stays below what it was below. -/
theorem below_detach_of_below {d : Document} {x a n : NodeId} (h : Below d a n)
    (hn : ¬ Within d x n) : Below (d.detach x) a n := by
  have hparent : ∀ {m p}, ¬ Within d x m → d.parent? m = some p →
      (d.detach x).parent? m = some p ∧ ¬ Within d x p := by
    intro m p hm hp
    refine ⟨?_, fun hw => hm (within_of_parent? hp hw)⟩
    rw [parent?_detach, if_neg fun he => hm (.inl he)]
    exact hp
  induction h with
  | child h => exact .child (hparent hn h).1
  | step h _ ih =>
    obtain ⟨hp, hout⟩ := hparent hn h
    exact .step hp (ih hout)

theorem Linked.detach {d : Document} (hd : d.Linked) (n : NodeId) : (d.detach n).Linked := by
  refine ⟨fun p c => ?_, fun p => ?_, fun p c hc => ?_, fun m hm => ?_⟩
  · rw [parent?_detach, children_detach]
    by_cases hc : c = n
    · subst hc
      rw [if_pos rfl]
      by_cases hp : d.parent? c = some p
      · simp [hp, (hd.children_nodup p).not_mem_erase]
      · simp [hp, mt (hd.parent_iff_child p c).2 hp]
    · rw [if_neg hc, hd.parent_iff_child]
      split
      · rw [List.mem_erase_of_ne hc]
      · rfl
  · rw [children_detach]
    split
    · exact (hd.children_nodup p).erase n
    · exact hd.children_nodup p
  · rw [isElement_detach]
    rw [children_detach] at hc
    split at hc
    · exact hd.isElement_of_child p c (List.mem_of_mem_erase hc)
    · exact hd.isElement_of_child p c hc
  · exact hd.acyclic m (below_of_below_detach hm)

theorem WellFormed.detach {d : Document} (hd : d.WellFormed) (n : NodeId) :
    (d.detach n).WellFormed :=
  (hd.linked.detach n).wellFormed (by simpa using hd.root_isElement) (by
    rw [root_detach, parent?_detach, hd.root_parent]
    split <;> rfl)

theorem prolog_stripComments (d : Document) : d.stripComments.prolog = d.prolog := by
  unfold stripComments
  generalize (d.descendants d.root).filter d.isComment = comments
  induction comments generalizing d with
  | nil => rfl
  | cons c comments ih => exact (ih (d.detach c)).trans (prolog_detach d c)

theorem WellFormed.stripComments {d : Document} (hd : d.WellFormed) :
    d.stripComments.WellFormed := by
  unfold Document.stripComments
  generalize (d.descendants d.root).filter d.isComment = comments
  induction comments generalizing d with
  | nil => exact hd
  | cons c comments ih => exact ih (hd.detach c)

/-! ## Adding a link -/

/-- What is below what after a node without parent got the parent `p`. -/
theorem below_of_link {d e : Document} {p c a n : NodeId}
    (hparent : ∀ m, e.parent? m = if m = c then some p else d.parent? m) (h : Below e a n) :
    Below d a n ∨ Within d c n ∧ Within d a p := by
  induction h with
  | @child n h =>
    rw [hparent] at h
    split at h
    · exact .inr ⟨.inl ‹_›, .inl (Option.some.inj h)⟩
    · exact .inl (.child h)
  | @step n q h _ ih =>
    rw [hparent] at h
    split at h
    · cases h
      refine .inr ⟨.inl ‹_›, ?_⟩
      rcases ih with hb | ⟨-, hw⟩
      · exact .inr hb
      · exact hw
    · rcases ih with hb | ⟨hc, hw⟩
      · exact .inl (.step h hb)
      · exact .inr ⟨within_of_parent? h hc, hw⟩

/-- Hanging a node without parent below an element that is not within it
keeps the links. -/
theorem Linked.link {d e : Document} (hd : d.Linked) {p c : NodeId} (i : Nat)
    (hc : d.parent? c = none) (hp : d.isElement p = true) (hout : ¬ Within d c p)
    (hparent : ∀ m, e.parent? m = if m = c then some p else d.parent? m)
    (hchildren : ∀ m, e.children m =
      if m = p then (d.children p).take i ++ c :: (d.children p).drop i else d.children m)
    (helement : ∀ m, e.isElement m = d.isElement m) : e.Linked := by
  have hfree : ∀ q, c ∉ d.children q := fun q h => by
    rw [← hd.parent_iff_child, hc] at h
    cases h
  have hperm : ((d.children p).take i ++ c :: (d.children p).drop i).Perm (c :: d.children p) := by
    have h : ((d.children p).take i ++ c :: (d.children p).drop i).Perm
        (c :: ((d.children p).take i ++ (d.children p).drop i)) := List.perm_middle
    rwa [List.take_append_drop] at h
  refine ⟨fun q m => ?_, fun q => ?_, fun q m hm => ?_, fun n hn => ?_⟩
  · rw [hparent, hchildren]
    by_cases hm : m = c
    · subst hm
      by_cases hq : q = p
      · simp [hq]
      · simp [hq, hfree q, Ne.symm hq]
    · rw [if_neg hm, hd.parent_iff_child]
      split
      · rw [hperm.mem_iff, List.mem_cons, ‹q = p›]
        simp [hm]
      · rfl
  · rw [hchildren]
    split
    · exact hperm.nodup_iff.2 (List.nodup_cons.2 ⟨hfree p, hd.children_nodup p⟩)
    · exact hd.children_nodup q
  · rw [helement]
    rw [hchildren] at hm
    split at hm
    · rw [‹q = p›]
      exact hp
    · exact hd.isElement_of_child q m hm
  · rcases below_of_link hparent hn with h | ⟨hcn, hnp⟩
    · exact hd.acyclic n h
    · exact hout (hcn.trans hnp)

/-! ## Inserting -/

theorem Linked.insertChild {d : Document} (hd : d.Linked) {p c : NodeId} (i : Nat)
    (hp : d.isElement p = true) (hc : c < d.size) (hout : ¬ Within d c p) :
    (d.insertChild p i c).Linked := by
  refine (hd.detach c).link (p := p) (c := c) i (by rw [parent?_detach, if_pos rfl]) (by simpa)
    (fun h => hout (within_of_within_detach h)) (fun m => ?_)
    (fun m => children_insertChild d i c m (lt_size_of_isElement hp)) (by simp)
  rw [parent?_insertChild d p i m hc, parent?_detach]
  split <;> rfl

theorem WellFormed.insertChild {d : Document} (hd : d.WellFormed) {p c : NodeId} (i : Nat)
    (hp : d.isElement p = true) (hc : c < d.size) (hroot : c ≠ d.root) (hout : ¬ Within d c p) :
    (d.insertChild p i c).WellFormed :=
  (hd.linked.insertChild i hp hc hout).wellFormed (by simpa using hd.root_isElement) (by
    rw [root_insertChild, parent?_insertChild d p i d.root hc, if_neg hroot.symm]
    exact hd.root_parent)

end LabelTemplate.Xml.Document
