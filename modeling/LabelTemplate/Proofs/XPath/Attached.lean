import LabelTemplate.Proofs.Arena.Order
import LabelTemplate.Proofs.Outcome
import LabelTemplate.XPath.Eval

/-!
# Steps stay in the tree

`NodeRef.IsIn d` says that a node is one of the tree of `d`: its document
node, or an element, a comment, an attribute or the text of an element that
hangs below the root.  From such a node every axis leads to such nodes only
(`allIn_axisNodes`), and tests and predicates leave nodes out but add none
(`takeStep_allIn`).
-/

namespace LabelTemplate.XPath

open Xml Document

/-- A node of the tree of a document, named for what it is. -/
def NodeRef.IsIn (d : Document) : NodeRef → Prop
  | .document => True
  | .element id | .attribute id _ | .text id => d.InTree id
  | .comment id => Within d d.root id ∧ d.isComment id = true

/-- All of these are nodes of the tree of the document with this key. -/
def AllIn (d : Document) (key : DocKey) (hs : List Handle) : Prop :=
  ∀ h ∈ hs, h.doc = key ∧ h.node.IsIn d

section AllIn

variable {d : Document} {key : DocKey} {hs ks : List Handle}

theorem allIn_nil : AllIn d key [] := by simp [AllIn]

theorem allIn_cons {h : Handle} :
    AllIn d key (h :: hs) ↔ (h.doc = key ∧ h.node.IsIn d) ∧ AllIn d key hs := by
  simp [AllIn]

theorem allIn_append : AllIn d key (hs ++ ks) ↔ AllIn d key hs ∧ AllIn d key ks :=
  List.forall_mem_append

theorem AllIn.subset (h : AllIn d key hs) (hsub : ks ⊆ hs) : AllIn d key ks :=
  fun k hk => h k (hsub hk)

theorem allIn_flatMap {α : Type} {f : α → List Handle} {xs : List α}
    (h : ∀ x ∈ xs, AllIn d key (f x)) : AllIn d key (xs.flatMap f) := by
  intro k hk
  obtain ⟨x, hx, hkx⟩ := List.mem_flatMap.1 hk
  exact h x hx k hkx

end AllIn

/-! ## Axes -/

theorem allIn_attributeNodes {d : Document} {h : Handle} (hin : h.node.IsIn d) :
    AllIn d h.doc (attributeNodes d h) := by
  obtain ⟨doc, node⟩ := h
  cases node with
  | element id =>
    intro k hk
    obtain ⟨i, -, rfl⟩ := List.mem_map.1 hk
    exact ⟨rfl, hin⟩
  | _ => exact allIn_nil

section Axes

variable {d : Document} (hd : d.WellFormed) {key : DocKey} {h : Handle} (hkey : h.doc = key)
  (hin : h.node.IsIn d)

include hd

theorem isIn_treeNode (key : DocKey) {n : NodeId} (hn : Within d d.root n) :
    (treeNode d key n).node.IsIn d := by
  unfold treeNode
  cases hcomment : d.isComment n with
  | true => exact ⟨hn, hcomment⟩
  | false =>
    exact ⟨hn, isElement_of_isComment_eq_false (hd.lt_size_of_within_root hn) hcomment⟩

theorem allIn_treeNodes {key : DocKey} {p : NodeId} (hp : Within d d.root p) {cs : List NodeId}
    (hcs : cs ⊆ d.children p) : AllIn d key (cs.map (treeNode d key)) := by
  intro k hk
  obtain ⟨c, hc, rfl⟩ := List.mem_map.1 hk
  have hparent : d.parent? c = some p := (hd.parent_iff_child p c).2 (hcs hc)
  exact ⟨rfl, isIn_treeNode hd key (within_of_parent? hparent hp)⟩

include hkey hin

theorem allIn_childNodes : AllIn d key (childNodes d h) := by
  obtain ⟨doc, node⟩ := h
  subst hkey
  match node, hin with
  | .document, _ => exact allIn_cons.2 ⟨⟨rfl, hd.inTree_root⟩, allIn_nil⟩
  | .element id, hin =>
    refine allIn_append.2 ⟨?_, allIn_treeNodes hd hin.1 (List.Subset.refl _)⟩
    split
    · exact allIn_cons.2 ⟨⟨rfl, hin⟩, allIn_nil⟩
    · exact allIn_nil
  | .attribute _ _, _ | .text _, _ | .comment _, _ => exact allIn_nil

theorem isIn_parentNode {p : Handle} (hp : parentNode? d h = some p) :
    p.doc = key ∧ p.node.IsIn d := by
  obtain ⟨doc, node⟩ := h
  subst hkey
  have hup : ∀ {id : NodeId}, Within d d.root id →
      (if id = d.root then some ⟨doc, .document⟩
        else (d.parent? id).map fun q => ⟨doc, .element q⟩) = some p →
      p.doc = doc ∧ p.node.IsIn d := by
    intro id hid hp
    split at hp
    · cases hp
      exact ⟨rfl, trivial⟩
    · obtain ⟨q, hq, rfl⟩ := Option.map_eq_some_iff.1 hp
      exact ⟨rfl, hd.inTree_parent hid hq⟩
  match node, hin with
  | .document, _ => cases hp
  | .element _, hin | .comment _, hin => exact hup hin.1 hp
  | .attribute _ _, hin | .text _, hin =>
    cases hp
    exact ⟨rfl, hin⟩

theorem allIn_nodesBelow (fuel : Nat) : AllIn d key (nodesBelow d fuel h) := by
  induction fuel generalizing h with
  | zero => exact allIn_nil
  | succ fuel ih =>
    refine allIn_flatMap fun c hc => ?_
    have hchild := allIn_childNodes hd hkey hin c hc
    exact allIn_cons.2 ⟨hchild, ih hchild.1 hchild.2⟩

theorem allIn_nodesAbove (fuel : Nat) : AllIn d key (nodesAbove d fuel h) := by
  induction fuel generalizing h with
  | zero => exact allIn_nil
  | succ fuel ih =>
    unfold nodesAbove
    split
    · have hparent := isIn_parentNode hd hkey hin ‹_›
      exact allIn_cons.2 ⟨hparent, ih hparent.1 hparent.2⟩
    · exact allIn_nil

theorem allIn_siblings (following : Bool) : AllIn d key (siblings d h following) := by
  obtain ⟨doc, node⟩ := h
  subst hkey
  have hfound : ∀ {id p i : NodeId}, Within d d.root id → d.parent? id = some p → AllIn d doc
      ((if following then (d.children p).drop (i + 1)
        else ((d.children p).take i).reverse).map (treeNode d doc)) := by
    intro id p i hid hp
    refine allIn_treeNodes hd (hd.inTree_parent hid hp).1 ?_
    split
    · exact List.drop_subset _ _
    · exact List.reverse_subset.2 (List.take_subset _ _)
  unfold siblings
  cases node with
  | element id | comment id =>
    simp only
    split
    · exact hfound hin.1 ‹_›
    · exact allIn_nil
  | _ => exact allIn_nil

/-- From a node of the tree every axis leads to nodes of the tree. -/
theorem allIn_axisNodes (axis : Axis) : AllIn d key (axisNodes d h axis) := by
  have hself : ∀ {hs}, AllIn d key hs → AllIn d key (h :: hs) := fun hhs =>
    allIn_cons.2 ⟨⟨hkey, hin⟩, hhs⟩
  match axis with
  | .child => exact allIn_childNodes hd hkey hin
  | .descendant => exact allIn_nodesBelow hd hkey hin _
  | .descendantOrSelf => exact hself (allIn_nodesBelow hd hkey hin _)
  | .parent =>
    intro p hp
    exact isIn_parentNode hd hkey hin (Option.mem_toList.1 hp)
  | .ancestor => exact allIn_nodesAbove hd hkey hin _
  | .ancestorOrSelf => exact hself (allIn_nodesAbove hd hkey hin _)
  | .followingSibling => exact allIn_siblings hd hkey hin true
  | .precedingSibling => exact allIn_siblings hd hkey hin false
  | .attribute => exact hkey ▸ allIn_attributeNodes hin
  | .self => exact hself allIn_nil

end Axes

/-! ## Predicates -/

namespace Scope

theorem sublist_of_filterNodes {size : Nat} {predicate : CallContext → Except Error Value}
    {position : Nat} {hs ks : List Handle}
    (hok : filterNodes size predicate position hs = .ok ks) : ks.Sublist hs := by
  induction hs generalizing position ks with
  | nil =>
    cases hok
    exact .slnil
  | cons h hs ih =>
    obtain ⟨v, -, hok⟩ := Outcome.bind_eq_ok.1 hok
    obtain ⟨rest, hrest, hok⟩ := Outcome.bind_eq_ok.1 hok
    cases hok
    split
    · exact (ih hrest).cons_cons h
    · exact (ih hrest).cons h

/-- Predicates only leave nodes out. -/
theorem sublist_of_applyPredicates {s : Scope} {hs ks : List Handle} {predicates : List Expr}
    (hok : s.applyPredicates hs predicates = .ok ks) : ks.Sublist hs := by
  induction predicates generalizing hs with
  | nil =>
    unfold applyPredicates at hok
    cases hok
    exact .refl _
  | cons p ps ih =>
    unfold applyPredicates at hok
    obtain ⟨kept, hkept, hok⟩ := Outcome.bind_eq_ok.1 hok
    exact (ih hok).trans (sublist_of_filterNodes hkept)

/-- A step reaches nodes of the tree. -/
theorem takeStep_allIn {s : Scope} {d : Document} (hd : d.WellFormed) {h : Handle}
    (hdoc : s.docs[h.doc]? = some d) (hin : h.node.IsIn d) {step : Step} {ks : List Handle}
    (hok : s.takeStep h step = .ok ks) : AllIn d h.doc ks := by
  obtain ⟨axis, test, predicates⟩ := step
  unfold takeStep at hok
  obtain ⟨d', hd', hok⟩ := Outcome.bind_eq_ok.1 hok
  obtain ⟨candidates, hcandidates, hok⟩ := Outcome.bind_eq_ok.1 hok
  have hsame : d' = d := by
    unfold Scope.document at hd'
    rw [hdoc] at hd'
    exact (Except.ok.inj hd').symm
  subst hsame
  have hsub := (sublist_of_applyPredicates hok).trans (Outcome.sublist_of_filterM hcandidates)
  exact (allIn_axisNodes hd rfl hin axis).subset hsub.subset

end Scope

end LabelTemplate.XPath
