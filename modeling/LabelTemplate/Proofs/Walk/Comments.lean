import LabelTemplate.Proofs.Outcome
import LabelTemplate.Proofs.Walk.Drafts
import LabelTemplate.Proofs.Writing.Trimming

/-!
# The walk goes past comments

`Stripped` relates what differs in comments only, for forests and for drafts.
No step of the walk sees the difference: a visit leaves a comment as it is, the
comments among siblings count neither for paths nor for what is a leaf, and a
comment has nothing open.  So the drafts of a template with and without its
comments differ in those comments only (`DraftWalk.root_stripped`).
-/

namespace LabelTemplate

open Xml Outcome

/-! ## Without comments -/

/-- The second forest is the first one without its comments. -/
inductive Xml.Forest.Stripped : Forest → Forest → Prop
  | nil : Stripped .nil .nil
  | comment (text : String) (line : Option Nat) {rest rest' : Forest}
      (hrest : Stripped rest rest') : Stripped (.node (.comment text) line .nil rest) rest'
  | element (e : Element) (line : Option Nat) {kids kids' rest rest' : Forest}
      (hkids : Stripped kids kids') (hrest : Stripped rest rest') :
      Stripped (.node (.element e) line kids rest) (.node (.element e) line kids' rest')

/-- The second draft is the first one without its comments, on which nothing is
open. -/
inductive Draft.Stripped : Draft → Draft → Prop
  | nil : Stripped .nil .nil
  | comment (text : String) (line : Option Nat) {rest rest' : Draft}
      (hrest : Stripped rest rest') : Stripped (.node (.comment text) line {} .nil rest) rest'
  | element (e : Element) (line : Option Nat) (pending : Pending) {kids kids' rest rest' : Draft}
      (hkids : Stripped kids kids') (hrest : Stripped rest rest') :
      Stripped (.node (.element e) line pending kids rest)
        (.node (.element e) line pending kids' rest')

/-- A tree with and without the comments below it, or none. -/
inductive Draft.TreeStripped : Draft → Draft → Prop
  | nil : TreeStripped .nil .nil
  | element (e : Element) (line : Option Nat) (pending : Pending) {kids kids' : Draft}
      (hkids : kids.Stripped kids') :
      TreeStripped (.node (.element e) line pending kids .nil)
        (.node (.element e) line pending kids' .nil)

namespace Xml.Forest

theorem stripped_withoutComments {f : Forest} (hf : f.Proper) : Stripped f f.withoutComments := by
  induction f with
  | nil => exact .nil
  | node kind line kids rest ihkids ihrest =>
    obtain ⟨hkind, hkids, hrest⟩ := hf
    cases kind with
    | element e => exact .element e line (ihkids hkids) (ihrest hrest)
    | comment text =>
      have hnil : kids = .nil := by
        by_contra hne
        cases hkind hne
      subst hnil
      exact .comment text line (ihrest hrest)

namespace Stripped

variable {f f' : Forest}

theorem eq_withoutComments (h : Stripped f f') : f' = f.withoutComments := by
  induction h with
  | nil => rfl
  | comment text line _ ih => exact ih
  | element e line _ _ ihkids ihrest => rw [withoutComments, ihkids, ihrest]

theorem hasElement_eq (h : Stripped f f') : f'.hasElement = f.hasElement := by
  induction h with
  | nil => rfl
  | comment text line _ ih => exact ih
  | element e line _ _ _ _ => rfl

theorem named_eq (h : Stripped f f') (name : QName) : f'.named name = f.named name := by
  induction h with
  | nil => rfl
  | comment text line _ ih => exact ih.trans (Nat.zero_add _).symm
  | element e line _ _ _ ihrest => rw [named, named, ihrest]

theorem elements_eq (h : Stripped f f') : f'.elements = f.elements := by
  induction h with
  | nil => rfl
  | comment text line _ ih => exact ih
  | element e line _ _ ihkids ihrest => rw [elements, elements, ihkids, ihrest]

end Stripped

end Xml.Forest

namespace Draft.Stripped

variable {δ δ' ε ε' : Draft}

theorem ofForest {f f' : Forest} (h : f.Stripped f') :
    Draft.Stripped (.ofForest f) (.ofForest f') := by
  induction h with
  | nil => exact .nil
  | comment text line _ ih => exact .comment text line ih
  | element e line _ _ ihkids ihrest => exact .element e line {} ihkids ihrest

theorem append (h : Stripped δ δ') (h' : Stripped ε ε') : Stripped (δ ++ ε) (δ' ++ ε') := by
  induction h with
  | nil => exact h'
  | comment text line _ ih => exact .comment text line ih
  | element e line pending hkids _ _ ihrest => exact .element e line pending hkids ihrest

theorem forest (h : Stripped δ δ') : δ.forest.Stripped δ'.forest := by
  induction h with
  | nil => exact .nil
  | comment text line _ ih => exact .comment text line ih
  | element e line pending _ _ ihkids ihrest => exact .element e line ihkids ihrest

end Draft.Stripped

theorem Draft.TreeStripped.stripped {δ δ' : Draft} (h : δ.TreeStripped δ') : δ.Stripped δ' := by
  cases h with
  | nil => exact .nil
  | element e line pending hkids => exact .element e line pending hkids .nil

/-! ## The walk -/

namespace DraftWalk

/-- A visit leaves comments as they are, and does not see those below an
element. -/
structure PastComments (visit : Visit) : Prop where
  comment : ∀ s site text line, visit s site (.node (.comment text) line .nil .nil) =
    .ok (.ofForest (.node (.comment text) line .nil .nil))
  element : ∀ s site e line {kids kids' : Forest}, kids.Stripped kids' →
    Alike Draft.Stripped (visit s site (.node (.element e) line kids .nil))
      (visit s site (.node (.element e) line kids' .nil))

/-- Trees of which the comments are left out. -/
inductive RowStripped : Row → Row → Prop
  | nil : RowStripped [] []
  | comment (s : ElementState) (text : String) (line : Option Nat) {row row' : Row}
      (hrow : RowStripped row row') :
      RowStripped ((s, .node (.comment text) line .nil .nil) :: row) row'
  | element (s : ElementState) (e : Element) (line : Option Nat) {kids kids' : Forest}
      (hkids : kids.Stripped kids') {row row' : Row} (hrow : RowStripped row row') :
      RowStripped ((s, .node (.element e) line kids .nil) :: row)
        ((s, .node (.element e) line kids' .nil) :: row')

variable {visit : Visit} {row row' : Row} {δ δ' : Draft}

theorem RowStripped.named_eq (h : RowStripped row row') (name : QName) :
    Row.named row' name = Row.named row name := by
  induction h with
  | nil => rfl
  | comment s text line _ ih => exact ih.trans (Nat.zero_add _).symm
  | element s e line hkids _ ih =>
    rw [Row.named, Row.named, ih]
    rfl

theorem rowStripped_singles (s : ElementState) {f f' : Forest} (h : f.Stripped f') :
    RowStripped (f.singles.map (s, ·)) (f'.singles.map (s, ·)) := by
  induction h with
  | nil => exact .nil
  | comment text line _ ih => exact .comment s text line ih
  | element e line hkids _ _ ih => exact .element s e line hkids ih

theorem rowStripped_branches (s : ElementState) (e : Element) (line : Option Nat)
    {kids kids' : Forest} (h : kids.Stripped kids') (i copies : Nat) :
    RowStripped (branches s (.node (.element e) line kids .nil) i copies)
      (branches s (.node (.element e) line kids' .nil) i copies) := by
  induction copies generalizing i with
  | zero => exact .nil
  | succ copies ih => exact .element _ e line h (ih (i + 1))

theorem walkRow_stripped (hvisit : PastComments visit) (site : Site) (hrow : RowStripped row row')
    (hdone : Draft.Stripped δ δ') :
    Alike Draft.Stripped (walkRow visit site δ row) (walkRow visit site δ' row') := by
  induction hrow generalizing δ δ' with
  | nil => exact .ok hdone
  | comment s text line hrow ih =>
    rw [walkRow, hvisit.comment]
    have happend := hdone.append (.comment text line .nil)
    rw [Draft.append_nil] at happend
    exact ih happend
  | element s e line hkids hrow ih =>
    rw [walkRow, walkRow]
    have hnamed : ∀ name, δ'.forest.named name = δ.forest.named name := hdone.forest.named_eq
    have hafter := hrow.named_eq
    simp only [hnamed, hafter]
    exact (hvisit.element s _ e line hkids).bind fun ε ε' hε => ih (hdone.append hε)

variable {env : Environment}

theorem replicate_stripped (hvisit : PastComments visit) (parent : ElementState) (site : Site)
    {e : Element} {line : Option Nat} {kids kids' : Forest} (h : kids.Stripped kids')
    (copies : Nat) :
    Alike Draft.Stripped (replicate visit parent site ⟨e, line, kids⟩ copies)
      (replicate visit parent site ⟨e, line, kids'⟩ copies) :=
  walkRow_stripped hvisit site (rowStripped_branches parent _ line h 0 (copies + 1)) .nil

theorem walkSources_stripped (hvisit : PastComments visit) (state : ElementState) (site : Site)
    {e : Element} {line : Option Nat} {kids kids' : Forest} (h : kids.Stripped kids')
    (keys : List XPath.DocKey) (hdone : Draft.Stripped δ δ') :
    Alike Draft.Stripped
      (walkSources env visit state site (.node (.element e) line kids .nil) keys δ)
      (walkSources env visit state site (.node (.element e) line kids' .nil) keys δ') := by
  induction keys generalizing δ δ' with
  | nil => exact .ok hdone
  | cons key keys ih =>
    rw [walkSources, walkSources]
    have hnamed : ∀ name, δ'.forest.named name = δ.forest.named name := hdone.forest.named_eq
    simp only [hnamed]
    exact (hvisit.element _ _ e line h).bind fun ε ε' hε => ih (hε.append hdone)

theorem expandSources_stripped (hvisit : PastComments visit) (state : ElementState) (site : Site)
    (e : Element) (line : Option Nat) {kids kids' : Forest} (h : kids.Stripped kids') :
    Alike Draft.Stripped (expandSources env visit state site ⟨e, line, kids⟩)
      (expandSources env visit state site ⟨e, line, kids'⟩) :=
  walkSources_stripped hvisit state site h _ .nil

/-- The state of an element does not depend on the comments below it. -/
theorem state_stripped (parent : ElementState) (e : Element) (line : Option Nat)
    {kids kids' : Forest} (h : kids.Stripped kids') :
    state env parent ⟨e, line, kids'⟩ = state env parent ⟨e, line, kids⟩ := by
  have houtline : Tree.outline ⟨e, line, kids'⟩ = Tree.outline ⟨e, line, kids⟩ := by
    rw [Tree.outline, Tree.outline, h.hasElement_eq]
  rw [state, state, houtline]

theorem finishElement_stripped (hvisit : PastComments visit) (s : ElementState)
    (path : ElementPath) (e : Element) (line : Option Nat) {kids kids' : Forest}
    (h : kids.Stripped kids') (required : Option (Result Bool)) :
    Alike Draft.TreeStripped (finishElement env visit s path ⟨e, line, kids⟩ required)
      (finishElement env visit s path ⟨e, line, kids'⟩ required) := by
  rw [finishElement, finishElement, h.hasElement_eq]
  by_cases hleaf : kids.hasElement = true
  · rw [if_pos hleaf, if_pos hleaf]
    exact (walkRow_stripped hvisit _ (rowStripped_singles s h) .nil).bind fun ε ε' hε =>
      .ok (.element _ line _ hε)
  · rw [if_neg hleaf, if_neg hleaf]
    refine (Related.refl (r := Eq) (fun _ => rfl) (fill env s e.text)).bind ?_
    rintro filled _ rfl
    exact .ok (.element _ line _ (.ofForest h))

section Element

variable {R : Draft → Draft → Prop} (htree : ∀ δ δ', Draft.TreeStripped δ δ' → R δ δ')
  {again again' : Nat → Result Draft} (hagain : ∀ copies, Alike R (again copies) (again' copies))

include htree hagain

theorem walkElement_stripped (hvisit : PastComments visit) (path : ElementPath)
    (s : ElementState) (e : Element) (line : Option Nat) {kids kids' : Forest}
    (h : kids.Stripped kids') :
    Alike R (walkElement env visit path again s ⟨e, line, kids⟩)
      (walkElement env visit path again' s ⟨e, line, kids'⟩) := by
  have hstays (e : Element) (required : Option (Result Bool)) :
      Alike R (finishElement env visit s path ⟨e, line, kids⟩ required)
        (finishElement env visit s path ⟨e, line, kids'⟩ required) :=
    (finishElement_stripped hvisit s path e line h required).mono (fun _ _ _ => trivial) htree
  refine walkElement_related (R := Alike R) (fun _ _ => .error trivial) (fun _ => ?_) rfl rfl rfl
    h.hasElement_eq hagain (hstays e _) (hstays e none) fun _ _ _ => hstays _ none
  rw [lacking, lacking]
  split
  · exact .error trivial
  · exact .ok (htree _ _ .nil)

end Element

theorem process_past (fuel : Nat) : PastComments (process env fuel) := by
  induction fuel with
  | zero => exact ⟨fun _ _ _ _ => rfl, fun _ _ _ _ _ _ _ => .error trivial⟩
  | succ fuel ih =>
    refine ⟨fun _ _ _ _ => rfl, fun parent site e line kids kids' h => ?_⟩
    unfold process onElement
    dsimp only
    rw [state_stripped parent e line h]
    refine (Related.refl (r := Eq) (fun _ => rfl) _).bind ?_
    rintro s _ rfl
    split
    · exact walkElement_stripped (fun _ _ => Draft.TreeStripped.stripped)
        (replicate_stripped ih parent site h) ih _ s e line h
    · exact expandSources_stripped ih s site e line h

/-- The drafts of a document with and without its comments differ in those
comments. -/
theorem root_stripped (env : Environment) (fuel : Nat) (e : Element) (line : Option Nat)
    {kids kids' : Forest} (h : kids.Stripped kids') :
    Alike Draft.TreeStripped (root env fuel ⟨e, line, kids⟩) (root env fuel ⟨e, line, kids'⟩) := by
  rw [root, root, state_stripped .root e line h]
  refine (Related.refl (r := Eq) (fun _ => rfl) _).bind ?_
  rintro s _ rfl
  split
  · exact walkElement_stripped (fun _ _ => id) (fun _ => .error trivial) (process_past fuel) _ s e
      line h
  · exact .error trivial

end DraftWalk

end LabelTemplate
