import LabelTemplate.Proofs.Export.ByTree
import LabelTemplate.Proofs.Walk.Comments

/-!
# Labels with and without comments

The comments of a template make no difference to its label but for themselves:
a label that is made with the comments of the template and then stripped of them
is written like the one that is made without (`Template.toXml_stripComments`).

The walk goes past comments (`DraftWalk.root_stripped`).  What an export does to
a draft does not see them either: fills and decisions are open on elements only,
and a comment is not a leaf (`Draft.TreeStripped.label`).
-/

namespace LabelTemplate

open Xml Document Outcome

/-! ## The label of a draft -/

namespace Xml.Forest.Stripped

variable {f f' : Forest}

theorem hasEmptyLeaf_eq (h : Stripped f f') : f'.hasEmptyLeaf = f.hasEmptyLeaf := by
  induction h with
  | nil => rfl
  | comment text line _ ih => simpa [hasEmptyLeaf, NodeKind.element?] using ih
  | element e line hkids _ ihkids ihrest =>
    rw [hasEmptyLeaf, hasEmptyLeaf, hkids.hasElement_eq, ihkids, ihrest]

/-- Dropping unused declarations and leaving out comments can be done in any
order. -/
theorem withoutComments_cleaned (h : Stripped f f') : f.cleaned.withoutComments = f'.cleaned := by
  have hused : f'.usedNamespaces = f.usedNamespaces := by
    rw [usedNamespaces, usedNamespaces, h.elements_eq]
  rw [cleaned, cleaned, restricted, restricted, withoutComments_mapElements, hused,
    h.eq_withoutComments]

end Xml.Forest.Stripped

namespace Draft

variable {δ δ' : Draft}

/-- A fill leaves an element an element. -/
theorem exists_element_of_write {e : Element} {fill : Option (Result (Option FillValue))}
    {kind : NodeKind} (h : write (.element e) fill = .ok kind) : ∃ e', kind = .element e' := by
  cases fill with
  | none =>
    cases h
    exact ⟨e, rfl⟩
  | some value =>
    obtain ⟨v, -, h⟩ := bind_eq_ok.1 h
    cases v with
    | none =>
      cases h
      exact ⟨e, rfl⟩
    | some v =>
      obtain ⟨text, -, h⟩ := bind_eq_ok.1 h
      cases h
      exact ⟨_, rfl⟩

theorem Stripped.filled (h : δ.Stripped δ') : Alike Stripped δ.filled δ'.filled := by
  induction h with
  | nil => exact .ok .nil
  | comment text line _ ih => exact ih.map_left fun ε ε' hε => .comment text line hε
  | element e line pending _ _ ihkids ihrest =>
    rw [Draft.filled, Draft.filled]
    refine (Related.refl (r := Eq) (fun _ => rfl) (write (.element e) pending.fill)).results.bind ?_
    rintro kind _ ⟨rfl, hkind, -⟩
    obtain ⟨e', rfl⟩ := exists_element_of_write hkind
    exact ihkids.bind fun κ κ' hκ => ihrest.bind fun ρ ρ' hρ => .ok (.element e' line _ hκ hρ)

theorem Stripped.pruned (h : δ.Stripped δ') : Alike Forest.Stripped δ.pruned δ'.pruned := by
  induction h with
  | nil => exact .ok .nil
  | comment text line _ ih => exact ih.map_left fun f f' hf => .comment text line hf
  | element e line pending _ _ ihkids ihrest =>
    rw [Draft.pruned, Draft.pruned]
    refine ihkids.bind fun f f' hf => ?_
    refine (Related.refl (r := Eq) (fun _ => rfl) (pending.required.getD (.ok true))).bind ?_
    rintro required _ rfl
    refine ihrest.bind fun g g' hg => ?_
    have hsame := (Forest.Stripped.element e line hf .nil).hasEmptyLeaf_eq
    rw [hsame]
    split
    · exact .ok hg
    · exact .ok (.element e line hf hg)

namespace TreeStripped

theorem filled (h : δ.TreeStripped δ') : Alike TreeStripped δ.filled δ'.filled := by
  cases h with
  | nil => exact .ok .nil
  | element e line pending hkids =>
    rw [Draft.filled, Draft.filled]
    refine (Related.refl (r := Eq) (fun _ => rfl) (write (.element e) pending.fill)).results.bind ?_
    rintro kind _ ⟨rfl, hkind, -⟩
    obtain ⟨e', rfl⟩ := exists_element_of_write hkind
    exact hkids.filled.bind fun κ κ' hκ => .ok (.element e' line _ hκ)

theorem prunedRoot (h : δ.TreeStripped δ') :
    Alike Forest.Stripped δ.prunedRoot δ'.prunedRoot := by
  cases h with
  | nil => exact .ok .nil
  | element e line pending hkids =>
    rw [Draft.prunedRoot, Draft.prunedRoot]
    refine hkids.pruned.bind fun f f' hf => ?_
    refine (Related.refl (r := Eq) (fun _ => rfl) (pending.required.getD (.ok true))).bind ?_
    rintro required _ rfl
    exact .ok (.element e line hf .nil)

/-- Labels of drafts that differ in comments differ in those comments. -/
theorem label (h : δ.TreeStripped δ') : Alike Forest.Stripped δ.label δ'.label := by
  rw [Draft.label, Draft.label]
  refine h.filled.bind fun ε ε' hε => hε.prunedRoot.bind fun f f' hf => ?_
  rw [hf.hasEmptyLeaf_eq]
  split
  · exact .error trivial
  · exact .ok hf

end TreeStripped

end Draft

/-! ## The label of a template -/

/-- The same input, with or without the comments of the template. -/
def TemplateInput.keepComments (input : TemplateInput) (keep : Bool) : TemplateInput :=
  input.withTemplate input.template keep

namespace Template

variable {fs : Files} {input : TemplateInput}

theorem loadTemplate_stripped (fs : Files) (input : TemplateInput) :
    loadTemplate fs (input.keepComments false) =
      (loadTemplate fs (input.keepComments true)).map (·.stripComments) := by
  unfold loadTemplate TemplateInput.keepComments TemplateInput.withTemplate
  dsimp only
  cases input.template with
  | none => rfl
  | some given =>
    cases given with
    | document d => rfl
    | path p =>
      dsimp only
      cases Document.ofFile fs p <;> rfl

/-- Where no directive reads the template, its comments are inert: a label made
with them and then stripped of its comments is written like the label that is
made without them, or neither can be made. -/
theorem toXml_stripComments
    (htemplate : ∀ d, input.template = some (.document d) → d.WellFormed)
    (haloof : input.Aloof fs) :
    ((build fs (input.keepComments true) >>= finalize).map (·.stripComments.toXml)).toOption =
      ((build fs (input.keepComments false) >>= finalize).map (·.toXml)).toOption := by
  refine Related.toOption_eq ?_
  have hload' := loadTemplate_stripped fs input
  cases hload : loadTemplate fs (input.keepComments true) with
  | error err =>
    rw [hload] at hload'
    unfold build
    rw [hload, hload']
    exact .error trivial
  | ok d =>
    rw [hload] at hload'
    have hwf : d.WellFormed := wellFormed_of_loadTemplate hload htemplate
    obtain ⟨t, ht⟩ := exists_spells_tree hwf
    have ht' : Spells d.stripComments [d.stripComments.root]
        (Tree.mk t.element t.line t.kids.withoutComments).forest := spells_stripComments hwf ht
    have hstripped : t.kids.Stripped t.kids.withoutComments :=
      Forest.stripped_withoutComments (ht.proper hwf.linked).2.1
    have halike := labels_alike (r := Forest.Stripped) hload hload' htemplate htemplate ht ht' rfl ?_
    · refine halike.map fun label label' ⟨f, f', hf, hlabel, hlabel'⟩ => ?_
      refine toXml_congr hlabel.wellFormed.stripComments hlabel'.wellFormed ?_ hlabel'.spells ?_
      · rw [← hf.withoutComments_cleaned]
        exact spells_stripComments hlabel.wellFormed hlabel.spells
      · rw [prolog_stripComments, hlabel.prolog, hlabel'.prolog, prolog_stripComments]
    · intro sources docs hsources
      obtain ⟨given, d₀, hgiven, hgives, hd⟩ := loadTemplate_eq_ok hload
      have hd : d = d₀ := hd
      subst hd
      have helements : ∀ e ∈ t.forest.elements, e.Aloof (input.environment d sources docs) := by
        rw [← elements_eq ht (ht.size_le hwf.linked)]
        exact haloof given d sources docs hgiven hgives hsources
      refine ⟨Forest.aloof_of_elements helements, Forest.aloof_of_elements ?_, fun fuel => ?_⟩
      · rwa [Tree.forest, (Forest.Stripped.element t.element t.line hstripped .nil).elements_eq]
      · exact (DraftWalk.root_stripped _ fuel t.element t.line hstripped).bind fun _ _ h => h.label

/-- A comment around and inside an element that is filled from two documents. -/
def annotated : TemplateInput where
  template := some (.document (.ofTree [] { name := .plain "a" } none
    (.node (.comment "all") none .nil
    (.node (.element
      { name := .plain "b"
        attributes := [⟨⟨some directivePrefix, some directiveNamespace, "sources"⟩, "s"⟩,
          ⟨⟨some directivePrefix, some directiveNamespace, "fetch"⟩, "true()"⟩] }) none
      (.node (.comment "one") none .nil .nil) .nil))))
  sources :=
    [⟨"s", [.document (.ofTree [] { name := .plain "a" } none
        (.node (.element { name := .plain "b", text := some "1" }) none .nil .nil)),
      .document (.ofTree [] { name := .plain "a" } none
        (.node (.element { name := .plain "b", text := some "2" }) none .nil .nil))]⟩]

def commentCount (d : Document) : Nat := ((d.descendants d.root).filter d.isComment).length

/-- Every copy has a comment of its own. -/
theorem toXml_stripComments_annotated :
    ∃ label label' : Document,
      build {} (annotated.keepComments true) >>= finalize = .ok label ∧
      build {} (annotated.keepComments false) >>= finalize = .ok label' ∧
      commentCount label = 3 ∧ (leaves label label.root).map label.text? = [some "1", some "2"] ∧
      label.stripComments.toXml = label'.toXml := by
  have hrun : ((build {} (annotated.keepComments true) >>= finalize).toOption.any fun label =>
      decide (commentCount label = 3 ∧
        (leaves label label.root).map label.text? = [some "1", some "2"])) = true := by
    decide +kernel
  obtain ⟨label, hlabel, htexts⟩ := (Option.any_eq_true _ _).1 hrun
  obtain ⟨hcount, htexts⟩ := of_decide_eq_true htexts
  have hproper : ∀ d, annotated.template = some (.document d) → d.WellFormed := by
    rintro d hd
    cases hd
    refine wellFormed_ofTree ?_ []
    simp [Forest.Proper, NodeKind.isElement, NodeKind.element?]
  have haloof : annotated.Aloof {} := by
    refine TemplateInput.aloof_of_builtins rfl fun given d hgiven hgives => ?_
    cases hgiven
    cases hgives
    decide +kernel
  have hsame := toXml_stripComments hproper haloof
  rw [toOption_eq_some.1 hlabel] at hsame
  obtain ⟨label', hlabel', hxml⟩ := map_eq_ok.1 (toOption_eq_some.1 hsame.symm)
  exact ⟨label, label', toOption_eq_some.1 hlabel, hlabel', hcount, htexts, hxml.symm⟩

end Template

end LabelTemplate
