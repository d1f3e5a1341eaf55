import LabelTemplate.Proofs.Export.ByTree
import LabelTemplate.Proofs.Walk.Comments

/-!
# Templates with a few directives more

A template and a retouched one, of which an element declares something more, are
compared by their trees.  `Retouching` is what such a comparison must keep to when
the templates are loaded, with or without their comments; the rest is about the
drafts of the two trees (`Template.toXml_retouched`).
-/

namespace LabelTemplate

open Xml Document Outcome

/-- A relation between a tree and a retouched one. -/
structure Retouching (ρ : Tree → Tree → Prop) : Prop where
  namespaces {t t' : Tree} : ρ t t' → t'.element.namespaces = t.element.namespaces
  withoutComments {t t' : Tree} : ρ t t' → ρ ⟨t.element, t.line, t.kids.withoutComments⟩
    ⟨t'.element, t'.line, t'.kids.withoutComments⟩
  aloof {env : Environment} {t t' : Tree} : ρ t t' → t.forest.Aloof env → t'.forest.Aloof env

namespace Template

variable {fs : Files} {input : TemplateInput}

theorem prolog_of_loaded (keep : Bool) (d : Document) :
    (if keep then d else d.stripComments).prolog = d.prolog := by
  cases keep with
  | true => rfl
  | false => exact prolog_stripComments d

/-- A template and a retouched one have the same label where their drafts have, or
neither has one, unless the first one is refused because an element is not in its
source. -/
theorem toXml_retouched {ρ : Tree → Tree → Prop} {Q : Location → Prop} (hρ : Retouching ρ)
    {given : SourceInput} {d d' : Document} (hgiven : input.template = some given)
    (hgives : given.Gives fs d) (htemplate : ∀ d, given = .document d → d.WellFormed)
    (haloof : input.Aloof fs) (hwf' : d'.WellFormed) (hprolog : d'.prolog = d.prolog)
    (htrees : ∀ t : Tree, Spells d [d.root] t.forest →
      ∃ t' : Tree, Spells d' [d'.root] t'.forest ∧ ρ t t')
    (hdrafts : ∀ env : Environment, 0 < env.docs.size →
      (∀ m g, env.sources.group? m = some g → g.primary.isSome = true) →
      ∀ t t' : Tree, t.forest.Aloof env → ρ t t' → ∀ fuel,
        Alike Eq (DraftWalk.root env fuel t >>= Draft.label)
            (DraftWalk.root env fuel t' >>= Draft.label) ∨
          ∃ at_, Q at_ ∧ DraftWalk.root env fuel t = .error (.missing at_)) :
    ((build fs input >>= finalize).map (·.toXml)).toOption =
        ((build fs (input.withTemplate (some (.document d'))
          input.options.keepTemplateComments) >>= finalize).map (·.toXml)).toOption ∨
      ∃ at_ err, Q at_ ∧ build fs input = .error err ∧ err.Lacks at_ := by
  let keep := input.options.keepTemplateComments
  have hwf : d.WellFormed := wellFormed_of_gives htemplate hgives
  obtain ⟨t₀, ht₀⟩ := exists_spells_tree hwf
  have helements₀ := elements_eq ht₀ (ht₀.size_le hwf.linked)
  obtain ⟨t₀', ht₀', hrelated₀⟩ := htrees t₀ ht₀
  -- the trees as they are loaded, with or without comments
  obtain ⟨t, t', ht, ht', hrelated, helements⟩ : ∃ t t' : Tree,
      Spells (if keep then d else d.stripComments)
        [(if keep then d else d.stripComments).root] t.forest ∧
      Spells (if keep then d' else d'.stripComments)
        [(if keep then d' else d'.stripComments).root] t'.forest ∧ ρ t t' ∧
        t.forest.elements = t₀.forest.elements := by
    cases keep with
    | true => exact ⟨t₀, t₀', ht₀, ht₀', hrelated₀, rfl⟩
    | false =>
      exact ⟨⟨t₀.element, t₀.line, t₀.kids.withoutComments⟩,
        ⟨t₀'.element, t₀'.line, t₀'.kids.withoutComments⟩, spells_stripComments hwf ht₀,
        spells_stripComments hwf' ht₀', hρ.withoutComments hrelated₀,
        (Forest.stripped_withoutComments (ht₀.proper hwf.linked)).elements_eq⟩
  have hload' : loadTemplate fs (input.withTemplate (some (.document d')) keep) =
      .ok (if keep then d' else d'.stripComments) := rfl
  have hsame : ∀ d, input.template = some (.document d) → d.WellFormed :=
    fun d hd => htemplate d (Option.some.inj (hgiven.symm.trans hd))
  have hsame' : ∀ d, some (SourceInput.document d') = some (.document d) → d.WellFormed := by
    rintro _ ⟨⟩
    exact hwf'
  have hlabels := labels_alike_or_lacks (Q := Q) (r := Eq) (loadTemplate_of_gives hgiven hgives)
    hload' hsame hsame' ht ht' (hρ.namespaces hrelated) fun sources docs hsources => by
      have haloof₀ := haloof.loaded hgiven hgives hwf keep hsources
      rw [helements₀, ← helements] at haloof₀
      have haloof' := Forest.aloof_of_elements haloof₀
      exact ⟨haloof', hρ.aloof hrelated haloof',
        hdrafts _ (docs_pos_of_build hsources) (SourceMap.primary_of_build hsources) t t' haloof' hrelated⟩
  refine hlabels.imp_left fun halike => Related.toOption_eq (halike.map ?_)
  rintro l l' ⟨f, _, rfl, hl, hl'⟩
  refine toXml_congr hl.wellFormed hl'.wellFormed hl.spells hl'.spells ?_
  rw [hl.prolog, hl'.prolog]
  exact (prolog_of_loaded _ d).trans (hprolog.symm.trans (prolog_of_loaded keep d').symm)

end Template

end LabelTemplate
