import LabelTemplate.Proofs.Outcome
import LabelTemplate.Proofs.Walk.Drafts

/-!
# Comparing what two walks leave

Where two templates are compared, a visit in one of them leaves a draft that is
related to the draft of the other, or some failure of the one is excused by the
other.  A `Comparison` is such a relation between results that goes through the
steps of the walk.  What it holds of the visits below it then holds of siblings,
branches and copies for sources (`walkRow_compared`, `replicate_compared`,
`walkSources_compared`).
-/

namespace LabelTemplate.DraftWalk

open Xml

/-- `A` relates drafts, and `R` results of which the drafts are related.  A draft
that has been `Spoilt` by an earlier failure of the other walk stays so. -/
structure Comparison (A : Draft → Draft → Prop) (Spoilt : Draft → Prop)
    (R : Result Draft → Result Draft → Prop) : Prop where
  nil : A .nil .nil
  append {δ δ' ε ε' : Draft} : A δ δ' → A ε ε' → A (δ ++ ε) (δ' ++ ε')
  named {δ δ' : Draft} : A δ δ' → ∀ name, δ'.forest.named name = δ.forest.named name
  spoilt_left {δ : Draft} (ε : Draft) : Spoilt δ → Spoilt (δ ++ ε)
  spoilt_right (δ : Draft) {ε : Draft} : Spoilt ε → Spoilt (δ ++ ε)
  spoilt_node {δ : Draft} (kind : NodeKind) (line : Option Nat) (pending : Pending) :
    Spoilt δ → Spoilt (.node kind line pending δ .nil)
  ok {δ δ' : Draft} : A δ δ' → R (.ok δ) (.ok δ')
  bind {x y : Result Draft} {f g : Draft → Result Draft} : R x y →
    (∀ δ δ', A δ δ' → R (f δ) (g δ')) →
      (∀ δ' ε, Spoilt δ' → g δ' = .ok ε → Spoilt ε) → R (x >>= f) (y >>= g)

/-! ## What is in front stays in front -/

theorem exists_append_of_walkRow {visit : Visit} {site : Site} {row : Row} {done ε : Draft}
    (h : walkRow visit site done row = .ok ε) : ∃ ρ, ε = done ++ ρ := by
  induction row generalizing done with
  | nil =>
    cases h
    exact ⟨.nil, (Draft.append_nil _).symm⟩
  | cons item row ih =>
    obtain ⟨s, f⟩ := item
    rw [walkRow] at h
    obtain ⟨left, -, h⟩ := Outcome.bind_eq_ok.1 h
    obtain ⟨ρ, rfl⟩ := ih h
    exact ⟨left ++ ρ, Draft.append_assoc done left ρ⟩

theorem exists_append_of_walkSources {env : Environment} {visit : Visit} {s : ElementState}
    {site : Site} {f : Forest} {keys : List XPath.DocKey} {done ε : Draft}
    (h : walkSources env visit s site f keys done = .ok ε) : ∃ ρ, ε = ρ ++ done := by
  induction keys generalizing done with
  | nil =>
    cases h
    exact ⟨.nil, rfl⟩
  | cons key keys ih =>
    rw [walkSources] at h
    obtain ⟨left, -, h⟩ := Outcome.bind_eq_ok.1 h
    obtain ⟨ρ, rfl⟩ := ih h
    exact ⟨ρ ++ left, (Draft.append_assoc ρ left done).symm⟩

namespace Comparison

variable {A : Draft → Draft → Prop} {Spoilt : Draft → Prop} {R : Result Draft → Result Draft → Prop}
  {visit visit' : Visit} {V : ElementState × Forest → ElementState × Forest → Prop}
  {row row' : Row} {δ δ' : Draft} {s s' : ElementState} {site : Site}

/-- Both walks visit related trees below related states. -/
structure Visits (R : Result Draft → Result Draft → Prop)
    (V : ElementState × Forest → ElementState × Forest → Prop) (visit visit' : Visit) : Prop where
  visit {v v' : ElementState × Forest} (site : Site) : V v v' →
    R (visit v.1 site v.2) (visit' v'.1 site v'.2)
  named {v v' : ElementState × Forest} : V v v' → ∀ name, v'.2.named name = v.2.named name

theorem row_named (hvisit : Visits R V visit visit') (hrow : List.Forall₂ V row row')
    (name : QName) : Row.named row' name = Row.named row name := by
  induction hrow with
  | nil => rfl
  | cons hv _ ih => rw [Row.named, Row.named, ih, hvisit.named hv]

variable (hR : Comparison A Spoilt R)

include hR

theorem walkRow_compared (hvisit : Visits R V visit visit') (hrow : List.Forall₂ V row row')
    (hdone : A δ δ') : R (walkRow visit site δ row) (walkRow visit' site δ' row') := by
  induction hrow generalizing δ δ' with
  | nil => exact hR.ok hdone
  | @cons v v' row row' hv hrow ih =>
    rw [walkRow, walkRow]
    have hafter := row_named hvisit hrow
    simp only [hR.named hdone, hafter]
    refine hR.bind (hvisit.visit _ hv) (fun ε ε' hε => ih (hR.append hdone hε)) ?_
    intro ε' ζ hspoilt hζ
    obtain ⟨ρ, rfl⟩ := exists_append_of_walkRow hζ
    exact hR.spoilt_left ρ (hR.spoilt_right δ' hspoilt)

omit hR in
theorem branches_compared {f f' : Forest}
    (h : ∀ i, V ({ s with multiBranch := some i }, f) ({ s' with multiBranch := some i }, f'))
    (i copies : Nat) : List.Forall₂ V (branches s f i copies) (branches s' f' i copies) := by
  induction copies generalizing i with
  | zero => exact .nil
  | succ copies ih => exact .cons (h i) (ih (i + 1))

theorem replicate_compared (hvisit : Visits R V visit visit') {t t' : Tree}
    (h : ∀ i, V ({ s with multiBranch := some i }, (t.mapElement (·.removeDirective .multi)).forest)
      ({ s' with multiBranch := some i }, (t'.mapElement (·.removeDirective .multi)).forest))
    (copies : Nat) : R (replicate visit s site t copies) (replicate visit' s' site t' copies) :=
  hR.walkRow_compared hvisit (branches_compared h 0 (copies + 1)) hR.nil

theorem walkSources_compared {env : Environment} (hvisit : Visits R V visit visit')
    {f f' : Forest} {keys : List XPath.DocKey}
    (h : ∀ key ∈ keys, V (s.rebindSource key env, f) (s'.rebindSource key env, f'))
    (hdone : A δ δ') :
    R (walkSources env visit s site f keys δ) (walkSources env visit' s' site f' keys δ') := by
  induction keys generalizing δ δ' with
  | nil => exact hR.ok hdone
  | cons key keys ih =>
    obtain ⟨hkey, hkeys⟩ := List.forall_mem_cons.1 h
    rw [walkSources, walkSources]
    simp only [hR.named hdone]
    refine hR.bind (hvisit.visit _ hkey) (fun ε ε' hε => ih hkeys (hR.append hε hdone)) ?_
    intro ε' ζ hspoilt hζ
    obtain ⟨ρ, rfl⟩ := exists_append_of_walkSources hζ
    exact hR.spoilt_right ρ (hR.spoilt_left δ' hspoilt)

theorem expandSources_compared {env : Environment} (hvisit : Visits R V visit visit') {t t' : Tree}
    (hsources : s'.sources = s.sources)
    (h : ∀ key ∈ s.sources.members,
      V (s.rebindSource key env, (t.mapElement (·.removeDirective .sources)).forest)
        (s'.rebindSource key env, (t'.mapElement (·.removeDirective .sources)).forest)) :
    R (expandSources env visit s site t) (expandSources env visit' s' site t') := by
  rw [expandSources, expandSources, hsources]
  exact hR.walkSources_compared hvisit (fun key hkey => h key (List.mem_reverse.1 hkey)) hR.nil

/-- Elements around related children, of which the decisions may differ. -/
theorem finishElement_compared {env : Environment} (hvisit : Visits R V visit visit')
    {path : ElementPath} {t t' : Tree} {required required' : Option (Result Bool)}
    (hstrip : t'.element.stripDirectives = t.element.stripDirectives) (hline : t'.line = t.line)
    (hinner : t.kids.hasElement = true) (hinner' : t'.kids.hasElement = true)
    (hkids : List.Forall₂ V (t.kids.singles.map (s, ·)) (t'.kids.singles.map (s', ·)))
    (hclose : ∀ δ δ', A δ δ' →
      A (.node (.element t.element.stripDirectives) t.line { required } δ .nil)
        (.node (.element t.element.stripDirectives) t.line { required := required' } δ' .nil)) :
    R (finishElement env visit s path t required)
      (finishElement env visit' s' path t' required') := by
  rw [finishElement, finishElement, if_pos hinner, if_pos hinner', hstrip, hline]
  refine hR.bind (hR.walkRow_compared hvisit hkids hR.nil)
    (fun ε ε' hε => hR.ok (hclose ε ε' hε)) fun ε' ζ hspoilt hζ => ?_
  cases hζ
  exact hR.spoilt_node _ _ _ hspoilt

end Comparison

end LabelTemplate.DraftWalk
