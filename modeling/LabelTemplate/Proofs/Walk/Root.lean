import LabelTemplate.Proofs.Walk.Refinement
import LabelTemplate.Proofs.Walk.Weight

/-!
# The walk of the root

The root has no parent, so it can neither be repeated nor be spread over several
sources, and its path names the root of every source.  If there are elements
inside it, its walk comes to the walk of its content
(`exists_finish_of_root`), and leaves one tree around what the walk on trees
leaves of its children (`exists_walkKids_of_root`).
-/

namespace LabelTemplate

open Xml Document Outcome

namespace Engine

variable {e e' : Engine} {parent : ElementState}

theorem replicate_root_ne_ok (hd : e.template.WellFormed) (visit : Visit) (copies : Nat) :
    replicate visit parent e.template.root copies e ≠ .ok e' := by
  have hparent : (e.template.removeDirective e.template.root .multi).parent? e.template.root =
      none := by
    rw [removeDirective, removeAttribute, parent?_updateElement, hd.root_parent]
  intro h
  simp only [replicate, hparent] at h
  cases h

theorem expandSources_root_ne_ok (hd : e.template.WellFormed) (visit : Visit) :
    expandSources visit parent e.template.root e ≠ .ok e' := by
  have hparent : (e.template.removeDirective e.template.root .sources).parent? e.template.root =
      none := by
    rw [removeDirective, removeAttribute, parent?_updateElement, hd.root_parent]
  intro h
  simp only [expandSources, hparent] at h
  cases h

/-- A root with elements in it stays as it is when it is fetched. -/
theorem fetch_root (hinner : e.template.hasElementChildren e.template.root = true) {visit : Visit}
    {s : ElementState} {r : Bool × Engine}
    (h : fetch visit parent s e.template.root e = .ok r) : r = (true, e) := by
  unfold fetch at h
  cases hkey : s.sources.primary with
  | none =>
    simp only [hkey] at h
    cases h
  | some key =>
    cases hsource : e.env.docs[key]? with
    | none =>
      simp only [hkey, hsource] at h
      cases h
    | some source =>
      have hfound : source.findAll (e.template.elementPath e.template.root) = [source.root] := by
        rw [elementPath_root]
        rfl
      simp only [hkey, hsource, hfound, hinner, if_true] at h
      cases h
      rfl

/-- The walk of a root with elements in it comes to that of its content. -/
theorem exists_finish_of_root (hd : e.template.WellFormed)
    (hinner : e.template.hasElementChildren e.template.root = true) {fuel : Nat}
    (h : process (fuel + 1) parent e.template.root e = .ok e') :
    ∃ s q, ElementState.resolve e.env parent e.template.root = .ok s ∧
      finishElement (process fuel) s e.template.root { e with deferred := q } = .ok e' := by
  have hcomment : e.template.isComment e.template.root ≠ true := fun hc => by
    rw [isComment_of_isElement hd.root_isElement] at hc
    cases hc
  rw [process, if_neg hcomment] at h
  obtain ⟨s, hs, h⟩ := bind_eq_ok.1 h
  refine ⟨s, ?_⟩
  rw [mapError_eq_ok] at hs
  split at h
  case isFalse => exact absurd h (expandSources_root_ne_ok hd _)
  case isTrue =>
    unfold walkElement at h
    split at h
    case isTrue =>
      obtain ⟨r, hr, h⟩ := bind_eq_ok.1 h
      cases fetch_root hinner hr
      exact ⟨e.deferred, hs, h⟩
    case isFalse =>
      extract_lets copies at h
      split at h
      case isTrue => exact absurd h (replicate_root_ne_ok hd _ _)
      case isFalse =>
        split at h
        · exact ⟨_, hs, h⟩
        · exact ⟨e.deferred, hs, h⟩

/-- A root that stays is left as one tree, around what the walk on trees leaves
of its children. -/
theorem exists_walkKids_of_finish {env : Environment} (hrun : e.RunsIn env) {t : Tree}
    (ht : Spells e.template [e.template.root] t.forest) (haloof : t.forest.Aloof env)
    (hinner : t.kids.hasElement = true) {s s' : ElementState} (hs : ElementState.Settled env s s')
    {fuel : Nat} (h : finishElement (process fuel) s e.template.root e = .ok e') :
    ∃ u : Tree, TreeWalk.walkKids (TreeWalk.process env fuel) s' [] .nil t.kids = .ok u.kids ∧
      Spells e'.template [e'.template.root] u.forest := by
  obtain ⟨e₁, hcontent, h⟩ := bind_eq_ok.1 h
  cases h
  rw [walkContent, if_pos (by rw [ht.hasElementChildren_eq, hinner])] at hcontent
  have hreads := readsAs_process env fuel
  rcases hreads.comment with hcomments | hspent
  · have hwalk := walkKids_answers hreads hcomments hs.twin hs.outside hrun.wellFormed hrun
      (Frame.refl _ e.template.root _) (within_self _ _) (elementPath_root _)
      (List.nil_append _).symm .nil ht.kids haloof.2.1
      fun c hc => .child ((hrun.wellFormed.parent_iff_child _ c).2 hc)
    rw [hcontent] at hwalk
    obtain ⟨kids, hkids, hrun₁, hframe, hspells⟩ := hwalk.exists_left
    have hroot : e₁.template.root = e.template.root := hframe.root
    obtain ⟨f, hf, -⟩ := hrun₁.wellFormed.exists_spells [e₁.template.root]
      (by simpa using hrun₁.wellFormed.root_lt_size)
    obtain ⟨u, rfl⟩ := hf.exists_tree hrun₁.wellFormed.root_isElement
    rw [← hroot] at hspells
    cases hf.kids.unique hspells
    refine ⟨u.mapElement (·.stripDirectives), hkids, ?_⟩
    have hstripped : Spells (e₁.template.stripDirectives e₁.template.root) [e₁.template.root]
        (u.mapElement (·.stripDirectives)).forest :=
      spells_updateElement hrun₁.wellFormed.linked hf (·.stripDirectives)
    obtain ⟨-, htemplate⟩ := hrun₁.setTemplate
      (d := e₁.template.stripDirectives e₁.template.root)
      (hrun₁.wellFormed.updateElement e₁.template.root _)
    rw [mapTemplate, ← hroot, htemplate]
    exact hstripped
  · have hwalk : Answers (fun _ _ => False)
        (TreeWalk.walkKids (TreeWalk.process env fuel) s' [] .nil t.kids)
        ((e.template.children e.template.root).foldlM (fun e c => process fuel s c e) e) :=
      walkKids_spent hspent ht.kids hinner
    rw [hcontent] at hwalk
    obtain ⟨_, _, hnone⟩ := hwalk.exists_left
    exact hnone.elim

theorem exists_walkKids_of_root {env : Environment} (hrun : e.RunsIn env) {t : Tree}
    (ht : Spells e.template [e.template.root] t.forest) (haloof : t.forest.Aloof env)
    (hout : parent.sources.Outside) (hinner : t.kids.hasElement = true) {fuel : Nat}
    (h : process (fuel + 1) parent e.template.root e = .ok e') :
    ∃ s, ∃ u : Tree, TreeWalk.state env parent t = .ok s ∧
      TreeWalk.walkKids (TreeWalk.process env fuel) s [] .nil t.kids = .ok u.kids ∧
      Spells e'.template [e'.template.root] u.forest := by
  obtain ⟨s, q, hs, h⟩ := exists_finish_of_root hrun.wellFormed
    (by rw [ht.hasElementChildren_eq, hinner]) h
  have hstate := state_answers (.refl parent) hout hrun ht haloof
  rw [hs] at hstate
  obtain ⟨s', hs', hsettled⟩ := hstate.exists_left
  obtain ⟨u, hu⟩ := exists_walkKids_of_finish (e := { e with deferred := q })
    ⟨hrun.docs_pos, hrun.env_eq, hrun.wellFormed⟩ ht haloof hinner hsettled h
  exact ⟨s', u, hs', hu⟩

end Engine

end LabelTemplate
