import LabelTemplate.Proofs.Walk.Turns

/-!
# Where a walk fails

A turn can fail for a reason of its own (`Turn.Refuses`): the state of its element
cannot be resolved, what becomes of the element cannot be told, its fill does not
fit, or it would have to be copied and is the root.  Every other failure comes from
a turn that it makes, so the walk fails exactly if one of the turns that it comes to
refuses its element (`walk_eq_error_iff`).
-/

namespace LabelTemplate

open Xml Document Outcome

namespace Engine

/-! ## Up to a visit that fails -/

section Visits

variable {visit : Visit} {s parent : ElementState} {fault : WalkFault} {e : Engine}

theorem exists_of_walkRow_eq_error {ns : List NodeId}
    (h : walkRow visit (ns.map (s, ·)) e = .error fault) :
    ∃ front c back e₂, ns = front ++ c :: back ∧ walkRow visit (front.map (s, ·)) e = .ok e₂ ∧
      visit s c e₂ = .error fault := by
  obtain ⟨row, v, row', e₂, hrow, hfront, hv⟩ := exists_of_foldlM_eq_error h
  obtain ⟨front, rest, rfl, rfl, hrest⟩ := List.map_eq_append_iff.1 hrow
  obtain ⟨c, back, rfl, rfl, -⟩ := List.map_eq_cons_iff.1 hrest
  exact ⟨front, c, back, e₂, rfl, hfront, hv⟩

theorem branches_eq_append {i : Nat} {ns : List NodeId} {row row' : List (ElementState × NodeId)}
    {v : ElementState × NodeId} (h : branches parent i ns = row ++ v :: row') :
    ∃ front c back, ns = front ++ c :: back ∧ row = branches parent i front ∧
      v = ({ parent with multiBranch := some (i + front.length) }, c) := by
  induction row generalizing i ns with
  | nil =>
    cases ns with
    | nil => cases h
    | cons n ns =>
      rw [branches, List.nil_append, List.cons.injEq] at h
      exact ⟨[], n, ns, rfl, rfl, h.1.symm⟩
  | cons w row ih =>
    cases ns with
    | nil => cases h
    | cons n ns =>
      rw [branches, List.cons_append, List.cons.injEq] at h
      obtain ⟨front, c, back, rfl, rfl, rfl⟩ := ih h.2
      refine ⟨n :: front, c, back, rfl, by rw [branches, h.1], ?_⟩
      rw [List.length_cons, Nat.add_right_comm, Nat.add_assoc]

theorem exists_of_branches_eq_error {i : Nat} {ns : List NodeId}
    (h : walkRow visit (branches parent i ns) e = .error fault) :
    ∃ front c back e₂, ns = front ++ c :: back ∧
      walkRow visit (branches parent i front) e = .ok e₂ ∧
      visit { parent with multiBranch := some (i + front.length) } c e₂ = .error fault := by
  obtain ⟨row, v, row', e₂, hrow, hfront, hv⟩ := exists_of_foldlM_eq_error h
  obtain ⟨front, c, back, rfl, rfl, rfl⟩ := branches_eq_append hrow
  exact ⟨front, c, back, e₂, rfl, hfront, hv⟩

theorem exists_of_walkSources_eq_error {n p : NodeId} {index : Nat} {keys : List XPath.DocKey}
    (h : walkSources visit s n p index keys e = .error fault) :
    ∃ front key back e₂, keys = front ++ key :: back ∧
      walkSources visit s n p index front e = .ok e₂ ∧
      visit (s.rebindSource key (putBack n e₂ s p index key).2.env)
        (putBack n e₂ s p index key).1 (putBack n e₂ s p index key).2 = .error fault := by
  induction keys generalizing e with
  | nil => cases h
  | cons key keys ih =>
    rw [walkSources_cons] at h
    obtain h | ⟨e₁, h₁, h⟩ := bind_eq_error.1 h
    · exact ⟨[], key, keys, e, rfl, rfl, h⟩
    · obtain ⟨front, key', back, e₂, rfl, hfront, hv⟩ := ih h
      refine ⟨key :: front, key', back, e₂, rfl, ?_, hv⟩
      rw [walkSources_cons, h₁]
      exact hfront

end Visits

/-! ## Turns -/

namespace Turn

/-- A turn fails for a reason of its own. -/
inductive Refuses (t : Turn) : Error → Prop where
  | state {err : Error} (helement : t.engine.template.isComment t.node = false)
      (h : t.state = .error err) : Refuses t err
  | prospect {s : ElementState} {err : Error} (h : t.Faces s (.error (.failed err))) :
      Refuses t err
  | fill {s : ElementState} {e₁ : Engine} {err : Error} (h : t.Faces s (.ok (.stays e₁)))
      (hleaf : e₁.template.hasElementChildren t.node = false)
      (hfill : finishElement (process t.fuel) s t.node e₁ = .error (.failed err)) : Refuses t err
  | rootReplicated {s : ElementState} {copies : Nat} (h : t.Faces s (.ok (.repeats copies)))
      (hroot : withCopies t.node t.engine copies = none) :
      Refuses t (.node .rootReplicated
        ((t.engine.template.removeDirective t.node .multi).location t.node))
  | rootWithManySources {s : ElementState} (h : t.Faces s (.ok .spreads))
      (hroot : takenOut t.node t.engine = none) :
      Refuses t (.node .rootWithManySources
        ((t.engine.template.removeDirective t.node .sources).location t.node))

variable {t t' : Turn} {err : Error}

theorem Refuses.result_eq (h : t.Refuses err) : t.result = .error (.failed err) := by
  cases h with
  | state helement h =>
    rw [result, process_succ _ helement, show ElementState.resolve _ _ _ = _ from h]
    rfl
  | prospect h => exact h.error
  | fill h _ hfill => exact h.result_eq.trans hfill
  | rootReplicated h hroot =>
    refine h.result_eq.trans ?_
    change replicate _ _ _ _ _ = _
    rw [replicate_eq_withCopies, hroot]
    rfl
  | rootWithManySources h hroot =>
    refine h.result_eq.trans ?_
    change expandSources _ _ _ _ = _
    rw [expandSources_eq_takenOut, hroot]
    rfl

/-- A turn that fails refuses its element, or a visit in the course of it fails. -/
theorem refuses_or_exists (h : t.result = .error (.failed err)) :
    t.Refuses err ∨ ∃ s c e₂, process t.fuel s c e₂ = .error (.failed err) ∧
      ∀ fuel, t.fuel = fuel + 1 → t.Makes ⟨fuel, s, c, e₂⟩ := by
  have helement : t.engine.template.isComment t.node = false := by
    by_contra hcomment
    rw [result, process, if_pos (by simpa using hcomment)] at h
    cases h
  rw [result, process_succ _ helement] at h
  obtain h | ⟨s, hs, h⟩ := bind_eq_error.1 h
  · obtain ⟨_, hs, ⟨⟩⟩ := mapError_eq_error.1 h
    exact .inl (.state helement hs)
  have hs : t.state = .ok s := mapError_eq_ok.1 hs
  obtain h | ⟨x, hx, h⟩ := bind_eq_error.1 h
  · exact .inl (.prospect ⟨helement, hs, h⟩)
  have hfaces : t.Faces s (.ok x) := ⟨helement, hs, hx⟩
  cases x with
  | goes e₁ => cases h
  | stays e₁ =>
    change finishElement _ _ _ _ = _ at h
    cases hinner : e₁.template.hasElementChildren t.node with
    | false => exact .inl (.fill hfaces hinner h)
    | true =>
      rw [finishElement_inner hinner] at h
      obtain h | ⟨e', -, h⟩ := bind_eq_error.1 h
      · obtain ⟨front, c, back, e₂, hkids, hfront, hc⟩ := exists_of_walkRow_eq_error h
        exact .inr ⟨s, c, e₂, hc, fun fuel hfuel =>
          .kid hfuel hfaces hinner hkids (hfuel ▸ hfront)⟩
      · cases h
  | repeats copies =>
    change replicate _ _ _ _ _ = _ at h
    rw [replicate_eq_withCopies] at h
    cases hns : withCopies t.node t.engine copies with
    | none =>
      rw [hns] at h
      cases h
      exact .inl (.rootReplicated hfaces hns)
    | some made =>
      obtain ⟨ns, e₁⟩ := made
      rw [hns] at h
      obtain ⟨front, c, back, e₂, hsplit, hfront, hc⟩ := exists_of_branches_eq_error h
      rw [Nat.zero_add] at hc
      exact .inr ⟨_, c, e₂, hc, fun fuel hfuel =>
        .branch hfuel hfaces hns hsplit (hfuel ▸ hfront)⟩
  | spreads =>
    change expandSources _ _ _ _ = _ at h
    rw [expandSources_eq_takenOut] at h
    cases hout : takenOut t.node t.engine with
    | none =>
      rw [hout] at h
      cases h
      exact .inl (.rootWithManySources hfaces hout)
    | some place =>
      obtain ⟨p, index, e₁⟩ := place
      rw [hout] at h
      obtain ⟨front, key, back, e₂, hkeys, hfront, hkey⟩ := exists_of_walkSources_eq_error h
      exact .inr ⟨_, _, _, hkey, fun fuel hfuel =>
        .source hfuel hfaces hout hkeys (hfuel ▸ hfront)⟩

/-- A turn fails because one that it comes to refuses its element. -/
theorem exists_refuses (h : t.result = .error (.failed err)) :
    ∃ t', t.Reaches t' ∧ t'.Refuses err := by
  induction hfuel : t.fuel generalizing t with
  | zero =>
    obtain hrefuses | ⟨s, c, e₂, hc, -⟩ := refuses_or_exists h
    · exact ⟨t, .refl, hrefuses⟩
    · rw [hfuel] at hc
      cases hc
  | succ fuel ih =>
    obtain hrefuses | ⟨s, c, e₂, hc, hmakes⟩ := refuses_or_exists h
    · exact ⟨t, .refl, hrefuses⟩
    · rw [hfuel] at hc
      obtain ⟨t', hreach, hrefuses⟩ := ih (t := ⟨fuel, s, c, e₂⟩) hc rfl
      exact ⟨t', hreach.head (hmakes fuel hfuel), hrefuses⟩

end Turn

/-- A walk that comes to an end fails exactly for what refuses one of its turns. -/
theorem walk_eq_error_iff {e : Engine} {err : Error} (hend : err ≠ .unfinished) :
    e.walk = .error err ↔ ∃ t, (Turn.first e).Reaches t ∧ t.Refuses err := by
  constructor
  · intro h
    refine Turn.exists_refuses ?_
    rw [Turn.first_result]
    unfold walk at h
    split at h
    · cases h
    · rename_i err' hfailed
      cases h
      exact hfailed
    · cases h
      exact absurd rfl hend
  · rintro ⟨t, hreach, hrefuses⟩
    exact walk_eq_error hreach hrefuses.result_eq

end Engine

end LabelTemplate
