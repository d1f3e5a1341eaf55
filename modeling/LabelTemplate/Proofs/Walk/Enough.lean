import LabelTemplate.Proofs.Walk.Total

/-!
# The fuel of a walk is enough

More fuel does not change what a walk comes to, unless the walk ran out of it
(`process_upto`).  The fuel of `walk` is more than the template weighs, so it
is never spent and any greater amount gives the same (`process_eq_walk`): the
walk is nested no deeper than that, whatever the directives ask for.
-/

namespace LabelTemplate

open Xml Document Outcome

namespace Engine

/-! ## More fuel -/

/-- The second outcome is the first one, unless the first ran out of fuel. -/
def Upto {α : Type} (x y : Except WalkFault α) : Prop := x ≠ .error .exhausted → y = x

section Upto

variable {α β : Type}

theorem Upto.refl (x : Except WalkFault α) : Upto x x := fun _ => rfl

theorem Upto.bind {x y : Except WalkFault α} {f g : α → Except WalkFault β} (h : Upto x y)
    (hf : ∀ a, Upto (f a) (g a)) : Upto (x >>= f) (y >>= g) := by
  intro hne
  cases x with
  | ok a =>
    rw [h nofun]
    exact hf a hne
  | error fault =>
    have hy : y = .error fault := h fun hx => hne (by rw [hx]; rfl)
    rw [hy]
    rfl

theorem upto_foldlM {f g : β → α → Except WalkFault β} (h : ∀ b a, Upto (f b a) (g b a))
    (as : List α) (b : β) : Upto (as.foldlM f b) (as.foldlM g b) := by
  induction as generalizing b with
  | nil => exact .refl _
  | cons a as ih =>
    rw [List.foldlM_cons, List.foldlM_cons]
    exact (h b a).bind fun b' => ih b'

end Upto

/-- Visits that come to the same as far as the first ones do not run out of
fuel. -/
def VisitsUpto (visit visit' : Visit) : Prop := ∀ s n e, Upto (visit s n e) (visit' s n e)

section Visits

variable {visit visit' : Visit}

theorem walkBranches_upto (h : VisitsUpto visit visit') (parent : ElementState) (i : Nat)
    (ns : List NodeId) (e : Engine) :
    Upto (walkBranches visit parent i ns e) (walkBranches visit' parent i ns e) := by
  induction ns generalizing i e with
  | nil => exact .refl _
  | cons n ns ih => exact (h _ n e).bind fun e' => ih (i + 1) e'

theorem replicate_upto (h : VisitsUpto visit visit') (parent : ElementState) (n : NodeId)
    (copies : Nat) (e : Engine) :
    Upto (replicate visit parent n copies e) (replicate visit' parent n copies e) := by
  unfold replicate
  simp only
  cases (e.template.removeDirective n .multi).parent? n with
  | none => exact .refl _
  | some container => exact walkBranches_upto h _ _ _ _

theorem walkSources_upto (h : VisitsUpto visit visit') (s : ElementState) (n parent : NodeId)
    (index : Nat) (keys : List XPath.DocKey) (e : Engine) :
    Upto (walkSources visit s n parent index keys e)
      (walkSources visit' s n parent index keys e) := by
  induction keys generalizing e with
  | nil => exact .refl _
  | cons key keys ih => exact (h _ _ _).bind fun e' => ih e'

theorem expandSources_upto (h : VisitsUpto visit visit') (s : ElementState) (n : NodeId)
    (e : Engine) : Upto (expandSources visit s n e) (expandSources visit' s n e) := by
  unfold expandSources
  simp only
  cases (e.template.removeDirective n .sources).parent? n with
  | none => exact .refl _
  | some parent => exact walkSources_upto h _ _ _ _ _ _

theorem fetch_upto (h : VisitsUpto visit visit') (parent s : ElementState) (n : NodeId)
    (e : Engine) : Upto (fetch visit parent s n e) (fetch visit' parent s n e) := by
  have hcopies : ∀ copies, Upto (do return (false, ← replicate visit parent n copies e))
      (do return (false, ← replicate visit' parent n copies e)) := fun copies =>
    (replicate_upto h parent n copies e).bind fun _ => .refl _
  unfold fetch
  cases s.sources.primary with
  | none => exact .refl _
  | some key =>
    cases hsource : e.env.docs[key]? with
    | none => simp only [hsource]; exact .refl _
    | some source =>
      simp only [hsource]
      cases source.findAll (e.template.elementPath n) with
      | nil => exact .refl _
      | cons m found =>
        cases found with
        | nil => exact .refl _
        | cons m' found =>
          cases s.multi.expected? with
          | none => exact hcopies _
          | some expected =>
            simp only
            split
            · exact (Upto.refl _).bind fun _ => hcopies _
            · exact hcopies _

theorem walkContent_upto (h : VisitsUpto visit visit') (s : ElementState) (n : NodeId)
    (e : Engine) : Upto (walkContent visit s n e) (walkContent visit' s n e) := by
  unfold walkContent
  split
  · exact upto_foldlM (fun e c => h s c e) _ e
  · exact .refl _

theorem finishElement_upto (h : VisitsUpto visit visit') (s : ElementState) (n : NodeId)
    (e : Engine) : Upto (finishElement visit s n e) (finishElement visit' s n e) :=
  (walkContent_upto h s n e).bind fun _ => .refl _

theorem walkElement_upto (h : VisitsUpto visit visit') (parent s : ElementState) (n : NodeId)
    (e : Engine) : Upto (walkElement visit parent s n e) (walkElement visit' parent s n e) := by
  unfold walkElement
  split
  · refine (fetch_upto h parent s n e).bind fun r => ?_
    obtain ⟨stays, e'⟩ := r
    cases stays with
    | true => exact finishElement_upto h s n e'
    | false => exact .refl _
  · have hplain : Upto
        (if s.declares .required then
          finishElement visit s n { e with deferred := e.deferred.addRequired ⟨s, n⟩ }
        else finishElement visit s n e)
        (if s.declares .required then
          finishElement visit' s n { e with deferred := e.deferred.addRequired ⟨s, n⟩ }
        else finishElement visit' s n e) := by
      split
      · exact finishElement_upto h s n _
      · exact finishElement_upto h s n e
    cases s.multi with
    | flag b => exact hplain
    | count k =>
      simp only
      split
      · exact replicate_upto h parent n (k - 1) e
      · exact hplain

end Visits

/-- More fuel comes to the same. -/
theorem process_upto {fuel fuel' : Nat} (hfuel : fuel ≤ fuel') :
    VisitsUpto (process fuel) (process fuel') := by
  induction fuel generalizing fuel' with
  | zero => exact fun _ _ _ hne => absurd rfl hne
  | succ fuel ih =>
    intro parent n e
    obtain ⟨k, rfl⟩ : ∃ k, fuel' = k + 1 := ⟨fuel' - 1, by omega⟩
    have hvisit : VisitsUpto (process fuel) (process k) := ih (by omega)
    unfold process
    split
    · exact .refl _
    · refine (Upto.refl _).bind fun s => ?_
      split
      · exact walkElement_upto hvisit parent s n e
      · exact expandSources_upto hvisit s n e

/-! ## The fuel of the walk -/

/-- The walk comes to an end, and with any greater amount of fuel to the same
one. -/
theorem process_eq_walk {e : Engine} (hdocs : 0 < e.env.docs.size)
    (htemplate : e.template.WellFormed) (hsources : e.env.sources.Distinct) {fuel : Nat}
    (hfuel : depthBound e.template ≤ fuel) :
    process fuel .root e.template.root e = e.walk.mapError .failed ∧
      process fuel .root e.template.root e ≠ .error .exhausted := by
  have hrun : e.RunsIn e.env := ⟨hdocs, (setTemplate_template hdocs).symm, htemplate⟩
  obtain ⟨f, hf, -⟩ := htemplate.exists_spells [e.template.root]
    (by simpa using htemplate.root_lt_size)
  have hends : process (depthBound e.template) .root e.template.root e ≠ .error .exhausted :=
    (process_root_ends hsources hrun hf (hf.weight_lt_depthBound htemplate.linked)).ne_exhausted
  rw [process_upto hfuel .root e.template.root e hends]
  refine ⟨?_, hends⟩
  unfold walk
  match hwalk : process (depthBound e.template) .root e.template.root e with
  | .ok e' => rfl
  | .error (.failed err) => rfl
  | .error .exhausted => exact absurd hwalk hends

/-- A template with an element that is copied for each source, and in each of
them for both of its counts. -/
def countedTwice : Document :=
  .ofTree [] { name := .plain "a" } none
    (.node (.element
      { name := .plain "b"
        attributes := [⟨⟨some directivePrefix, some directiveNamespace, "sources"⟩, "s"⟩,
          ⟨⟨some directivePrefix, some directiveNamespace, "multi"⟩, "2"⟩,
          ⟨⟨some "q", some directiveNamespace, "multi"⟩, "2"⟩] })
      none .nil .nil)

theorem process_eq_walk_countedTwice :
    ∃ e : Engine, e.template = countedTwice ∧ depthBound e.template = 6 ∧
      process 8 .root e.template.root e = e.walk.mapError .failed ∧
      process 8 .root e.template.root e ≠ .error .exhausted := by
  let source : Document := .ofTree [] { name := .plain "a" } none .nil
  let e : Engine :=
    { env := { docs := #[countedTwice, source, source]
               sources := [("s", { primary := some 1, secondary := [2] })] } }
  have hwf : countedTwice.WellFormed := by
    refine wellFormed_ofTree ?_ _
    simp [Forest.Proper, NodeKind.isElement, NodeKind.element?]
  have hdistinct : e.env.sources.Distinct :=
    SourceMap.distinct_nil.bind (g := { primary := some 1, secondary := [2] }) (by decide) "s"
  refine ⟨e, rfl, rfl, ?_⟩
  exact process_eq_walk (e := e) (by decide) hwf hdistinct (by decide)

end Engine

end LabelTemplate
