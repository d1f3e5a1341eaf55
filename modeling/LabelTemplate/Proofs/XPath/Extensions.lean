import LabelTemplate.Proofs.XPath.Rekeyed
import LabelTemplate.Template.Builtins

/-!
# The built-in functions do not see keys

A built-in function looks at its arguments, at the client's values and at the
clock.  `Carries σ K c c'` says that two calls agree on these up to the keys of
the documents; then the functions answer alike (`carried_of_mem_registry`).
Only `self` looks at the template, and answers alike for one element of it.
-/

namespace LabelTemplate

open Xml XPath Outcome

variable {σ : Rekeying} {K : DocKey → Prop}

/-- Two calls of one function that agree but for the keys of documents. -/
structure ExtensionCall.Carries (σ : Rekeying) (K : DocKey → Prop) (c c' : ExtensionCall) :
    Prop where
  docs : SameDocs σ K c.docs c'.docs
  context : c'.context = c.context
  clock : c'.clock = c.clock
  args : (∀ v ∈ c.args, v.In K) ∧ c'.args = c.args.map (Value.rekey σ)

namespace Builtins

variable {c c' : ExtensionCall}

theorem fail_alike {α β : Type} {r : α → β → Prop} (c c' : ExtensionCall) (fault fault' : NodeFault) :
    Alike r (c.fail fault : Except Error α) (c'.fail fault' : Except Error β) :=
  .error trivial

section Carries

variable (h : c.Carries σ K c')

include h

theorem checkCount_alike (name : String) (least most : Nat) :
    Alike (fun _ _ => True) (checkCount c name least most) (checkCount c' name least most) := by
  unfold checkCount
  rw [h.args.2, List.length_map]
  dsimp only
  split
  · exact fail_alike c c' _ _
  · exact .ok trivial

theorem contextValue_alike : Alike (Carried σ K) (contextValue c) (contextValue c') := by
  have hkey : (c'.args.headD (.string "")).toText c'.docs =
      (c.args.headD (.string "")).toText c.docs := by
    have htext := h.docs.toText_arg h.args.1 0
    rw [← h.args.2, List.getD_eq_getElem?_getD, List.getD_eq_getElem?_getD,
      ← List.head?_eq_getElem?, ← List.head?_eq_getElem?, ← List.headD_eq_head?_getD,
      ← List.headD_eq_head?_getD] at htext
    exact htext
  unfold contextValue
  refine (checkCount_alike h _ _ _).bind fun _ _ _ => ?_
  rw [hkey, h.context]
  dsimp only
  split
  · exact .ok (.string _)
  · exact .ok (.string _)
  · exact fail_alike c c' _ _

omit h in
theorem checkItems_alike (c c' : ExtensionCall) (i : Nat) (vs : List Value) :
    Alike (fun _ _ => True) (checkItems c i vs) (checkItems c' i (vs.map (Value.rekey σ))) := by
  induction vs generalizing i with
  | nil => exact .ok trivial
  | cons v vs ih =>
    cases v with
    | nodes hs =>
      match hs with
      | [] => exact fail_alike c c' _ _
      | [_] => exact ih (i + 1)
      | _ :: _ :: _ => exact fail_alike c c' _ _
    | _ => exact ih (i + 1)

theorem sequence_alike : Alike (Carried σ K) (sequence c) (sequence c') := by
  unfold sequence
  rw [h.args.2]
  refine (checkItems_alike c c' 1 c.args).bind fun _ _ _ => .ok ⟨Value.allIn_iff.2 h.args.1, ?_⟩
  rw [Value.rekey, Value.rekeyAll_eq]

/-! ## Timestamps -/

theorem writtenForm_eq {form : List Value} (hform : ∀ v ∈ form, v.In K) :
    writtenForm c' (form.map (Value.rekey σ)) = writtenForm c form := by
  have htext : (form.map (Value.rekey σ))[0]?.map (·.toText c'.docs) =
      form[0]?.map (·.toText c.docs) := by
    rw [List.getElem?_map]
    cases hv : form[0]? with
    | none => rfl
    | some v => exact congrArg some (h.docs.toText_eq (hform v (List.mem_of_getElem? hv)))
  unfold writtenForm
  rw [htext, h.docs.toNumber_arg? hform 1]

omit h in
theorem writeTime_alike (c c' : ExtensionCall) (t : Time.LabelTime) :
    Alike (Carried σ K) (writeTime c t) (writeTime c' t) := by
  unfold writeTime
  cases t.write with
  | ok text => exact .ok (.string text)
  | error fault => exact fail_alike c c' _ _

omit h in
theorem delta_eq {docs docs' : Documents} (h : SameDocs σ K docs docs') {v : Value}
    (hv : v.In K) : delta docs' (v.rekey σ) = delta docs v := by
  cases v with
  | nodes hs =>
    cases hs with
    | nil => rfl
    | cons x hs =>
      have hx := hv x List.mem_cons_self
      have hunit : unit? docs' (x.rekey σ) = unit? docs x := by
        unfold unit?
        rw [Handle.element?_rekey, Handle.doc_rekey, h.found _ hx]
      simp only [Value.rekey, List.map_cons, delta, hunit, h.stringValue_eq hx]
  | _ => rfl

theorem datetimeAdd_alike : Alike (Carried σ K) (datetimeAdd c) (datetimeAdd c') := by
  unfold datetimeAdd
  refine (checkCount_alike h _ _ _).bind fun _ _ _ => ?_
  obtain ⟨hin, hargs⟩ := h.args
  rw [hargs]
  match hvs : c.args with
  | [] => exact .ok (.string "")
  | [_] => exact .ok (.string "")
  | timestamp :: by_ :: form =>
    rw [hvs] at hin
    obtain ⟨htimestamp, hin⟩ := List.forall_mem_cons.1 hin
    obtain ⟨hby, hform⟩ := List.forall_mem_cons.1 hin
    simp only [List.map_cons, writtenForm_eq h hform, h.docs.toText_eq htimestamp,
      delta_eq h.docs hby]
    cases Time.LabelTime.read (timestamp.toText c.docs) (writtenForm c form).1
        (writtenForm c form).2 with
    | error fault => exact fail_alike c c' _ _
    | ok t =>
      dsimp only
      refine Related.bind (r := Eq) (.ok rfl) fun t t' ht => ?_
      subst ht
      split
      · exact writeTime_alike c c' _
      · exact fail_alike c c' _ _

theorem datetimeNow_alike : Alike (Carried σ K) (datetimeNow c) (datetimeNow c') := by
  unfold datetimeNow
  refine (checkCount_alike h _ _ _).bind fun _ _ _ => ?_
  rw [h.args.2, writtenForm_eq h h.args.1, h.clock]
  exact writeTime_alike c c' _

end Carries

/-- The current element is one node, of the template. -/
theorem selfNode_alike (h : c.Carries σ K c') (hK : K templateKey)
    (hkey : σ.key templateKey = templateKey) (helement : c'.element = c.element) :
    Alike (Carried σ K) (selfNode c) (selfNode c') := by
  unfold selfNode
  refine (checkCount_alike h _ _ _).bind fun _ _ _ => .ok ⟨List.forall_mem_singleton.2 hK, ?_⟩
  rw [helement]
  simp only [Value.rekey, List.map_cons, List.map_nil, Handle.rekey, Handle.inDoc, hkey]

/-- All built-in functions but `self` answer alike. -/
theorem carried_of_mem_registry (h : c.Carries σ K c') {name : String × String} {f : Extension}
    (hf : (name, f) ∈ registry) (hself : name ≠ (directivePrefix, "self")) :
    Alike (Carried σ K) (f c) (f c') := by
  simp only [registry, List.map_cons, List.map_nil, List.mem_cons, Prod.mk.injEq,
    List.not_mem_nil, or_false] at hf
  rcases hf with ⟨-, rfl⟩ | ⟨-, rfl⟩ | ⟨hname, -⟩ | ⟨-, rfl⟩ | ⟨-, rfl⟩ | ⟨-, rfl⟩
  · exact contextValue_alike h
  · exact contextValue_alike h
  · exact absurd hname hself
  · exact sequence_alike h
  · exact datetimeAdd_alike h
  · exact datetimeNow_alike h

end Builtins

end LabelTemplate
