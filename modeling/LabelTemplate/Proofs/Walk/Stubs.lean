import LabelTemplate.Proofs.Walk.Directives
import LabelTemplate.Proofs.Walk.Refusals
import LabelTemplate.Proofs.Walk.Standing
import LabelTemplate.Proofs.XPath.Failures

/-!
# Stubs

An element whose name is that of a class, with no element in it and nothing declared
about it, is a stub, and a template must not have one.  The check for it is the last
one when a state is resolved, and no other part of a run gives its error: neither the
expressions, as far as the functions of the registry do not (`Builtins.registry_noStub`
says so of the built-in ones), nor the other checks, nor the walk itself.

So a state cannot be resolved for this reason exactly where the element is a stub as it
stands then (`ElementState.resolve_eq_stub_iff`), and the walk fails for it exactly if
it comes to such an element (`Engine.walk_eq_stub_iff`).
-/

namespace LabelTemplate

open Xml XPath Document Outcome

/-! ## The error -/

namespace Error

/-- The place of the element, if the error says that it is a stub. -/
def stub? : Error → Option Location
  | .node .stub l => some l
  | _ => none

theorem stub?_eq_some {e : Error} {l : Location} : e.stub? = some l ↔ e = .node .stub l := by
  constructor
  · intro h
    unfold stub? at h
    split at h
    · cases h
      rfl
    · cases h
  · rintro rfl
    rfl

/-- The error is any other one. -/
abbrev NoStub (e : Error) : Prop := e.stub? = none

end Error

/-! ## What is not a stub -/

namespace Builtins

variable (c : ExtensionCall)

theorem checkCount_noStub (name : String) (least most : Nat) :
    FailsWith Error.NoStub (checkCount c name least most) := by
  unfold checkCount
  dsimp only
  split
  · exact .error rfl
  · exact .ok ()

theorem contextValue_noStub : FailsWith Error.NoStub (contextValue c) := by
  unfold contextValue
  refine (checkCount_noStub c _ _ _).bind fun _ => ?_
  dsimp only
  split
  · exact .ok _
  · exact .ok _
  · exact .error rfl

theorem selfNode_noStub : FailsWith Error.NoStub (selfNode c) :=
  (checkCount_noStub c _ _ _).bind fun _ => .ok _

theorem checkItems_noStub (i : Nat) (vs : List Value) :
    FailsWith Error.NoStub (checkItems c i vs) := by
  fun_induction checkItems c i vs with
  | case1 => exact .ok ()
  | case2 => exact .error rfl
  | case3 => exact .error rfl
  | case4 _ _ _ _ _ ih => exact ih

theorem sequence_noStub : FailsWith Error.NoStub (sequence c) :=
  (checkItems_noStub c 1 c.args).bind fun _ => .ok _

theorem writeTime_noStub (t : Time.LabelTime) : FailsWith Error.NoStub (writeTime c t) := by
  unfold writeTime
  split
  · exact .ok _
  · exact .error rfl

theorem datetimeNow_noStub : FailsWith Error.NoStub (datetimeNow c) :=
  (checkCount_noStub c _ _ _).bind fun _ => writeTime_noStub c _

theorem datetimeAdd_noStub : FailsWith Error.NoStub (datetimeAdd c) := by
  unfold datetimeAdd
  refine (checkCount_noStub c _ _ _).bind fun _ => ?_
  split
  · dsimp only
    split
    · refine FailsWith.bind (.ok _) fun t => ?_
      split
      · exact writeTime_noStub c _
      · exact .error rfl
    · exact .error rfl
  · exact .ok _

/-- No built-in function reports a stub. -/
theorem registry_noStub : Registry.FailsWith Error.NoStub registry := by
  intro name f hf c _ _
  obtain ⟨front, back, hregistry, -⟩ := List.lookup_eq_some_iff.1 hf
  have hmem : (name, f) ∈ registry := by
    rw [hregistry]
    simp
  simp only [registry, List.map_cons, List.map_nil, List.mem_cons, Prod.mk.injEq,
    List.not_mem_nil, or_false] at hmem
  rcases hmem with ⟨-, rfl⟩ | ⟨-, rfl⟩ | ⟨-, rfl⟩ | ⟨-, rfl⟩ | ⟨-, rfl⟩ | ⟨-, rfl⟩
  · exact contextValue_noStub c
  · exact contextValue_noStub c
  · exact selfNode_noStub c
  · exact sequence_noStub c
  · exact datetimeAdd_noStub c
  · exact datetimeNow_noStub c

end Builtins

namespace ElementState

variable (s : ElementState) (env : Environment) (d : Directive)

theorem conformNode_noStub (h : Handle) : FailsWith Error.NoStub (s.conformNode env d h) := by
  unfold conformNode
  split
  · exact .error rfl
  · split <;> exact .ok _

theorem conformScalar_noStub (v : Value) :
    FailsWith Error.NoStub (s.conformScalar env d v) := by
  unfold conformScalar
  dsimp only
  split
  · split_ifs
    · exact .ok _
    · exact .ok _
    · exact .error rfl
  · split_ifs
    · exact .error rfl
    · exact .ok _
    · exact .ok _
    · exact .error rfl
  · split
    · exact .ok _
    · exact .error rfl
  · exact .error rfl

theorem allTexts_noStub {items : List (Except Error Conformed)}
    (h : ∀ item ∈ items, FailsWith Error.NoStub item) :
    FailsWith Error.NoStub (s.allTexts env d items) := by
  induction items with
  | nil => exact .ok []
  | cons item items ih =>
    refine (h item List.mem_cons_self).bind fun v => ?_
    split
    · exact (ih fun x hx => h x (List.mem_cons_of_mem _ hx)).bind fun _ => .ok _
    · exact .error rfl

theorem conformItems_noStub {items : List (Except Error Conformed)}
    (h : ∀ item ∈ items, FailsWith Error.NoStub item) :
    FailsWith Error.NoStub (s.conformItems env d items) := by
  unfold conformItems
  split
  · exact .error rfl
  · exact h _ List.mem_cons_self
  · split
    · exact .error rfl
    · split
      · split
        · exact h _ (List.mem_of_getElem? ‹_›)
        · exact .error rfl
      · exact (s.allTexts_noStub env d h).map

mutual

theorem conform_noStub : ∀ v : Value, FailsWith Error.NoStub (s.conform env d v)
  | .boolean b => by
    unfold conform
    exact s.conformScalar_noStub env d _
  | .number x => by
    unfold conform
    exact s.conformScalar_noStub env d _
  | .string t => by
    unfold conform
    exact s.conformScalar_noStub env d _
  | .nodes hs => by
    unfold conform
    refine s.conformItems_noStub env d fun item hitem => ?_
    obtain ⟨h, -, rfl⟩ := List.mem_map.1 hitem
    exact s.conformNode_noStub env d h
  | .sequence items => by
    unfold conform
    exact s.conformItems_noStub env d (conformAll_noStub items)

theorem conformAll_noStub :
    ∀ vs : List Value, ∀ item ∈ s.conformAll env d vs, FailsWith Error.NoStub item
  | [] => by
    unfold conformAll
    simp
  | v :: vs => by
    unfold conformAll
    exact List.forall_mem_cons.2 ⟨conform_noStub v, conformAll_noStub vs⟩

end

theorem placeError_noStub {e : Error} (h : e.NoStub) : (s.placeError env d e).NoStub := by
  unfold placeError
  split
  · exact h
  · rfl

variable {env} (hregistry : env.registry.FailsWith Error.NoStub)

include hregistry

theorem evaluateExpression_noStub : FailsWith Error.NoStub (s.evaluateExpression env d) := by
  unfold evaluateExpression
  split
  · refine FailsWith.bind ?_ fun e => FailsWith.bind ?_ fun v => s.conform_noStub env d v
    · exact (FailsWith.mapError_of_forall (p := Error.NoStub) _ fun _ => rfl).mapError fun e he =>
        s.placeError_noStub env d he
    · exact (Environment.evaluate_failsWith (fun _ => rfl) (fun _ => rfl) hregistry _ _ _ _ _).mapError
        fun e he => s.placeError_noStub env d he
  · exact .error rfl

theorem store_noStub : FailsWith Error.NoStub (s.store env d) := by
  refine (s.evaluateExpression_noStub d hregistry).bind fun v => ?_
  split <;> first
    | exact .ok _
    | exact .error rfl

theorem resolveDirective_noStub : FailsWith Error.NoStub (s.resolveDirective env d) := by
  unfold resolveDirective
  split
  · unfold bindSources
    dsimp only
    split
    · exact .error rfl
    · exact .ok _
  · exact .ok _
  · split
    · exact s.store_noStub _ hregistry
    · exact .ok _
  · exact s.store_noStub _ hregistry

theorem resolveAll_noStub (ds : Declarations) : FailsWith Error.NoStub (resolveAll env s ds) :=
  FailsWith.foldlM fun x _ s => s.resolveDirective_noStub x.directive hregistry

theorem evalFill_noStub : FailsWith Error.NoStub (s.evalFill env) := by
  unfold evalFill
  split
  · exact .ok _
  · refine (s.evaluateExpression_noStub .fill hregistry).bind fun v => ?_
    split
    · exact .ok _
    · exact .ok _
    · exact .error rfl

end ElementState

/-! ## What is a stub -/

/-- A class with no element in it. -/
def Xml.Document.IsHollow (d : Document) (n : NodeId) : Prop :=
  (d.name? n).any ElementState.isClassName = true ∧ d.hasElementChildren n = false

theorem Xml.Document.IsHollow.isComment_eq {d : Document} {n : NodeId} (h : d.IsHollow n) :
    d.isComment n = false := by
  obtain ⟨name, hname, -⟩ := (Option.any_eq_true _ _).1 h.1
  exact isComment_of_isElement (by rw [← name?_isSome, hname]; rfl)

/-- A class with nothing in it, about which nothing is declared. -/
structure Xml.Document.IsStub (d : Document) (n : NodeId) : Prop where
  hollow : d.IsHollow n
  bare : ∀ a ∈ d.attributes n, isDirectiveAttribute a = false

/-- Nothing is declared exactly where no attribute is a directive. -/
theorem Xml.Document.declarations_eq_nil_iff {d : Document} {n : NodeId} :
    d.declarations n = .ok [] ↔ ∀ a ∈ d.attributes n, isDirectiveAttribute a = false := by
  rw [Document.declarations, mapError_eq_ok]
  exact Declarations.foldlM_eq_nil_iff

theorem Xml.Document.declarations_noStub (d : Document) (n : NodeId) :
    FailsWith Error.NoStub (d.declarations n) := by
  have hstep : ∀ (ds : Declarations) (a : Attribute),
      FailsWith (fun fault => (Error.node fault (d.location n)).NoStub) (addDeclaration ds a) := by
    intro ds a
    unfold addDeclaration
    split
    · exact .ok _
    · split
      · exact .error rfl
      · split
        · exact .error rfl
        · exact .ok _
  exact (FailsWith.foldlM fun a _ ds => hstep ds a).mapError fun _ h => h

namespace ElementState

variable {env : Environment} {parent s : ElementState} {n : NodeId} {l : Location}

/-- The error is about something else than a stub, or the element is one as far as its
state tells. -/
def Blames (s : ElementState) (env : Environment) (n : NodeId) (err : Error) : Prop :=
  err.NoStub ∨
    err = .node .stub (env.template.location n) ∧ env.template.IsHollow n ∧ s.declared = []

/-- The last of the checks is the one for stubs. -/
theorem validate_failsWith : FailsWith (s.Blames env n) (s.validate env parent n) := by
  have hstub : FailsWith (s.Blames env n)
      (if ((env.template.name? n).any isClassName && !env.template.hasElementChildren n &&
        s.declared.isEmpty) = true then .error (.node .stub (env.template.location n))
      else pure () : Except Error Unit) := by
    split
    · rename_i hall
      simp only [Bool.and_eq_true, Bool.not_eq_true', List.isEmpty_iff] at hall
      exact .error (.inr ⟨rfl, hall.1, hall.2⟩)
    · exact .ok ()
  unfold validate
  dsimp only
  refine .check (.inl rfl) (.check (.inl rfl) (.check (.inl rfl) ?_))
  split
  · refine .check (.inl rfl) ?_
    split
    · exact .error (.inl rfl)
    · exact hstub
    · exact .check (.inl rfl) hstub
  · exact hstub

/-- What is inherited passes all the other checks. -/
theorem validate_inherit (h : env.template.IsHollow n) :
    (inherit parent n []).validate env parent n =
      .error (.node .stub (env.template.location n)) := by
  have hrequired : ¬ ((inherit parent n []).required = some true ∧
      parent.required = some false) := by
    rintro ⟨htrue, hfalse⟩
    cases htrue.symm.trans hfalse
  unfold validate
  rw [if_neg hrequired, h.1, h.2, show (inherit parent n []).fetch = parent.fetch from rfl]
  cases parent.fetch <;> rfl

/-- Resolving an element fails with a stub exactly at a class with nothing in it, about
which nothing is declared. -/
theorem resolve_eq_stub_iff (hregistry : env.registry.FailsWith Error.NoStub) :
    resolve env parent n = .error (.node .stub l) ↔
      env.template.IsStub n ∧ env.template.location n = l := by
  constructor
  · intro h
    obtain h | ⟨ds, hds, -⟩ := bind_eq_error.1 h
    · cases (declarations_noStub env.template n).of_eq_error h
    by_cases hbound : Unbound parent ds
    · rw [resolve_unbound hds hbound] at h
      cases h
    rw [resolve_eq hds hbound] at h
    obtain h | ⟨s, hs, h⟩ := bind_eq_error.1 h
    · cases (resolveAll_noStub _ hregistry ds).of_eq_error h
    obtain h | ⟨⟨⟩, -, h⟩ := bind_eq_error.1 h
    · obtain hother | ⟨hl, hhollow, hdeclared⟩ := validate_failsWith.of_eq_error h
      · cases hother
      · cases hl
        have hnil : ds = [] := (kept_resolveAll hs).declared.symm.trans hdeclared
        exact ⟨⟨hhollow, declarations_eq_nil_iff.1 (hnil ▸ hds)⟩, rfl⟩
    · cases h
  · rintro ⟨⟨hhollow, hbare⟩, rfl⟩
    have hds := declarations_eq_nil_iff.2 hbare
    rw [resolve_eq hds fun h => h.1 rfl]
    exact bind_eq_error.2 (.inr ⟨_, rfl, bind_eq_error.2 (.inl (validate_inherit hhollow))⟩)

end ElementState

namespace Engine

/-! ## Turns at stubs -/

/-- A failure of a walk is not that of a stub. -/
def NoStub (fault : WalkFault) : Prop := ∀ err, fault = .failed err → err.NoStub

theorem noStub_mapError {α : Type} {x : Except Error α} (h : FailsWith Error.NoStub x) :
    FailsWith NoStub (x.mapError .failed) :=
  h.mapError fun err herr err' h => by
    cases h
    exact herr

theorem noStub_fail {α : Type} {fault : NodeFault} {l : Location}
    (h : (Error.node fault l).NoStub) : FailsWith NoStub (fail fault l : Except WalkFault α) :=
  .error fun err herr => by
    cases herr
    exact h

variable {env : Environment} {e : Engine} {s : ElementState} {n : NodeId} {l : Location}

theorem prospect_noStub (s : ElementState) (n : NodeId) (e : Engine) :
    FailsWith NoStub (prospect s n e) := by
  have hfound : ∀ (source : Document) (found : List NodeId),
      FailsWith NoStub (onFound s n e source found) := by
    intro source found
    unfold onFound
    split
    · split
      · exact noStub_fail rfl
      · exact .ok _
    · split <;> exact .ok _
    · split
      · split
        · exact noStub_fail rfl
        · exact .ok _
      · exact .ok _
  unfold prospect
  split
  · exact .ok _
  · split
    · unfold lookUp
      split
      · split
        · exact hfound _ _
        · exact noStub_fail rfl
      · exact noStub_fail rfl
    · dsimp only
      split_ifs <;> exact .ok _

theorem applyFill_noStub (d : Document) (n : NodeId) (v : FillValue) :
    FailsWith Error.NoStub (d.applyFill n v) := by
  have hfill : ∀ text, FailsWith (fun fault => (Error.node fault (d.location n)).NoStub)
      (v.applyTo text) := by
    intro text
    unfold FillValue.applyTo
    dsimp only
    split
    · exact .ok _
    · exact .error rfl
    · split
      · exact .ok _
      · exact .error rfl
  unfold Document.applyFill
  split
  · exact .ok _
  · rename_i fault hfault
    exact .error ((hfill _).of_eq_error hfault)

/-- The fill of an element with nothing in it. -/
theorem finishElement_noStub (hregistry : e.env.registry.FailsWith Error.NoStub) (visit : Visit)
    (hleaf : e.template.hasElementChildren n = false) :
    FailsWith NoStub (finishElement visit s n e) := by
  have hcontent : FailsWith NoStub (walkContent visit s n e) := by
    unfold walkContent
    rw [if_neg (by rw [hleaf]; exact Bool.false_ne_true)]
    split
    · exact .ok _
    · split
      · exact .ok _
      · refine (noStub_mapError (s.evalFill_noStub hregistry)).bind fun v => ?_
        split
        · exact .ok _
        · exact (noStub_mapError (applyFill_noStub _ _ _)).bind fun _ => .ok _
  exact hcontent.bind fun _ => .ok _

namespace Turn

variable {t : Turn}

/-- An element is refused as a stub exactly if it is one. -/
theorem refuses_stub_iff (hregistry : t.engine.env.registry.FailsWith Error.NoStub) :
    t.Refuses (.node .stub l) ↔ t.engine.template.IsStub t.node ∧ t.location = l := by
  constructor
  · intro h
    cases h with
    | state _ h => exact (ElementState.resolve_eq_stub_iff hregistry).1 h
    | prospect h => cases (prospect_noStub _ _ _).of_eq_error h.prospect _ rfl
    | @fill s e₁ _ h hleaf hfill =>
      have henv : e₁.env.registry = t.engine.env.registry := by
        obtain ⟨q, rfl⟩ | ⟨-, source, m, rfl⟩ := prospect_stays h.prospect <;> rfl
      cases (finishElement_noStub (henv ▸ hregistry) _ hleaf).of_eq_error hfill _ rfl
  · intro h
    exact .state h.1.hollow.isComment_eq ((ElementState.resolve_eq_stub_iff hregistry).2 h)

end Turn

/-- The walk fails with a stub exactly if it comes to one. -/
theorem walk_eq_stub_iff (hrun : e.RunsIn env) (hdistinct : env.sources.Distinct)
    (hregistry : env.registry.FailsWith Error.NoStub) :
    e.walk = .error (.node .stub l) ↔ ∃ t, (Turn.first e).Reaches t ∧
      t.engine.template.IsStub t.node ∧ t.location = l := by
  rw [walk_eq_error_iff (by simp)]
  refine exists_congr fun t => and_congr_right fun hreach => Turn.refuses_stub_iff ?_
  rw [(Turn.sound_of_reaches hdistinct hrun hreach).runs.env_eq]
  exact hregistry

end Engine

end LabelTemplate
