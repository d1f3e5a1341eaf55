import LabelTemplate.Proofs.Walk.States

/-!
# What a directive does to a state

`Step env s d s'` lists what resolving one directive can do, and
`step_of_resolveDirective` says that it does nothing else.  A value depends only
on the primary source, the prefixes, the expression and, for fills, on the
branch (`evaluateExpression_focus`); the groups that monikers stand for do not
matter to it (`evaluateExpression_withSources`).

The directives are resolved in the order of their ranks, and what one of them
sets is not touched by a later one, so the resolved state holds for each
declared directive what its expression stands for in this very state
(`resolved_holds`), and agrees in the others with the state it started from
(`Kept.agreesOn`).
-/

namespace LabelTemplate

open Xml Outcome

namespace ElementState

/-! ## One directive -/

/-- What a directive can do to a state. -/
inductive Step (env : Environment) (s : ElementState) : Directive → ElementState → Prop where
  | sources {g : SourceGroup}
      (h : env.sources.group? (s.declaration .sources).expression = some g) :
      Step env s .sources { s.bindNamespaces env g.primary with
        sources := g, moniker := some (s.declaration .sources).expression }
  | fetch {b : Bool} (h : s.evaluateExpression env .fetch = .ok (.boolean b)) :
      Step env s .fetch { s with fetch := b }
  | flag {b : Bool} (h : s.evaluateExpression env .multi = .ok (.boolean b)) :
      Step env s .multi { s with multi := .flag b }
  | count {k : Nat} (h : s.evaluateExpression env .multi = .ok (.integer k)) :
      Step env s .multi { s with multi := .count k }
  | undecided (hfetch : s.fetch = false) : Step env s .required { s with required := none }
  | required {b : Bool} (hfetch : s.fetch = true)
      (h : s.evaluateExpression env .required = .ok (.boolean b)) :
      Step env s .required { s with required := some b }
  | fill : Step env s .fill s
  | defer {b : Bool} (h : s.evaluateExpression env .defer = .ok (.boolean b)) :
      Step env s .defer { s with defer := b }
  | multiBranch {i : Nat} (h : s.evaluateExpression env .multiBranch = .ok (.integer i)) :
      Step env s .multiBranch { s with multiBranch := some i }
  | reorder {b : Bool} (h : s.evaluateExpression env .reorder = .ok (.boolean b)) :
      Step env s .reorder { s with reorder := b }

variable {env : Environment} {s s' : ElementState} {d : Directive}

theorem step_of_store (h : s.store env d = .ok s') (hfetch : d = .required → s.fetch = true) :
    Step env s d s' := by
  obtain ⟨v, hv, h⟩ := bind_eq_ok.1 h
  cases d <;> cases v <;> cases h
  · exact .fetch hv
  · exact .flag hv
  · exact .count hv
  · exact .required (hfetch rfl) hv
  · exact .defer hv
  · exact .multiBranch hv
  · exact .reorder hv

theorem step_of_resolveDirective (h : s.resolveDirective env d = .ok s') : Step env s d s' := by
  cases d with
  | sources =>
    cases hg : env.sources.group? (s.declaration .sources).expression with
    | none =>
      rw [resolveDirective, bindSources_of_none env hg] at h
      cases h
    | some g =>
      rw [resolveDirective, bindSources_of_some env hg] at h
      cases h
      exact .sources hg
  | fill =>
    cases h
    exact .fill
  | required =>
    simp only [resolveDirective] at h
    split at h
    · exact step_of_store h fun _ => ‹_›
    · cases h
      exact .undecided (by simpa using ‹¬ s.fetch = true›)
  | fetch => exact step_of_store h fun hd => by cases hd
  | multi => exact step_of_store h fun hd => by cases hd
  | defer => exact step_of_store h fun hd => by cases hd
  | multiBranch => exact step_of_store h fun hd => by cases hd
  | reorder => exact step_of_store h fun hd => by cases hd

/-! ## What a value depends on -/

/-- The part of a state that the value of a directive depends on. -/
def focus (s : ElementState) (d : Directive) : ElementState :=
  { sources := { primary := s.sources.primary }
    multiBranch := if d = .fill then s.multiBranch else none
    declared := [s.declaration d]
    namespaces := s.namespaces
    node := s.node }

@[simp] theorem declaration_focus (s : ElementState) (d : Directive) :
    (s.focus d).declaration d = s.declaration d := by
  simp [focus, declaration, Declarations.expression?]

theorem location_focus (s : ElementState) (env : Environment) (d : Directive) :
    (s.focus d).location env = s.location env := rfl

theorem fail_focus {α : Type} (s : ElementState) (env : Environment) (d : Directive)
    (fault : NodeFault) : ((s.focus d).fail env fault : Except Error α) = s.fail env fault := rfl

theorem notCastable_focus {α : Type} (s : ElementState) (env : Environment) (d : Directive)
    (shown : String) :
    ((s.focus d).notCastable env d shown : Except Error α) = s.notCastable env d shown := by
  simp only [notCastable, declaration_focus, fail_focus]

theorem conformNode_focus (s : ElementState) (env : Environment) (d : Directive) :
    (s.focus d).conformNode env d = s.conformNode env d := by
  funext h
  simp only [conformNode, notCastable_focus]

theorem conformScalar_focus (s : ElementState) (env : Environment) (d : Directive)
    (v : XPath.Value) : (s.focus d).conformScalar env d v = s.conformScalar env d v := by
  simp only [conformScalar, notCastable_focus, fail_focus, declaration_focus]

theorem allTexts_focus (s : ElementState) (env : Environment) (d : Directive)
    (items : List (Except Error Conformed)) :
    (s.focus d).allTexts env d items = s.allTexts env d items := by
  induction items with
  | nil => rfl
  | cons item items ih => simp only [allTexts, ih, notCastable_focus]

theorem conformItems_focus (s : ElementState) (env : Environment) (d : Directive)
    (items : List (Except Error Conformed)) :
    (s.focus d).conformItems env d items = s.conformItems env d items := by
  cases items with
  | nil => simp only [conformItems, fail_focus, declaration_focus]
  | cons item items =>
    cases items with
    | nil => rfl
    | cons item' items =>
      simp only [conformItems, fail_focus, declaration_focus, allTexts_focus]
      split
      · rfl
      · have hfill : d = .fill := by simpa using ‹¬ d ≠ .fill›
        simp only [focus, hfill, if_true]

mutual

theorem conform_focus (s : ElementState) (env : Environment) (d : Directive) :
    ∀ v : XPath.Value, (s.focus d).conform env d v = s.conform env d v
  | .boolean b => by rw [conform, conform, conformScalar_focus] <;> nofun
  | .number x => by rw [conform, conform, conformScalar_focus] <;> nofun
  | .string t => by rw [conform, conform, conformScalar_focus] <;> nofun
  | .nodes hs => by rw [conform, conform, conformNode_focus, conformItems_focus]
  | .sequence items => by rw [conform, conform, conformAll_focus, conformItems_focus]

theorem conformAll_focus (s : ElementState) (env : Environment) (d : Directive) :
    ∀ vs : List XPath.Value, (s.focus d).conformAll env d vs = s.conformAll env d vs
  | [] => rfl
  | v :: vs => by rw [conformAll, conformAll, conform_focus, conformAll_focus]

end

theorem evaluateExpression_focus (s : ElementState) (env : Environment) (d : Directive) :
    (s.focus d).evaluateExpression env d = s.evaluateExpression env d := by
  have hconform : (s.focus d).conform env d = s.conform env d :=
    funext (conform_focus s env d)
  have hplace : (s.focus d).placeError env d = s.placeError env d := by
    funext e
    simp only [placeError, declaration_focus, location_focus]
  simp only [evaluateExpression, fail_focus, declaration_focus, hconform, hplace]
  rfl

/-! ### The groups that monikers stand for -/

theorem conformItems_withSources (s : ElementState) (env : Environment) (m : SourceMap)
    (d : Directive) (items : List (Except Error Conformed)) :
    s.conformItems { env with sources := m } d items = s.conformItems env d items := by
  have htexts : ∀ items, s.allTexts { env with sources := m } d items = s.allTexts env d items := by
    intro items
    induction items with
    | nil => rfl
    | cons item items ih =>
      simp only [allTexts, ih]
      rfl
  cases items with
  | nil => rfl
  | cons item items =>
    cases items with
    | nil => rfl
    | cons item' items =>
      simp only [conformItems, htexts]
      rfl

mutual

theorem conform_withSources (s : ElementState) (env : Environment) (m : SourceMap)
    (d : Directive) :
    ∀ v : XPath.Value, s.conform { env with sources := m } d v = s.conform env d v
  | .boolean b => by rw [conform, conform] <;> first | rfl | nofun
  | .number x => by rw [conform, conform] <;> first | rfl | nofun
  | .string t => by rw [conform, conform] <;> first | rfl | nofun
  | .nodes hs => by
    rw [conform, conform, conformItems_withSources]
    rfl
  | .sequence items => by rw [conform, conform, conformAll_withSources, conformItems_withSources]

theorem conformAll_withSources (s : ElementState) (env : Environment) (m : SourceMap)
    (d : Directive) :
    ∀ vs : List XPath.Value, s.conformAll { env with sources := m } d vs = s.conformAll env d vs
  | [] => rfl
  | v :: vs => by rw [conformAll, conformAll, conform_withSources, conformAll_withSources]

end

theorem library_withSources (env : Environment) (m : SourceMap) (element : NodeId)
    (source : Option XPath.DocKey) (depth : Nat) :
    ({ env with sources := m } : Environment).library element source depth =
      env.library element source depth := by
  induction depth with
  | zero => rfl
  | succ depth ih =>
    funext call
    simp only [Environment.library, ih]

theorem evaluateExpression_withSources (s : ElementState) (env : Environment) (m : SourceMap)
    (d : Directive) :
    s.evaluateExpression { env with sources := m } d = s.evaluateExpression env d := by
  have hconform : s.conform { env with sources := m } d = s.conform env d :=
    funext (conform_withSources s env m d)
  simp only [evaluateExpression, Environment.evaluate, library_withSources, hconform]
  rfl

/-! ## What stays of a state -/

/-- The two states differ at most in what the directives in `p` set. -/
structure Kept (p : Directive → Prop) (s s' : ElementState) : Prop where
  declared : s'.declared = s.declared
  node : s'.node = s.node
  sources : ¬ p .sources →
    s'.sources = s.sources ∧ s'.moniker = s.moniker ∧ s'.namespaces = s.namespaces
  fetch : ¬ p .fetch → s'.fetch = s.fetch
  multi : ¬ p .multi → s'.multi = s.multi
  required : ¬ p .required → s'.required = s.required
  defer : ¬ p .defer → s'.defer = s.defer
  multiBranch : ¬ p .multiBranch → s'.multiBranch = s.multiBranch
  reorder : ¬ p .reorder → s'.reorder = s.reorder

theorem Kept.refl (p : Directive → Prop) (s : ElementState) : Kept p s s :=
  ⟨rfl, rfl, fun _ => ⟨rfl, rfl, rfl⟩, fun _ => rfl, fun _ => rfl, fun _ => rfl, fun _ => rfl,
    fun _ => rfl, fun _ => rfl⟩

theorem Kept.trans {p q : Directive → Prop} {s s' s'' : ElementState} (h : Kept p s s')
    (h' : Kept q s' s'') : Kept (fun d => p d ∨ q d) s s'' where
  declared := h'.declared.trans h.declared
  node := h'.node.trans h.node
  sources hd :=
    have h₁ := h.sources fun hp => hd (.inl hp)
    have h₂ := h'.sources fun hq => hd (.inr hq)
    ⟨h₂.1.trans h₁.1, h₂.2.1.trans h₁.2.1, h₂.2.2.trans h₁.2.2⟩
  fetch hd := (h'.fetch fun hq => hd (.inr hq)).trans (h.fetch fun hp => hd (.inl hp))
  multi hd := (h'.multi fun hq => hd (.inr hq)).trans (h.multi fun hp => hd (.inl hp))
  required hd := (h'.required fun hq => hd (.inr hq)).trans (h.required fun hp => hd (.inl hp))
  defer hd := (h'.defer fun hq => hd (.inr hq)).trans (h.defer fun hp => hd (.inl hp))
  multiBranch hd :=
    (h'.multiBranch fun hq => hd (.inr hq)).trans (h.multiBranch fun hp => hd (.inl hp))
  reorder hd := (h'.reorder fun hq => hd (.inr hq)).trans (h.reorder fun hp => hd (.inl hp))

theorem Kept.mono {p q : Directive → Prop} {s s' : ElementState} (h : Kept p s s')
    (hpq : ∀ d, p d → q d) : Kept q s s' where
  declared := h.declared
  node := h.node
  sources hd := h.sources fun hp => hd (hpq _ hp)
  fetch hd := h.fetch fun hp => hd (hpq _ hp)
  multi hd := h.multi fun hp => hd (hpq _ hp)
  required hd := h.required fun hp => hd (hpq _ hp)
  defer hd := h.defer fun hp => hd (hpq _ hp)
  multiBranch hd := h.multiBranch fun hp => hd (hpq _ hp)
  reorder hd := h.reorder fun hp => hd (hpq _ hp)

theorem kept_bindSources (s : ElementState) (env : Environment) (key : Option XPath.DocKey)
    (g : SourceGroup) (moniker : Option String) :
    Kept (· = .sources) s { s.bindNamespaces env key with sources := g, moniker } := by
  unfold bindNamespaces
  split <;> exact ⟨rfl, rfl, fun h => absurd rfl h, fun _ => rfl, fun _ => rfl, fun _ => rfl,
    fun _ => rfl, fun _ => rfl, fun _ => rfl⟩

/-- A directive sets its own part of the state and nothing else. -/
theorem Step.kept (h : Step env s d s') : Kept (· = d) s s' := by
  cases h with
  | sources => exact kept_bindSources s env _ _ _
  | fill => exact Kept.refl _ s
  | _ =>
    constructor <;> first
      | exact rfl
      | exact fun _ => rfl
      | exact fun _ => ⟨rfl, rfl, rfl⟩
      | exact fun h => absurd rfl h

theorem Kept.focus_eq {p : Directive → Prop} (h : Kept p s s') (hp : ¬ p .sources)
    (hd : d ≠ .fill) : s'.focus d = s.focus d := by
  obtain ⟨hsources, -, hnamespaces⟩ := h.sources hp
  simp only [focus, declaration, h.declared, h.node, hsources, hnamespaces, if_neg hd]

/-- A value stays the same while the sources do. -/
theorem Kept.evaluateExpression_eq {p : Directive → Prop} (h : Kept p s s') (hp : ¬ p .sources)
    (hd : d ≠ .fill) : s'.evaluateExpression env d = s.evaluateExpression env d := by
  rw [← evaluateExpression_focus, h.focus_eq hp hd, evaluateExpression_focus]

/-! ## All directives of an element -/

/-- Directives that were all resolved set their own parts of the state. -/
theorem kept_resolveAll {s s' : ElementState} {ds : Declarations} (h : resolveAll env s ds = .ok s') :
    Kept (fun d => ∃ x ∈ ds, x.directive = d) s s' := by
  induction ds generalizing s with
  | nil =>
    cases h
    exact Kept.refl _ _
  | cons x ds ih =>
    rw [resolveAll, List.foldlM_cons] at h
    obtain ⟨s₁, h₁, h⟩ := bind_eq_ok.1 h
    refine ((step_of_resolveDirective h₁).kept.trans (ih h)).mono fun d hd => ?_
    rcases hd with rfl | ⟨y, hy, rfl⟩
    · exact ⟨x, List.mem_cons_self, rfl⟩
    · exact ⟨y, List.mem_cons_of_mem _ hy, rfl⟩

/-- A declared directive was resolved after those of lower rank and before
those of higher rank. -/
theorem exists_step {s s' : ElementState} {ds : Declarations} (hsorted : ds.Sorted) (h : resolveAll env s ds = .ok s')
    {x : Declared} (hx : x ∈ ds) :
    ∃ a a', Kept (·.rank < x.directive.rank) s a ∧ Step env a x.directive a' ∧
      Kept (x.directive.rank < ·.rank) a' s' := by
  obtain ⟨front, back, rfl⟩ := List.append_of_mem hx
  rw [resolveAll, List.foldlM_append] at h
  obtain ⟨a, ha, h⟩ := bind_eq_ok.1 h
  rw [List.foldlM_cons] at h
  obtain ⟨a', hstep, h⟩ := bind_eq_ok.1 h
  obtain ⟨hfront, hback⟩ := hsorted.around
  refine ⟨a, a', (kept_resolveAll ha).mono ?_, step_of_resolveDirective hstep,
    (kept_resolveAll h).mono ?_⟩
  · rintro d ⟨y, hy, rfl⟩
    exact hfront y hy
  · rintro d ⟨y, hy, rfl⟩
    exact hback y hy

/-! ## What the resolved state holds -/

/-- The two states agree in what a directive sets.  A fill sets nothing. -/
def AgreesOn (s t : ElementState) : Directive → Prop
  | .sources => s.sources = t.sources ∧ s.moniker = t.moniker ∧ s.namespaces = t.namespaces
  | .fetch => s.fetch = t.fetch
  | .multi => s.multi = t.multi
  | .required => s.required = t.required
  | .fill => True
  | .defer => s.defer = t.defer
  | .multiBranch => s.multiBranch = t.multiBranch
  | .reorder => s.reorder = t.reorder

/-- What the state holds for a directive that it declares is what the
expression stands for, evaluated against the sources and with the prefixes of
this state.  Without a fetch nothing is decided by `required`. -/
def Holds (env : Environment) (s : ElementState) : Directive → Prop
  | .sources => env.sources.group? (s.declaration .sources).expression = some s.sources ∧
      s.moniker = some (s.declaration .sources).expression ∧
      ∀ source, s.sources.primary.bind (env.docs[·]?) = some source →
        s.namespaces = expressionNamespaces source env.defaultPrefix
  | .fetch => s.evaluateExpression env .fetch = .ok (.boolean s.fetch)
  | .multi => (∃ b, s.multi = .flag b ∧ s.evaluateExpression env .multi = .ok (.boolean b)) ∨
      ∃ k, s.multi = .count k ∧ s.evaluateExpression env .multi = .ok (.integer k)
  | .required => s.fetch = false ∧ s.required = none ∨ ∃ b, s.fetch = true ∧ s.required = some b ∧
      s.evaluateExpression env .required = .ok (.boolean b)
  | .fill => True
  | .defer => s.evaluateExpression env .defer = .ok (.boolean s.defer)
  | .multiBranch => ∃ i, s.multiBranch = some i ∧
      s.evaluateExpression env .multiBranch = .ok (.integer i)
  | .reorder => s.evaluateExpression env .reorder = .ok (.boolean s.reorder)

theorem AgreesOn.refl (s : ElementState) (d : Directive) : s.AgreesOn s d := by
  cases d <;> simp [AgreesOn]

theorem AgreesOn.trans {s t u : ElementState} (h : s.AgreesOn t d) (h' : t.AgreesOn u d) :
    s.AgreesOn u d := by
  cases d with
  | sources => exact ⟨h.1.trans h'.1, h.2.1.trans h'.2.1, h.2.2.trans h'.2.2⟩
  | fill => trivial
  | _ => exact Eq.trans h h'

/-- What is not among the directives that were resolved is as before. -/
theorem Kept.agreesOn {p : Directive → Prop} (h : Kept p s s') (hd : ¬ p d) : s'.AgreesOn s d := by
  cases d with
  | sources => exact h.sources hd
  | fetch => exact h.fetch hd
  | multi => exact h.multi hd
  | required => exact h.required hd
  | fill => trivial
  | defer => exact h.defer hd
  | multiBranch => exact h.multiBranch hd
  | reorder => exact h.reorder hd

/-- A directive that was just resolved is held: what it sets does not change
its own value. -/
theorem Step.holds (h : Step env s d s') : s'.Holds env d := by
  have hvalue : d ≠ .sources → d ≠ .fill →
      s'.evaluateExpression env d = s.evaluateExpression env d := fun hsources hfill =>
    h.kept.evaluateExpression_eq (fun hd => hsources hd.symm) hfill
  cases h with
  | @sources g hgroup =>
    simp only [Holds, declaration, declared_bindNamespaces]
    refine ⟨hgroup, trivial, fun source hsource => ?_⟩
    simp only [bindNamespaces, hsource]
  | fetch h => exact (hvalue (by decide) (by decide)).trans h
  | flag h => exact .inl ⟨_, rfl, (hvalue (by decide) (by decide)).trans h⟩
  | count h => exact .inr ⟨_, rfl, (hvalue (by decide) (by decide)).trans h⟩
  | undecided hfetch => exact .inl ⟨hfetch, rfl⟩
  | required hfetch h => exact .inr ⟨_, hfetch, rfl, (hvalue (by decide) (by decide)).trans h⟩
  | fill => trivial
  | defer h => exact (hvalue (by decide) (by decide)).trans h
  | multiBranch h => exact ⟨_, rfl, (hvalue (by decide) (by decide)).trans h⟩
  | reorder h => exact (hvalue (by decide) (by decide)).trans h

/-- Directives of higher rank do not touch what is held. -/
theorem Kept.holds (h : Kept (d.rank < ·.rank) s s') (hs : s.Holds env d) : s'.Holds env d := by
  have hdeclaration : s'.declaration d = s.declaration d := by
    rw [declaration, h.declared]
    rfl
  have hsources := h.sources (Nat.not_lt_zero _)
  have hvalue : d ≠ .fill → s'.evaluateExpression env d = s.evaluateExpression env d :=
    h.evaluateExpression_eq (Nat.not_lt_zero _)
  cases d with
  | sources =>
    rw [Holds, hsources.1, hsources.2.1, hsources.2.2, hdeclaration]
    exact hs
  | fetch =>
    rw [Holds, hvalue (by decide), h.fetch (Nat.lt_irrefl _)]
    exact hs
  | multi =>
    rw [Holds, hvalue (by decide), h.multi (Nat.lt_irrefl _)]
    exact hs
  | required =>
    rw [Holds, hvalue (by decide), h.fetch (by decide), h.required (Nat.lt_irrefl _)]
    exact hs
  | fill => trivial
  | defer =>
    rw [Holds, hvalue (by decide), h.defer (Nat.lt_irrefl _)]
    exact hs
  | multiBranch =>
    rw [Holds, hvalue (by decide), h.multiBranch (Nat.lt_irrefl _)]
    exact hs
  | reorder =>
    rw [Holds, hvalue (by decide), h.reorder (Nat.lt_irrefl _)]
    exact hs

section Resolved

variable {s s' : ElementState} {ds : Declarations} (hsorted : ds.Sorted)
  (h : resolveAll env s ds = .ok s')

include hsorted h

/-- Every declared directive is held by the resolved state. -/
theorem resolved_holds (hdeclared : ds.declares d = true) : s'.Holds env d := by
  obtain ⟨x, hx, rfl⟩ := Declarations.exists_of_declares hdeclared
  obtain ⟨a, a', -, hstep, hafter⟩ := exists_step hsorted h hx
  exact hafter.holds hstep.holds

theorem resolved_sources (hdeclared : ds.declares .sources = true) :
    env.sources.group? (s.declaration .sources).expression = some s'.sources := by
  have hdeclaration : s'.declaration .sources = s.declaration .sources := by
    rw [declaration, (kept_resolveAll h).declared]
    rfl
  rw [← hdeclaration]
  exact (resolved_holds hsorted h hdeclared).1

theorem resolved_namespaces (hdeclared : ds.declares .sources = true) {source : Document}
    (hsource : s'.sources.primary.bind (env.docs[·]?) = some source) :
    s'.namespaces = expressionNamespaces source env.defaultPrefix :=
  (resolved_holds hsorted h hdeclared).2.2 source hsource

theorem resolved_fetch (hdeclared : ds.declares .fetch = true) :
    s'.evaluateExpression env .fetch = .ok (.boolean s'.fetch) :=
  resolved_holds hsorted h hdeclared

theorem resolved_required (hdeclared : ds.declares .required = true) :
    s'.fetch = false ∧ s'.required = none ∨ ∃ b, s'.fetch = true ∧ s'.required = some b ∧
      s'.evaluateExpression env .required = .ok (.boolean b) :=
  resolved_holds hsorted h hdeclared

end Resolved

/-- Whether something is fetched depends on one value at most. -/
theorem fetch_congr {env env' : Environment} {s₀ s₀' s s' : ElementState} {ds ds' : Declarations}
    (hsorted : ds.Sorted) (h : resolveAll env s₀ ds = .ok s) (hsorted' : ds'.Sorted)
    (h' : resolveAll env' s₀' ds' = .ok s') (hfetch : s₀'.fetch = s₀.fetch)
    (hdeclares : ds'.declares .fetch = ds.declares .fetch)
    (hvalue : ds.declares .fetch = true →
      Alike Eq (s.evaluateExpression env .fetch) (s'.evaluateExpression env' .fetch)) :
    s'.fetch = s.fetch := by
  by_cases hd : ds.declares .fetch = true
  · have hv := hvalue hd
    rw [resolved_fetch hsorted h hd, resolved_fetch hsorted' h' (hdeclares.trans hd)] at hv
    cases hv with
    | ok hv => exact (Conformed.boolean.inj hv).symm
  · have hnone : ∀ {ds : Declarations}, ¬ ds.declares .fetch = true →
        ¬ ∃ x ∈ ds, x.directive = .fetch :=
      fun hd ⟨x, hx, hxd⟩ => hd (hxd ▸ Declarations.declares_of_mem hx)
    rw [(kept_resolveAll h).fetch (hnone hd), (kept_resolveAll h').fetch (hnone (hdeclares ▸ hd)),
      hfetch]

/-- What is required depends on whether something is fetched and on two values
at most. -/
theorem required_congr {env env' : Environment} {s₀ s₀' s s' : ElementState}
    {ds ds' : Declarations} (hsorted : ds.Sorted) (h : resolveAll env s₀ ds = .ok s)
    (hsorted' : ds'.Sorted) (h' : resolveAll env' s₀' ds' = .ok s') (hfetch : s₀'.fetch = s₀.fetch)
    (hrequired : s₀'.required = s₀.required)
    (hdeclares : ∀ d, d = .fetch ∨ d = .required → ds'.declares d = ds.declares d)
    (hvalue : ∀ d, d = .fetch ∨ d = .required → ds.declares d = true →
      Alike Eq (s.evaluateExpression env d) (s'.evaluateExpression env' d)) :
    s'.required = s.required := by
  have hnone : ∀ {ds : Declarations} {d : Directive}, ¬ ds.declares d = true →
      ¬ ∃ x ∈ ds, x.directive = d := fun hd ⟨x, hx, hxd⟩ => hd (hxd ▸ Declarations.declares_of_mem hx)
  have hfetch' : s'.fetch = s.fetch := fetch_congr hsorted h hsorted' h' hfetch
    (hdeclares .fetch (.inl rfl)) (hvalue .fetch (.inl rfl))
  have hsame := hdeclares .required (.inr rfl)
  by_cases hd : ds.declares .required = true
  · rcases resolved_required hsorted h hd with ⟨hf, hr⟩ | ⟨b, hf, hr, hb⟩ <;>
      rcases resolved_required hsorted' h' (hsame.trans hd) with ⟨hf', hr'⟩ | ⟨b', hf', hr', hb'⟩
    · exact hr'.trans hr.symm
    · rw [hf', hf] at hfetch'
      cases hfetch'
    · rw [hf', hf] at hfetch'
      cases hfetch'
    · have hv := hvalue .required (.inr rfl) hd
      rw [hb, hb'] at hv
      cases hv with
      | ok hv => rw [hr, hr', Conformed.boolean.inj hv]
  · rw [(kept_resolveAll h).required (hnone hd),
      (kept_resolveAll h').required (hnone (hsame ▸ hd)), hrequired]

/-! ## What the element declares -/

section Declares

variable {parent : ElementState} {n : NodeId}

/-- The sources of an element are those of its parent or a group that it
names. -/
theorem sources_of_resolve (h : resolve env parent n = .ok s) :
    s.sources = parent.sources ∨ ∃ a ∈ env.template.attributes n,
      Directive.sources.names a = true ∧ env.sources.group? a.value = some s.sources := by
  obtain ⟨ds, hds, -, hall, -⟩ := resolve_eq_ok.1 h
  have hattributes := mapError_eq_ok.1 hds
  by_cases hdeclared : ∃ x ∈ ds, x.directive = .sources
  · obtain ⟨x, hx, hd⟩ := hdeclared
    have hmem := Declarations.declaration_mem hx
    rw [hd] at hmem
    obtain ⟨a, ha, hname, hvalue⟩ := Declarations.exists_attribute hattributes _ hmem
    have hgroup := resolved_sources (Declarations.sorted_of_foldlM hattributes) hall
      (hd ▸ Declarations.declares_of_mem hx)
    exact .inr ⟨a, ha, hname, by rw [hvalue]; exact hgroup⟩
  · exact .inl ((kept_resolveAll hall).sources hdeclared).1

/-- An element is repeated only where it says so. -/
theorem declares_multi_of_resolve (h : resolve env parent n = .ok s)
    (hmulti : s.multi ≠ .flag false) :
    ∃ a ∈ env.template.attributes n, Directive.multi.names a = true := by
  obtain ⟨ds, hds, -, hall, -⟩ := resolve_eq_ok.1 h
  have hdeclared : ∃ x ∈ ds, x.directive = .multi := by
    by_contra hnone
    exact hmulti ((kept_resolveAll hall).multi hnone)
  obtain ⟨x, hx, hd⟩ := hdeclared
  obtain ⟨a, ha, hname, -⟩ := Declarations.exists_attribute (mapError_eq_ok.1 hds) x hx
  exact ⟨a, ha, hd ▸ hname⟩

end Declares

end ElementState

end LabelTemplate
