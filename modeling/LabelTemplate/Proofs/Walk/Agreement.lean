import LabelTemplate.Proofs.Walk.Refinement
import LabelTemplate.Proofs.Walk.TreeSteps

/-!
# What a walk depends on

The walk of a tree depends on the state above it only as far as elements
inherit it (`ElementState.heritage`), on where the tree stands only as far as
its path finds something in the sources (`FindsSame`), on the monikers only as
far as they are named in the tree, and not on the fuel, as long as there is
more of it than the tree weighs.  `process_congr` says all of this at once.
-/

namespace LabelTemplate

open Xml Outcome

namespace Xml

/-! ## Monikers -/

/-- The monikers that an element names. -/
def Element.monikers (e : Element) : List String :=
  (e.attributes.filter Directive.sources.names).map (·.value)

theorem Element.value_mem_monikers {e : Element} {a : Attribute} (ha : a ∈ e.attributes)
    (hname : Directive.sources.names a = true) : a.value ∈ e.monikers :=
  List.mem_map_of_mem (List.mem_filter.2 ⟨ha, hname⟩)

/-- Every moniker that is named in the forest has the property. -/
def Forest.Monikers (P : String → Prop) (f : Forest) : Prop :=
  f.AllKinds fun k => ∀ e, k.element? = some e → ∀ x ∈ e.monikers, P x

theorem Forest.AllKinds.of_mem_trees {P : NodeKind → Prop} {f : Forest} (h : f.AllKinds P)
    {t : Tree} (ht : t ∈ f.trees) : t.forest.AllKinds P := by
  induction f with
  | nil => cases ht
  | node kind line kids rest _ ih =>
    cases kind with
    | comment text => exact ih h.2.2 ht
    | element e =>
      rcases List.mem_cons.1 ht with rfl | ht
      · exact ⟨h.1, h.2.1, trivial⟩
      · exact ih h.2.2 ht

theorem Element.monikers_removeDirective {e : Element} {d : Directive} {x : String}
    (h : x ∈ (e.removeDirective d).monikers) : x ∈ e.monikers := by
  have hsub : ((e.removeDirective d).attributes).Sublist e.attributes := List.eraseP_sublist
  exact ((hsub.filter _).map _).mem h

theorem Forest.Monikers.top {P : String → Prop} {t : Tree} (h : t.forest.Monikers P) :
    ∀ x ∈ t.element.monikers, P x :=
  h.1 t.element rfl

theorem Forest.Monikers.removeDirective {P : String → Prop} {t : Tree}
    (h : t.forest.Monikers P) (d : Directive) :
    (t.mapElement (·.removeDirective d)).forest.Monikers P :=
  ⟨fun _ he x hx => by
    cases he
    exact h.top x (Element.monikers_removeDirective hx), h.2⟩

/-! ## Paths that find the same -/

/-- Both paths find the same in every document whose key is in `K`. -/
def FindsSame (docs : XPath.Documents) (K : XPath.DocKey → Prop) (path path' : ElementPath) :
    Prop :=
  ∀ key source, K key → docs[key]? = some source → source.findAll path = source.findAll path'

theorem FindsSame.append {docs : XPath.Documents} {K : XPath.DocKey → Prop}
    {path path' : ElementPath} (h : FindsSame docs K path path') (rest : ElementPath) :
    FindsSame docs K (path ++ rest) (path' ++ rest) := by
  intro key source hkey hsource
  have hsame := h key source hkey hsource
  simp only [Document.findAll] at hsame ⊢
  rw [List.foldl_append, List.foldl_append, hsame]

end Xml

namespace ElementState

/-! ## What is inherited -/

/-- The part of a state that elements below inherit. -/
def heritage (s : ElementState) : ElementState := s.inherit 0 []

variable {env : Environment} {s s' : ElementState} {m : SourceMap}

theorem inherit_congr (h : s.heritage = s'.heritage) (n : NodeId) (ds : Declarations) :
    s.inherit n ds = s'.inherit n ds :=
  congrArg (fun a : ElementState => { a with declared := ds, node := some n }) h

theorem heritage_branch (h : s.heritage = s'.heritage) (branch : Option Nat) :
    { s with multiBranch := branch }.heritage = { s' with multiBranch := branch }.heritage :=
  congrArg (fun a : ElementState => { a with multiBranch := branch }) h

theorem resolveDirective_withSources {d : Directive} (h : d = .sources →
    m.group? (s.declaration .sources).expression =
      env.sources.group? (s.declaration .sources).expression) :
    s.resolveDirective { env with sources := m } d = s.resolveDirective env d := by
  have hstore : ∀ d, s.store { env with sources := m } d = s.store env d := fun d => by
    simp only [store, evaluateExpression_withSources]
    rfl
  cases d with
  | sources =>
    cases hg : env.sources.group? (s.declaration .sources).expression with
    | none =>
      rw [resolveDirective, resolveDirective, bindSources_of_none env hg,
        bindSources_of_none { env with sources := m } ((h rfl).trans hg)]
      rfl
    | some g =>
      rw [resolveDirective, resolveDirective, bindSources_of_some env hg,
        bindSources_of_some { env with sources := m } ((h rfl).trans hg)]
      rfl
  | fill => rfl
  | required =>
    simp only [resolveDirective, hstore]
  | fetch => exact hstore _
  | multi => exact hstore _
  | defer => exact hstore _
  | multiBranch => exact hstore _
  | reorder => exact hstore _

/-- Resolving against other groups comes to the same where the declared
monikers stand for the same. -/
theorem resolveAll_withSources (env : Environment) {ds : Declarations} (hds : s.declared = ds)
    (h : ∀ x ∈ ds, x.directive = .sources →
      m.group? x.expression = env.sources.group? x.expression) :
    Alike Eq (resolveAll { env with sources := m } s ds) (resolveAll env s ds) := by
  refine (Related.foldlM (s := fun a b => a = b ∧ b.declared = ds) ⟨rfl, hds⟩ ?_).mono
    (fun _ _ h => h) fun _ _ h => h.1
  rintro x hx a _ ⟨rfl, hdeclared⟩
  have hmem := Declarations.declaration_mem hx
  rw [resolveDirective_withSources fun hd => ?_]
  · cases hstep : a.resolveDirective env x.directive with
    | error e => exact .error trivial
    | ok a' =>
      exact .ok ⟨rfl, (step_of_resolveDirective hstep).kept.declared.trans hdeclared⟩
  · rw [hd] at hmem
    rw [declaration, hdeclared]
    exact h _ hmem rfl

/-! ## Values -/

/-- States with the same focus agree about a directive that does not read the
template, whatever template they are in and whatever the monikers stand for. -/
theorem evaluateExpression_alike {d : Directive} {t t' : Document}
    (hfocus : s.focus d = s'.focus d) (hd : ReadsNoTemplate env (s.declaration d))
    (hprimary : s.sources.primary ≠ some templateKey) :
    Alike Eq (s.evaluateExpression (env.setTemplate t) d)
      (s'.evaluateExpression ({ env with sources := m }.setTemplate t') d) := by
  have hsame : s'.evaluateExpression ({ env with sources := m }.setTemplate t') d =
      s.evaluateExpression (env.setTemplate t') d := by
    refine (evaluateExpression_withSources s' (env.setTemplate t') m d).trans ?_
    rw [← evaluateExpression_focus s', ← hfocus, evaluateExpression_focus]
  rw [hsame]
  exact evaluateExpression_related t t' ⟨s.node, rfl⟩ hd hprimary

theorem evalFill_alike {t t' : Document} (hdeclared : s.declares .fill = true)
    (hdeclared' : s'.declares .fill = true) (hfocus : s.focus .fill = s'.focus .fill)
    (hd : ReadsNoTemplate env (s.declaration .fill))
    (hprimary : s.sources.primary ≠ some templateKey) :
    Alike Eq (s.evalFill (env.setTemplate t))
      (s'.evalFill ({ env with sources := m }.setTemplate t')) := by
  have hskip : (!s.declares .fill) ≠ true := by simp [hdeclared]
  have hskip' : (!s'.declares .fill) ≠ true := by simp [hdeclared']
  rw [evalFill, evalFill]
  refine Eq.mpr (congrArg₂ (Alike Eq) (if_neg hskip) (if_neg hskip')) ?_
  refine (evaluateExpression_alike hfocus hd hprimary).bind fun v v' hv => ?_
  cases hv
  cases v with
  | text x => exact .ok rfl
  | texts xs => exact .ok rfl
  | boolean b => exact .error trivial
  | integer k => exact .error trivial

end ElementState

namespace TreeWalk

variable {env : Environment} {parent parent' s : ElementState} {t : Tree} {m : SourceMap}

theorem mem_monikers {as : List Attribute} {ds : Declarations} {e : Element}
    (he : e.attributes = as) (h : as.foldlM addDeclaration [] = .ok ds) {x : Declared}
    (hx : x ∈ ds) (hd : x.directive = .sources) : x.expression ∈ e.monikers := by
  obtain ⟨a, ha, hname, hvalue⟩ := Declarations.exists_attribute h x hx
  rw [hd] at hname
  exact hvalue ▸ Element.value_mem_monikers (he ▸ ha) hname

/-- The state of a tree depends on what is inherited and on what the monikers
of its element stand for. -/
theorem state_congr (hdocs : 0 < env.docs.size) (h : parent.heritage = parent'.heritage)
    (hmonikers : ∀ x ∈ t.element.monikers, m.group? x = env.sources.group? x) :
    state { env with sources := m } parent' t = state env parent t := by
  have hsources : parent.sources = parent'.sources := congrArg (·.sources) h
  have hrequired : parent.required = parent'.required := congrArg (·.required) h
  have hdocs' : 0 < ({ env with sources := m } : Environment).docs.size := hdocs
  cases hds : t.element.attributes.foldlM addDeclaration [] with
  | error fault => rw [state_of_error hdocs' hds, state_of_error hdocs hds]
  | ok ds =>
    refine state_eq_of_alike (state_alike (r := Eq) hdocs' hdocs hds hds ?_ ?_ ?_)
    · rw [ElementState.Unbound, ElementState.Unbound, hsources]
    · rw [ElementState.inherit_congr h]
      exact ElementState.resolveAll_withSources (env.setTemplate t.document) rfl
        fun x hx hd => hmonikers _ (mem_monikers rfl hds hx hd)
    · rintro a _ rfl
      constructor
      · exact fun hvalid => hvalid.rebind _ _ rfl (hrequired ▸ hvalid.required) hvalid.group hvalid.stub
      · exact fun hvalid => hvalid.rebind _ _ rfl (hrequired ▸ hvalid.required) hvalid.group hvalid.stub

/-! ## The walk -/

/-- A moniker stands for the same group in both maps, one of documents in `K`. -/
def SameGroup (env : Environment) (m : SourceMap) (K : XPath.DocKey → Prop) (x : String) : Prop :=
  m.group? x = env.sources.group? x ∧
    ∀ g, env.sources.group? x = some g → ∀ key ∈ g.members, K key

/-- One where several sources are inherited, as they are then rebound in a
step of its own. -/
def crowd (parent : ElementState) : Nat := if parent.sources.secondary.isEmpty then 0 else 1

theorem crowd_of_nil (h : parent.sources.secondary = []) : crowd parent = 0 := by
  rw [crowd, h]
  rfl

theorem crowd_rebindSource (s : ElementState) (key : XPath.DocKey) (env : Environment) :
    crowd (s.rebindSource key env) = 0 :=
  crowd_of_nil (by rw [ElementState.sources_rebindSource]; rfl)

theorem primary_mem {s : ElementState} {key : XPath.DocKey} (h : s.sources.primary = some key) :
    key ∈ s.sources.members := by
  simp [SourceGroup.members, h]

theorem aloof_fill (hdocs : 0 < env.docs.size) (h : state env parent t = .ok s)
    (haloof : t.forest.Aloof env) (hfill : s.declares .fill = true) :
    ReadsNoTemplate env (s.declaration .fill) := by
  obtain ⟨ds, hds, -, hall, -⟩ := (state_eq_ok hdocs).1 h
  have hdeclared : s.declared = ds := (ElementState.kept_resolveAll hall).declared
  rw [ElementState.declares, hdeclared] at hfill
  obtain ⟨x, hx, hd⟩ := Declarations.exists_of_declares hfill
  have hmem := Declarations.declaration_mem hx
  rw [hd] at hmem
  rw [ElementState.declaration, hdeclared]
  exact (Declarations.aloof_of_foldlM (haloof.1 _ rfl) hds _ hmem).evaluation fun hd => by cases hd

/-- Two walks of one tree that see the same sources come to the same, given
enough fuel each. -/
theorem process_congr (hdocs : 0 < env.docs.size) {K : XPath.DocKey → Prop}
    (hK : ¬ K templateKey) {fuel fuel' : Nat} {above above' : ElementPath} {before after : Nat}
    (hheritage : parent.heritage = parent'.heritage) (hkeys : ∀ key ∈ parent.sources.members, K key)
    (hpaths : FindsSame env.docs K above above') (haloof : t.forest.Aloof env)
    (hmonikers : t.forest.Monikers (SameGroup env m K)) (hfuel : t.weight + crowd parent < fuel)
    (hfuel' : t.weight + crowd parent' < fuel') :
    process env fuel parent ⟨above, before, after⟩ t =
      process { env with sources := m } fuel' parent' ⟨above', before, after⟩ t := by
  induction fuel generalizing fuel' parent parent' above above' before after t with
  | zero => omega
  | succ fuel ih =>
    obtain ⟨fuel', rfl⟩ : ∃ f, fuel' = f + 1 := ⟨fuel' - 1, by omega⟩
    have hsources : parent.sources = parent'.sources := congrArg (·.sources) hheritage
    have hcrowd : crowd parent' = crowd parent := by rw [crowd, crowd, hsources]
    simp only [process]
    rw [state_congr hdocs hheritage fun x hx => (hmonikers.top x hx).1]
    cases hs : state env parent t with
    | error stop => exact Eq.refl (Except.error stop)
    | ok s =>
      have hmembers : ∀ key ∈ s.sources.members, K key := by
        rcases sources_of_state hdocs hs with hsame | ⟨a, ha, hname, hg⟩
        · rwa [hsame]
        · exact (hmonikers.top a.value (Element.value_mem_monikers ha hname)).2 _ hg
      by_cases hsecondary : s.sources.secondary = []
      · have hwalk : SameWalk env { env with sources := m } (process env fuel)
            (process { env with sources := m } fuel') parent parent' s s ⟨above, before, after⟩
            ⟨above', before, after⟩ t t :=
          { fetch := rfl
            multi := rfl
            required := rfl
            defer := rfl
            fill := rfl
            primary := rfl
            docs := fun _ _ => rfl
            found := fun key source hkey hsource =>
              hpaths.append _ key source (hmembers key (primary_mem hkey)) hsource
            element := rfl
            line := rfl
            kids := rfl
            copies := fun hmulti copies => by
              have hless := Tree.weight_removeDirective_lt (declares_multi_of_state hdocs hs hmulti)
              refine replicate_congr rfl (fun i b a => ?_) copies
              exact ih (ElementState.heritage_branch hheritage _) hkeys hpaths
                (Engine.Aloof.removeDirective haloof .multi) (hmonikers.removeDirective .multi)
                (by change _ + crowd parent < _; omega) (by change _ + crowd parent' < _; omega)
            below := fun c hc b a => by
              have hle := Forest.weight_le_of_mem hc
              have hzero := crowd_of_nil hsecondary
              rw [Tree.weight] at hfuel hfuel'
              exact ih rfl hmembers (hpaths.append _) (haloof.2.1.of_mem_trees hc)
                (hmonikers.2.1.of_mem_trees hc) (by omega) (by omega)
            value := fun u u' hfill => quiet_congr
              (ElementState.evalFill_alike hfill hfill rfl (aloof_fill hdocs hs haloof hfill)
                fun hprimary => hK (hmembers _ (primary_mem hprimary))) }
        have hempty : s.sources.secondary.isEmpty = true := by rw [hsecondary]; rfl
        exact (if_pos hempty).trans (hwalk.walkElement_eq.trans (if_pos hempty).symm)
      · have hempty : ¬ s.sources.secondary.isEmpty = true := by simpa using hsecondary
        refine (if_neg hempty).trans (Eq.trans ?_ (if_neg hempty).symm)
        have hless : (t.mapElement (·.removeDirective .sources)).weight < t.weight + crowd parent := by
          rcases sources_of_state hdocs hs with hsame | ⟨a, ha, hname, -⟩
          · have hle := t.weight_removeDirective_le .sources
            have hone : crowd parent = 1 := by simpa [crowd, ← hsame] using hsecondary
            omega
          · have hlt := Tree.weight_removeDirective_lt (List.any_eq_true.2 ⟨a, ha, hname⟩)
            omega
        refine walkSources_congr rfl (fun key hkey a => ?_) .nil
        have hmember : key ∈ s.sources.members := List.mem_reverse.1 hkey
        refine ih rfl ?_ hpaths (Engine.Aloof.removeDirective haloof .sources)
          (hmonikers.removeDirective .sources) ?_ ?_
        · rw [ElementState.sources_rebindSource]
          intro k hk
          rw [List.mem_singleton.1 hk]
          exact hmembers key hmember
        · rw [crowd_rebindSource]
          omega
        · rw [crowd_rebindSource]
          omega

end TreeWalk

end LabelTemplate
