import Mathlib
import LabelTemplate.Proofs.Walk.Rebound
import LabelTemplate.Proofs.Walk.Total

/-!
# Each document of a group by itself

An element that names a group of documents is expanded into one copy per
document.  `process_group`: the walk leaves in its place what it leaves for
each document when the moniker names that one alone, in the order of the group,
and fails when it fails for one of them.

The documents of a group can tell in each other's expansion all the same.  All
copies but the last are walked beside the later ones, so their paths name the
first element of the name and find no other; all are resolved below a state
that was evaluated in the first document; and each has lost the directive that
names the group.  `NamesGroup` lists what keeps these from showing.
-/

namespace LabelTemplate

open Xml Document Outcome

namespace TreeWalk

variable {env : Environment} {m : String} {g : SourceGroup} {key : XPath.DocKey}
  {parent s s' : ElementState} {t : Tree}

/-! ## The state that a group is expanded from -/

/-- What an element does not declare it takes from above. -/
theorem kept_of_state (hdocs : 0 < env.docs.size) (h : state env parent t = .ok s) {d : Directive}
    (hd : t.element.declares d = false) :
    ElementState.Kept (· ≠ d) (parent.inherit 0 s.declared) s := by
  obtain ⟨ds, hds, -, hall, -⟩ := (state_eq_ok hdocs).1 h
  have hkept := ElementState.kept_resolveAll hall
  have hdeclared : s.declared = ds := hkept.declared
  rw [hdeclared]
  refine hkept.mono ?_
  rintro _ ⟨x, hx, rfl⟩ rfl
  rw [Element.declares, ← Declarations.declares_of_foldlM hds,
    Declarations.declares_of_mem hx] at hd
  cases hd

/-- All directives of an element that names a group, beside all of the element
that names the first document alone. -/
theorem resolveAll_group (parent : ElementState) {ds : Declarations}
    (hgroup : env.sources.group? m = some g) (hprimary : g.primary = some key)
    (hkey : key ≠ templateKey)
    (hds : t.element.attributes.foldlM addDeclaration [] = .ok (⟨.sources, m⟩ :: ds))
    (haloof : t.element.Aloof env) (u : Document) :
    Alike (fun s s' => s' = { s with sources := .single key } ∧ s.sources = g ∧ s.moniker = some m)
      (ElementState.resolveAll (env.setTemplate u) (parent.inherit 0 (⟨.sources, m⟩ :: ds))
        (⟨.sources, m⟩ :: ds))
      (ElementState.resolveAll ((env.bindSource m key).setTemplate u)
        (parent.inherit 0 (⟨.sources, m⟩ :: ds)) (⟨.sources, m⟩ :: ds)) := by
  obtain ⟨hsorted, hothers⟩ := Declarations.sorted_tail hds
  have hnone : ¬ ∃ x ∈ ds, x.directive = .sources := fun ⟨x, hx, hd⟩ => hothers x hx hd
  have hsingle : ((env.bindSource m key).setTemplate u).sources.group? m = some (.single key) :=
    (env.group?_bindSource m m key).trans (if_pos rfl)
  have hgroup' : (env.setTemplate u).sources.group? m = some g := hgroup
  rw [ElementState.resolveAll_sources hgroup' rfl, ElementState.resolveAll_sources hsingle rfl,
    hprimary]
  have hstart : ElementState.Abreast (⟨.sources, m⟩ :: ds) (some key)
      (fun d => ∃ x ∈ ds, x.directive = d)
      { (parent.inherit 0 (⟨.sources, m⟩ :: ds)).bindNamespaces (env.setTemplate u) (some key) with
        sources := g, moniker := some m }
      { (parent.inherit 0 (⟨.sources, m⟩ :: ds)).bindNamespaces
          ((env.bindSource m key).setTemplate u) (some key) with
        sources := .single key, moniker := some m } :=
    .intro (ElementState.declared_bindNamespaces _ _ _) hprimary rfl
      (fun d _ => congrArg (Declarations.expression? · d) (ElementState.declared_bindNamespaces _ _ _))
      (fun _ => rfl) (fun _ => rfl) fun _ => rfl
  refine (hstart.resolveAll (fun h => hkey (Option.some.inj h))
    (Declarations.aloof_of_foldlM haloof hds) hsorted
    fun x hx => ⟨List.mem_cons_of_mem _ hx, hothers x hx⟩).results.mono (fun _ _ h => h)
      fun s s' ⟨habreast, hs, hs'⟩ => ?_
  have hkept := ElementState.kept_resolveAll hs
  have hkept' := ElementState.kept_resolveAll hs'
  obtain ⟨hsources, hmoniker, -⟩ := hkept.sources hnone
  have hdeclared : s'.declared = s.declared := hkept'.declared.trans hkept.declared.symm
  refine ⟨?_, hsources, hmoniker⟩
  rw [habreast.eq, hdeclared, (hkept'.sources hnone).1]

/-- The state of an element that names a group is the one of the element that
names the first document alone, except for the sources. -/
theorem state_group (hdocs : 0 < env.docs.size) (hgroup : env.sources.group? m = some g)
    (hprimary : g.primary = some key) (hkey : key ≠ templateKey) (hm : t.element.monikers = [m])
    (haloof : t.element.Aloof env)
    (hfetch : ∀ s, state (env.bindSource m key) parent t = .ok s → s.fetch = true) :
    Alike (fun s s' => s' = { s with sources := .single key } ∧ s.sources = g ∧ s.moniker = some m)
      (state env parent t) (state (env.bindSource m key) parent t) := by
  have hdocs' : 0 < (env.bindSource m key).docs.size := hdocs
  cases hds : t.element.attributes.foldlM addDeclaration [] with
  | error fault =>
    rw [state_of_error hdocs hds, state_of_error hdocs' hds]
    exact .error trivial
  | ok ds =>
    obtain ⟨rest, -, rfl⟩ := Declarations.foldlM_eraseP_sources hm (by simp) hds
    have hall := resolveAll_group parent hgroup hprimary hkey hds haloof t.document
    refine (state_alike hdocs hdocs' hds hds Iff.rfl hall.results
      fun s s' hs => ?_).mono (fun _ _ h => h) fun _ _ h => h.1
    obtain ⟨⟨rfl, hsources, -⟩, -, hs'⟩ := hs
    constructor
    · exact fun hvalid => hvalid.rebind _ _ rfl hvalid.required (fun _ _ _ => rfl) hvalid.stub
    · intro hvalid
      have hactive : s.fetch = true := hfetch { s with sources := .single key }
        ((state_eq_ok hdocs').2
          ⟨_, hds, ElementState.not_unbound_cons parent m rest, hs', hvalid⟩)
      exact hvalid.rebind s.sources s.declared rfl hvalid.required
        (fun hf => absurd (hactive.symm.trans hf) (by decide)) hvalid.stub

/-! ## Places -/

/-- A source document in which at most one element is at a path. -/
def Once (docs : XPath.Documents) (path : ElementPath) (key : XPath.DocKey) : Prop :=
  key ≠ templateKey ∧ ∀ source, docs[key]? = some source → (source.findAll path).length ≤ 1

theorem sameBeside_of_once {docs : XPath.Documents} {above : ElementPath} {name : QName}
    (h : Once docs ((⟨above, 0, 0⟩ : Place).path name) key) (extra : Nat) :
    SameBeside docs above name extra key := by
  refine ⟨h.1, fun source hsource b a => ?_⟩
  have hfirst := Document.findAll_first (h.2 source hsource)
  by_cases hbeside : b + a = 0
  · obtain ⟨rfl, rfl⟩ : b = 0 ∧ a = 0 := by omega
    by_cases hextra : extra = 0
    · rw [hextra]
    · simp only [Place.path, hextra, Nat.zero_add, if_false, if_true]
      exact hfirst
  · have hmore : b + (a + extra) ≠ 0 := by omega
    simp only [Place.path, hbeside, hmore, if_false]

theorem sameBeside_zero {docs : XPath.Documents} {above : ElementPath} {name : QName}
    (h : key ≠ templateKey) : SameBeside docs above name 0 key :=
  ⟨h, fun _ _ _ _ => rfl⟩

/-! ## Groups -/

theorem outside_of_moniker {e : Element} (haloof : e.Aloof env) (hm : m ∈ e.monikers)
    (hgroup : env.sources.group? m = some g) : g.Outside := by
  obtain ⟨a, ha, rfl⟩ := List.mem_map.1 hm
  obtain ⟨ha, hname⟩ := List.mem_filter.1 ha
  simp only [Directive.names, QName.hasName, Bool.and_eq_true, beq_iff_eq] at hname
  have hdirective : isDirectiveAttribute a = true := by simp [isDirectiveAttribute, hname.1]
  exact (haloof a ha hdirective .sources (hname.2 ▸ Directive.ofName?_name _)).sources rfl g hgroup

/-- An element below `parent` that names a group of documents, in which at most
the last has several elements at its path. -/
structure Grouped (env : Environment) (m : String) (first : XPath.DocKey)
    (others : List XPath.DocKey) (parent : ElementState) (above : ElementPath) (t : Tree) :
    Prop where
  group : env.sources.group? m = some { primary := some first, secondary := others }
  loaded : ∀ key ∈ first :: others, ∃ source, env.docs[key]? = some source
  monikers : t.element.monikers = [m]
  aloof : t.forest.Aloof env
  describes : t.Describes
  fetch : ∀ s, state (env.bindSource m first) parent t = .ok s → s.fetch = true
  required : ∀ s, state (env.bindSource m first) parent t = .ok s → s.required = some false →
    ∀ key ∈ others, ∀ s', state (env.bindSource m key) parent t = .ok s' →
      s'.required ≠ some true
  once : ∀ key ∈ (first :: others).dropLast,
    Once env.docs ((⟨above, 0, 0⟩ : Place).path t.element.name) key
  kids : t.kids.Monikers fun x => x ≠ m ∧ ∀ g, env.sources.group? x = some g →
    ∀ key ∈ g.members, Once env.docs ((⟨above, 0, 0⟩ : Place).path t.element.name) key

section Grouped

variable {first : XPath.DocKey} {others : List XPath.DocKey} {above : ElementPath}
  (hdocs : 0 < env.docs.size) (h : Grouped env m first others parent above t)

include h

theorem Grouped.outside : ({ primary := some first, secondary := others } : SourceGroup).Outside :=
  outside_of_moniker (h.aloof.1 _ rfl) (h.monikers ▸ List.mem_singleton_self m) h.group

theorem Grouped.ne_template (hkey : key ∈ first :: others) : key ≠ templateKey := by
  rintro rfl
  exact h.outside.no_template hkey

include hdocs

theorem Grouped.state_eq (hs : state env parent t = .ok s) :
    state (env.bindSource m first) parent t = .ok { s with sources := .single first } ∧
      s.sources = { primary := some first, secondary := others } ∧ s.moniker = some m := by
  have halike := state_group hdocs h.group rfl (h.ne_template List.mem_cons_self) h.monikers
    (h.aloof.1 _ rfl) h.fetch
  rw [hs] at halike
  obtain ⟨s', hs', rfl, hbound⟩ := halike.exists_right
  exact ⟨hs', hbound⟩

theorem Grouped.exists_state (hs : state (env.bindSource m first) parent t = .ok s) :
    ∃ s', state env parent t = .ok s' := by
  have halike := state_group hdocs h.group rfl (h.ne_template List.mem_cons_self) h.monikers
    (h.aloof.1 _ rfl) h.fetch
  rw [hs] at halike
  obtain ⟨s', hs', -⟩ := halike.exists_left
  exact ⟨s', hs'⟩

/-- What is not required above an element is not required of it either. -/
theorem Grouped.optional (hs : state env parent t = .ok s) (hparent : parent.required = some false) :
    s.required = some false := by
  obtain ⟨hfirst, -, -⟩ := h.state_eq hdocs hs
  have hactive : s.fetch = true := h.fetch { s with sources := .single first } hfirst
  cases hd : t.element.declares .required with
  | false =>
    have hkept : s.required = parent.required :=
      (kept_of_state hdocs hs hd).required fun hne => hne rfl
    exact hkept.trans hparent
  | true =>
    obtain ⟨ds, hds, -, hall, hvalid⟩ := (state_eq_ok hdocs).1 hs
    rcases ElementState.resolved_required (Declarations.sorted_of_foldlM hds) hall
      ((Declarations.declares_of_foldlM hds .required).trans hd) with ⟨hf, -⟩ | ⟨b, -, hb, -⟩
    · rw [hactive] at hf
      cases hf
    · cases b with
      | false => exact hb
      | true => exact absurd ⟨hb, hparent⟩ hvalid.required

theorem Grouped.copied (hs : state env parent t = .ok s) (hkey : key ∈ first :: others)
    (extra : Nat) (hextra : ∀ k, k = key ∨
      Once env.docs ((⟨above, 0, 0⟩ : Place).path t.element.name) k →
        SameBeside env.docs above t.element.name extra k) :
    Copied env m key above extra (s.rebindSource key env) parent t := by
  obtain ⟨source, hsource⟩ := h.loaded key hkey
  obtain ⟨hfirst, -, hmoniker⟩ := h.state_eq hdocs hs
  obtain ⟨ds, hds, -, -, -⟩ := (state_eq_ok hdocs).1 hs
  have hoptional : parent.required = some false → s.required = some false :=
    h.optional hdocs hs
  rw [ElementState.rebindSource_eq hsource]
  exact
    { rebound :=
        { sources := rfl
          moniker := hmoniker
          namespaces := fun u hu => by
            rw [hsource] at hu
            rw [Option.some.inj hu]
          fetch := fun hd => (kept_of_state hdocs hs hd).fetch fun hne => hne rfl
          required := fun hd => (kept_of_state hdocs hs hd).required fun hne => hne rfl
          multiBranch := fun hd => (kept_of_state hdocs hs hd).multiBranch fun hne => hne rfl }
      declarations := ⟨ds, hds⟩
      monikers := h.monikers
      aloof := h.aloof
      describes := h.describes
      untold :=
        { optional := hoptional
          required := fun hrequired s' hs' => by
            rcases List.mem_cons.1 hkey with rfl | hother
            · rw [hfirst] at hs'
              rw [← Except.ok.inj hs']
              exact fun htrue => by cases hrequired.symm.trans htrue
            · exact h.required { s with sources := .single first } hfirst hrequired key hother s' hs' }
      beside := hextra key (.inl rfl)
      kids := Forest.AllKinds.mono (fun _ hk e he x hx =>
        ⟨(hk e he x hx).1, fun g hg k hkg => hextra k (.inr ((hk e he x hx).2 g hg k hkg))⟩) h.kids }

/-- The copies for documents in which the element is found at most once are
walked one after the other as the elements that name one of them alone. -/
theorem Grouped.walkSources_eq {fuel fuel' : Nat} (hfuel : t.weight ≤ fuel)
    (hfuel' : t.weight < fuel') (hs : state env parent t = .ok s) {keys : List XPath.DocKey}
    (hkeys : ∀ key ∈ keys, key ∈ first :: others ∧
      Once env.docs ((⟨above, 0, 0⟩ : Place).path t.element.name) key) (done : Forest) :
    walkSources env (process env fuel) s ⟨above, 0, 0⟩ (t.mapElement (·.removeDirective .sources))
        keys done =
      keys.foldlM (fun done key =>
        (process (env.bindSource m key) fuel' parent ⟨above, 0, 0⟩ t).map (· ++ done)) done := by
  induction keys generalizing done with
  | nil => rfl
  | cons key keys ih =>
    obtain ⟨hmem, honce⟩ := hkeys key List.mem_cons_self
    obtain ⟨source, hsource⟩ := h.loaded key hmem
    have hcopied := h.copied hdocs hs hmem (done.named t.element.name) fun k hk =>
      sameBeside_of_once (hk.elim (fun he => he ▸ honce) id) _
    have hcopy : process env fuel (s.rebindSource key env)
        ⟨above, 0, done.named t.element.name + 0⟩ (t.mapElement (·.removeDirective .sources)) =
        process (env.bindSource m key) fuel' parent ⟨above, 0, 0⟩ t := by
      rw [Nat.add_comm]
      exact hcopied.process_eq hdocs hsource hfuel hfuel'
    rw [walkSources, List.foldlM_cons]
    refine Eq.trans (congrArg (· >>= _) hcopy) ?_
    cases process (env.bindSource m key) fuel' parent ⟨above, 0, 0⟩ t with
    | error stop => exact Eq.refl (Except.error stop)
    | ok left => exact ih (fun k hk => hkeys k (List.mem_cons_of_mem _ hk)) _

theorem Grouped.expandSources_eq {fuel fuel' : Nat} (hfuel : t.weight ≤ fuel)
    (hfuel' : t.weight < fuel') (hs : state env parent t = .ok s) :
    expandSources env (process env fuel) s ⟨above, 0, 0⟩ t =
      ((first :: others).reverse.mapM fun key =>
        process (env.bindSource m key) fuel' parent ⟨above, 0, 0⟩ t).map
          (·.foldl (fun done left => left ++ done) .nil) := by
  have hmembers : s.sources.members = first :: others := by
    rw [(h.state_eq hdocs hs).2.1]
    rfl
  obtain ⟨front, last, hfront⟩ : ∃ front last, first :: others = front ++ [last] :=
    ⟨_, _, (List.dropLast_append_getLast (List.cons_ne_nil first others)).symm⟩
  have hlast : last ∈ first :: others := hfront ▸ List.mem_append_right _ List.mem_cons_self
  have hkeys : ∀ key ∈ front.reverse, key ∈ first :: others ∧
      Once env.docs ((⟨above, 0, 0⟩ : Place).path t.element.name) key := fun key hkey => by
    have hkey := List.mem_reverse.1 hkey
    refine ⟨hfront ▸ List.mem_append_left _ hkey, h.once key ?_⟩
    rwa [hfront, List.dropLast_concat]
  obtain ⟨source, hsource⟩ := h.loaded last hlast
  have hcopied := h.copied hdocs hs hlast 0 fun k hk =>
    sameBeside_zero (hk.elim (fun he => he ▸ h.ne_template hlast) (·.1))
  have hcopy : process env fuel (s.rebindSource last env) ⟨above, 0, 0⟩
      (t.mapElement (·.removeDirective .sources)) =
      process (env.bindSource m last) fuel' parent ⟨above, 0, 0⟩ t :=
    hcopied.process_eq hdocs hsource hfuel hfuel'
  rw [← foldlM_map, expandSources, hmembers, hfront, List.reverse_append, List.reverse_singleton,
    List.singleton_append, walkSources, List.foldlM_cons]
  refine Eq.trans (congrArg (· >>= _) hcopy) ?_
  cases process (env.bindSource m last) fuel' parent ⟨above, 0, 0⟩ t with
  | error stop => exact Eq.refl (Except.error stop)
  | ok left => exact h.walkSources_eq hdocs hfuel hfuel' hs hkeys _

/-- A group of one document. -/
theorem Grouped.process_single {fuel : Nat} (hothers : others = [])
    (hparent : templateKey ∉ parent.sources.members) (hfuel : t.weight + crowd parent < fuel) :
    process env fuel parent ⟨above, 0, 0⟩ t =
      process (env.bindSource m first) fuel parent ⟨above, 0, 0⟩ t := by
  have hsame : ∀ x, (env.bindSource m first).sources.group? x = env.sources.group? x := fun x => by
    rw [env.group?_bindSource]
    split
    · rw [‹x = m›, h.group, hothers]
      rfl
    · rfl
  refine process_congr hdocs (K := (· ≠ templateKey)) (fun hne => hne rfl) rfl
    (fun key hkey he => hparent (he ▸ hkey)) (fun _ _ _ _ => rfl) h.aloof ?_ hfuel hfuel
  exact Forest.AllKinds.mono (fun k hk e he x hx => ⟨hsame x, fun g hg key hkey hne =>
    (outside_of_moniker (hk e he) hx hg).no_template (hne ▸ hkey)⟩) h.aloof

/-- What is left in the place of an element that names a group is what is left
for each of its documents, one after the other. -/
theorem Grouped.process_eq_ok {fuel : Nat} (hparent : templateKey ∉ parent.sources.members)
    (hfuel : t.weight + crowd parent < fuel) (left : Forest) :
    process env fuel parent ⟨above, 0, 0⟩ t = .ok left ↔
      ∃ lefts, List.Forall₂ (fun key f =>
        process (env.bindSource m key) fuel parent ⟨above, 0, 0⟩ t = .ok f) (first :: others) lefts ∧
          left = lefts.foldr (· ++ ·) .nil := by
  by_cases hothers : others = []
  · rw [h.process_single hdocs hothers hparent hfuel, hothers]
    constructor
    · exact fun hleft => ⟨[left], .cons hleft .nil, (Forest.append_nil left).symm⟩
    · rintro ⟨lefts, hall, rfl⟩
      cases hall with
      | cons hfirst hnone =>
        cases hnone
        rwa [List.foldr_cons, List.foldr_nil, Forest.append_nil]
  · obtain ⟨fuel, rfl⟩ : ∃ k, fuel = k + 1 := ⟨fuel - 1, by omega⟩
    cases hs : state env parent t with
    | error stop =>
      constructor
      · intro hleft
        rw [process, hs] at hleft
        cases hleft
      · rintro ⟨lefts, hall, -⟩
        obtain ⟨left, -, hfirst, -, -⟩ := List.forall₂_cons_left_iff.1 hall
        obtain ⟨s, hs', -⟩ := bind_eq_ok.1 hfirst
        obtain ⟨s', hs'⟩ := h.exists_state hdocs hs'
        rw [hs] at hs'
        cases hs'
    | ok s =>
      have hmany : ¬ s.sources.secondary.isEmpty = true := by
        rw [(h.state_eq hdocs hs).2.1]
        simpa using hothers
      have hexpand : process env (fuel + 1) parent ⟨above, 0, 0⟩ t =
          expandSources env (process env fuel) s ⟨above, 0, 0⟩ t := by
        rw [process, hs]
        exact if_neg hmany
      have hless : t.weight < fuel + 1 := by omega
      rw [hexpand, h.expandSources_eq hdocs (by omega) hless hs, map_eq_ok]
      constructor
      · rintro ⟨lefts, hlefts, rfl⟩
        refine ⟨lefts.reverse, ?_, List.foldr_reverse.symm⟩
        have hall := List.rel_reverse (forall₂_of_mapM hlefts)
        rwa [List.reverse_reverse] at hall
      · rintro ⟨lefts, hall, rfl⟩
        exact ⟨lefts.reverse, mapM_of_forall₂ (List.rel_reverse hall), List.foldl_reverse⟩

end Grouped

end TreeWalk

namespace Engine

/-! ## The walk -/

/-- The engine in which a moniker names one document alone. -/
def bindSource (e : Engine) (m : String) (key : XPath.DocKey) : Engine :=
  { e with env := e.env.bindSource m key }

theorem RunsIn.bindSource {env : Environment} {e : Engine} (h : e.RunsIn env) (m : String)
    (key : XPath.DocKey) : (e.bindSource m key).RunsIn (env.bindSource m key) :=
  ⟨h.docs_pos, congrArg (Environment.bindSource · m key) h.env_eq, h.wellFormed⟩

/-- Below the state `s` the element `n` names a group of loaded documents.  It
fetches, has no sibling of its name, and neither it nor what is below it reads
the template.  At most the last document has several elements at its path, and
none requires the element if the first does not. -/
structure NamesGroup (e : Engine) (s : ElementState) (p : NodeId) (before : List NodeId)
    (n : NodeId) (after : List NodeId) (t : Tree) (m : String) (first : XPath.DocKey)
    (others : List XPath.DocKey) : Prop where
  docs_pos : 0 < e.env.docs.size
  stands : Stands e.template p before n after
  spells : Spells e.template [n] t.forest
  alone : e.template.childrenNamed p t.element.name.namespaceUri t.element.name.localName = [n]
  outside : s.sources.Outside
  single : s.Single
  group : e.env.sources.group? m = some { primary := some first, secondary := others }
  loaded : ∀ key ∈ first :: others, ∃ source, e.env.docs[key]? = some source
  monikers : t.element.monikers = [m]
  aloof : t.forest.Aloof e.env
  describes : t.Describes
  fetch : ∀ s', ElementState.resolve (e.bindSource m first).env s n = .ok s' → s'.fetch = true
  required : ∀ s', ElementState.resolve (e.bindSource m first).env s n = .ok s' →
    s'.required = some false → ∀ key ∈ others, ∀ s'',
      ElementState.resolve (e.bindSource m key).env s n = .ok s'' → s''.required ≠ some true
  once : ∀ key ∈ (first :: others).dropLast, ∀ source, e.env.docs[key]? = some source →
    (source.findAll (e.template.elementPath n)).length ≤ 1
  kids : t.kids.Monikers fun x => x ≠ m ∧ ∀ g, e.env.sources.group? x = some g →
    ∀ key ∈ g.members, ∀ source, e.env.docs[key]? = some source →
      (source.findAll (e.template.elementPath n)).length ≤ 1

namespace NamesGroup

variable {e : Engine} {s : ElementState} {p n : NodeId} {before after : List NodeId} {t : Tree}
  {m : String} {first : XPath.DocKey} {others : List XPath.DocKey}
  (h : e.NamesGroup s p before n after t m first others)

include h

theorem runsIn : e.RunsIn e.env :=
  ⟨h.docs_pos, (setTemplate_template h.docs_pos).symm, h.stands.wellFormed⟩

theorem place_eq : place e.template p before after t.element.name = ⟨e.template.elementPath p, 0, 0⟩ := by
  have hname : e.template.name? n = some t.element.name := by
    rw [Document.name?, h.spells.element?_eq]
    rfl
  have hself : e.template.isNamed t.element.name n = true := by
    rw [isNamed, hname]
    exact QName.hasName_self _
  have halone := h.alone
  rw [childrenNamed_eq, h.stands.children, List.filter_append, List.filter_cons_of_pos hself,
    List.append_eq_singleton_iff] at halone
  obtain ⟨hbefore, hafter⟩ | ⟨-, hafter⟩ := halone
  · rw [place, named, named, List.countP_eq_length_filter, List.countP_eq_length_filter, hbefore,
      (List.cons.inj hafter).2]
    rfl
  · cases hafter

theorem path_eq : (⟨e.template.elementPath p, 0, 0⟩ : TreeWalk.Place).path t.element.name =
    e.template.elementPath n := by
  rw [← h.place_eq, path_eq_place h.stands h.spells]

/-- A state of the tree is one of the element, except for where it stands. -/
theorem exists_resolve {key : XPath.DocKey} (hkey : key ≠ templateKey) {s' : ElementState}
    (hs' : TreeWalk.state (e.env.bindSource m key) s t = .ok s') :
    ∃ s'', ElementState.resolve (e.bindSource m key).env s n = .ok s'' ∧ s''.fetch = s'.fetch ∧
      s''.required = s'.required := by
  have hanswers := state_answers (.refl s) h.outside (h.runsIn.bindSource m key) h.spells
    (h.aloof.bindSource hkey)
  rw [hs'] at hanswers
  obtain ⟨s'', hs'', htwin⟩ := hanswers.exists_right
  obtain ⟨k, rfl⟩ := htwin.twin
  exact ⟨_, mapError_eq_ok.1 hs'', rfl, rfl⟩

theorem no_template : templateKey ∉ first :: others :=
  (TreeWalk.outside_of_moniker (h.aloof.1 _ rfl) (h.monikers ▸ List.mem_singleton_self m)
    h.group).no_template

theorem grouped : TreeWalk.Grouped e.env m first others s (e.template.elementPath p) t where
  group := h.group
  loaded := h.loaded
  monikers := h.monikers
  aloof := h.aloof
  describes := h.describes
  fetch s' hs' := by
    obtain ⟨s'', hs'', hfetch, -⟩ := h.exists_resolve
      (fun he => h.no_template (he ▸ List.mem_cons_self)) hs'
    exact hfetch ▸ h.fetch s'' hs''
  required s' hs' hrequired key hkey u hu := by
    obtain ⟨s'', hs'', -, hsame⟩ := h.exists_resolve
      (fun he => h.no_template (he ▸ List.mem_cons_self)) hs'
    obtain ⟨u', hu', -, hsame'⟩ := h.exists_resolve
      (fun he => h.no_template (he ▸ List.mem_cons_of_mem _ hkey)) hu
    exact hsame' ▸ h.required s'' hs'' (hsame.trans hrequired) key hkey u' hu'
  once key hkey := by
    rw [h.path_eq]
    exact ⟨fun he => h.no_template (he ▸ List.mem_of_mem_dropLast hkey), h.once key hkey⟩
  kids := by
    rw [h.path_eq]
    refine Forest.AllKinds.mono (fun k hk a ha x hx => ?_) (h.aloof.2.1.and h.kids)
    obtain ⟨haloof, hkids⟩ := hk
    obtain ⟨hne, honce⟩ := hkids a ha x hx
    refine ⟨hne, fun g hg key hkey => ⟨fun he => ?_, honce g hg key hkey⟩⟩
    exact (TreeWalk.outside_of_moniker (haloof a ha) hx hg).no_template (he ▸ hkey)

section Answers

variable (fuel : Nat)

/-- The walk of the element, beside the walk of its tree. -/
theorem answers : Answers (Leaves e.env e.template p before n after)
    (TreeWalk.process e.env fuel s ⟨e.template.elementPath p, 0, 0⟩ t) (process fuel s n e) := by
  rw [← h.place_eq]
  exact (readsAs_process e.env fuel).element (.refl s) h.outside h.runsIn h.stands h.spells h.aloof

theorem answers_single {key : XPath.DocKey} (hkey : key ∈ first :: others) :
    Answers (Leaves (e.env.bindSource m key) e.template p before n after)
      (TreeWalk.process (e.env.bindSource m key) fuel s ⟨e.template.elementPath p, 0, 0⟩ t)
      (process fuel s n (e.bindSource m key)) := by
  rw [← h.place_eq]
  exact (readsAs_process (e.env.bindSource m key) fuel).element (.refl s) h.outside
    (h.runsIn.bindSource m key) h.stands h.spells
    (h.aloof.bindSource fun he => h.no_template (he ▸ hkey))

end Answers

end NamesGroup

/-- The documents of a group do not tell in each other's expansion: the walk of
an element that names the group succeeds when it does for each document alone,
and leaves what it leaves for each of them, one after the other. -/
theorem process_group {e : Engine} {s : ElementState} {p n : NodeId} {before after : List NodeId}
    {t : Tree} {m : String} {first : XPath.DocKey} {others : List XPath.DocKey}
    (h : e.NamesGroup s p before n after t m first others) {fuel : Nat} (hfuel : t.weight < fuel) :
    ((∃ e', process fuel s n e = .ok e') ↔
      ∀ key ∈ first :: others, ∃ e', process fuel s n (e.bindSource m key) = .ok e') ∧
    ∀ e', process fuel s n e = .ok e' → ∃ lefts : List Forest,
      List.Forall₂ (fun key f => ∃ e'', process fuel s n (e.bindSource m key) = .ok e'' ∧
        Leaves (e.env.bindSource m key) e.template p before n after f e'') (first :: others) lefts ∧
      Leaves e.env e.template p before n after (lefts.foldr (· ++ ·) .nil) e' := by
  have hcrowd : TreeWalk.crowd s = 0 := TreeWalk.crowd_of_nil h.single
  have hless : t.weight + TreeWalk.crowd s < fuel := by omega
  have hgroup := h.grouped.process_eq_ok h.docs_pos h.outside.no_template hless
  constructor
  · calc (∃ e', process fuel s n e = .ok e')
      _ ↔ ∃ left, TreeWalk.process e.env fuel s ⟨e.template.elementPath p, 0, 0⟩ t = .ok left :=
        (h.answers fuel).exists_iff.symm
      _ ↔ ∃ lefts, List.Forall₂ (fun key f => TreeWalk.process (e.env.bindSource m key) fuel s
            ⟨e.template.elementPath p, 0, 0⟩ t = .ok f) (first :: others) lefts :=
        ⟨fun ⟨left, hleft⟩ => ((hgroup left).1 hleft).imp fun _ h => h.1,
          fun ⟨lefts, hlefts⟩ => ⟨_, (hgroup _).2 ⟨lefts, hlefts, rfl⟩⟩⟩
      _ ↔ ∀ key ∈ first :: others, ∃ f, TreeWalk.process (e.env.bindSource m key) fuel s
            ⟨e.template.elementPath p, 0, 0⟩ t = .ok f := exists_forall₂
      _ ↔ ∀ key ∈ first :: others, ∃ e', process fuel s n (e.bindSource m key) = .ok e' :=
        forall₂_congr fun key hkey => (h.answers_single fuel hkey).exists_iff
  · intro e' he'
    have hanswers := h.answers fuel
    rw [he'] at hanswers
    obtain ⟨left, hleft, hleaves⟩ := hanswers.exists_left
    obtain ⟨lefts, hlefts, rfl⟩ := (hgroup left).1 hleft
    refine ⟨lefts, ?_, hleaves⟩
    refine ((List.forall₂_and_left _ _).2 ⟨fun _ => id, hlefts⟩).imp fun key f ⟨hkey, hf⟩ => ?_
    have hsingle := h.answers_single fuel hkey
    rw [hf] at hsingle
    exact hsingle.exists_right

end Engine

/-! ## An expression that reads nothing -/

namespace ElementState

open XPath

variable {env : Environment} {s : ElementState} {d : Directive}

theorem parse_true : Expr.parse "true()" = .ok (.call none "true" []) := by cbv

theorem evaluate_true (namespaces : Namespaces) (node : Handle) (element : NodeId)
    (source : Option DocKey) :
    env.evaluate (.call none "true" []) namespaces node element source = .ok (.boolean true) := by
  simp only [Environment.evaluate, Scope.evaluate, Scope.eval, Scope.evalAll]
  rfl

theorem evaluateExpression_true {key : DocKey} (hboolean : d.types.boolean = true)
    (hd : (s.declaration d).expression = "true()") (hkey : s.sources.primary = some key) :
    s.evaluateExpression env d = .ok (.boolean true) := by
  rw [evaluateExpression, hkey, hd, parse_true]
  change ((env.evaluate (.call none "true" []) s.namespaces ⟨key, .document⟩
    (s.node.getD env.template.root) (some key)).mapError (s.placeError env d) >>=
      s.conform env d) = _
  rw [evaluate_true]
  exact if_pos hboolean

theorem readsNoTemplate_true (hboolean : d.types.boolean = true) :
    ReadsNoTemplate env ⟨d, "true()"⟩ := by
  intro s n t hs _
  have hd : (s.declaration d).expression = "true()" := congrArg (·.expression) hs
  cases hkey : s.sources.primary with
  | none =>
    simp only [evaluateExpression, hkey]
    rfl
  | some key =>
    rw [evaluateExpression_true hboolean hd hkey,
      evaluateExpression_true (s := { s with node := n }) hboolean hd hkey]

end ElementState

namespace Engine

/-- An element that is fetched from each document of a group. -/
def fetchedFromGroup : Element :=
  { name := .plain "b"
    attributes := [⟨⟨some directivePrefix, some directiveNamespace, "sources"⟩, "s"⟩,
      ⟨⟨some directivePrefix, some directiveNamespace, "fetch"⟩, "true()"⟩,
      ⟨⟨some directivePrefix, some directiveNamespace, "multi"⟩, "true()"⟩] }

def underRoot (f : Forest) : Document := .ofTree [] { name := .plain "a" } none f

def leaf (text : String) (rest : Forest) : Forest :=
  .node (.element { name := .plain "b", text := some text }) none .nil rest

/-- An engine with two documents, of which the second has the element twice. -/
def twiceInLast : Engine :=
  { env :=
      { docs := #[underRoot (.node (.element fetchedFromGroup) none .nil .nil),
          underRoot (leaf "1" .nil), underRoot (leaf "2" (leaf "3" .nil))]
        sources := [("s", { primary := some 1, secondary := [2] })] } }

theorem fetchedFromGroup_aloof : fetchedFromGroup.Aloof twiceInLast.env := by
  intro a ha hdirective d hd
  simp only [fetchedFromGroup, List.mem_cons, List.not_mem_nil, or_false] at ha
  rcases ha with rfl | rfl | rfl
  · obtain rfl : Directive.sources = d := Option.some.inj hd
    exact ⟨fun _ g hg => Option.some.inj hg ▸ ⟨by decide, by decide⟩, fun hne => absurd rfl hne⟩
  · obtain rfl : Directive.fetch = d := Option.some.inj hd
    exact ⟨fun hne => (by cases hne), fun _ => ElementState.readsNoTemplate_true rfl⟩
  · obtain rfl : Directive.multi = d := Option.some.inj hd
    exact ⟨fun hne => (by cases hne), fun _ => ElementState.readsNoTemplate_true rfl⟩

theorem resolves_twiceInLast :
    [1, 2].all (fun key =>
      (ElementState.resolve (twiceInLast.bindSource "s" key).env .root 1).toOption.all fun s =>
        s.fetch && s.required == some true) = true := by
  decide +kernel

theorem namesGroup_twiceInLast :
    twiceInLast.NamesGroup .root 0 [] 1 [] ⟨fetchedFromGroup, none, .nil⟩ "s" 1 [2] where
  docs_pos := by decide
  stands := ⟨wellFormed_ofTree (by simp [fetchedFromGroup, Forest.Proper, NodeKind.isElement,
    NodeKind.element?]) _, .inl rfl, by decide +kernel⟩
  spells := spells_tree.2 ⟨_, rfl, rfl, rfl, .nil⟩
  alone := by decide +kernel
  outside := ⟨by decide, by decide⟩
  single := rfl
  group := rfl
  loaded := by
    intro key hkey
    rcases List.mem_cons.1 hkey with rfl | hkey
    · exact ⟨_, rfl⟩
    · rw [List.mem_singleton.1 hkey]
      exact ⟨_, rfl⟩
  monikers := by decide
  aloof := ⟨fun _ he => Option.some.inj he ▸ fetchedFromGroup_aloof, trivial, trivial⟩
  describes := fun hclass => absurd hclass (by decide)
  fetch s' hs' := by
    have h := List.all_eq_true.1 resolves_twiceInLast 1 (by decide)
    rw [hs'] at h
    exact (Bool.and_eq_true_iff.1 h).1
  required s' hs' hrequired := by
    have h := List.all_eq_true.1 resolves_twiceInLast 1 (by decide)
    rw [hs'] at h
    rw [beq_iff_eq.1 (Bool.and_eq_true_iff.1 h).2] at hrequired
    cases hrequired
  once key hkey source hsource := by
    rw [List.mem_singleton.1 hkey] at hsource
    rw [← Option.some.inj hsource]
    decide +kernel
  kids := trivial

theorem process_group_twiceInLast :
    twiceInLast.NamesGroup .root 0 [] 1 [] ⟨fetchedFromGroup, none, .nil⟩ "s" 1 [2] ∧
      ∃ e', process 8 .root 1 twiceInLast = .ok e' ∧
        (e'.template.children 0).map e'.template.text? = [some "1", some "2", some "3"] ∧
        ∃ lefts : List Forest, List.Forall₂ (fun key f =>
            ∃ e'', process 8 .root 1 (twiceInLast.bindSource "s" key) = .ok e'' ∧
              Leaves (twiceInLast.env.bindSource "s" key) twiceInLast.template 0 [] 1 [] f e'')
            [1, 2] lefts ∧
          Leaves twiceInLast.env twiceInLast.template 0 [] 1 [] (lefts.foldr (· ++ ·) .nil) e' := by
  have hrun : ((process 8 .root 1 twiceInLast).toOption.any fun e' => decide
      ((e'.template.children 0).map e'.template.text? = [some "1", some "2", some "3"])) = true := by
    decide +kernel
  obtain ⟨e', he', htexts⟩ := (Option.any_eq_true _ _).1 hrun
  have hprocess : process 8 .root 1 twiceInLast = .ok e' := toOption_eq_some.1 he'
  exact ⟨namesGroup_twiceInLast, e', hprocess, of_decide_eq_true htexts,
    (process_group namesGroup_twiceInLast (by decide)).2 e' hprocess⟩

/-- The same documents in the other order. -/
def twiceInFirst : Engine :=
  { twiceInLast with
    env := { twiceInLast.env with sources := [("s", { primary := some 2, secondary := [1] })] } }

/-- The condition on what is found in all documents but the last cannot be
left out: beside the copy for the other document the one for the first document
finds the first element only, while alone it finds both. -/
theorem twiceInFirst_loses :
    (process 8 .root 1 twiceInFirst).toOption.map (fun e =>
        (e.template.children 0).map e.template.text?) = some [some "2", some "1"] ∧
      (process 8 .root 1 (twiceInFirst.bindSource "s" 2)).toOption.map (fun e =>
        (e.template.children 0).map e.template.text?) = some [some "2", some "3"] := by
  decide +kernel

end Engine

end LabelTemplate
