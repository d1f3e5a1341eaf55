import LabelTemplate.Proofs.Arena.Outline
import LabelTemplate.Proofs.Walk.Counterparts
import LabelTemplate.Proofs.Walk.Counts

/-!
# An element with any number of counterparts

An element whose `multi` is true is repeated as often as it has counterparts.  Its
own turn cannot fail because of their number.  Each copy is looked up again, by a
path that has a number now, and may have one counterpart only, since it asks for
no copies any more.

All goes well if the counterparts are siblings: the element itself finds the first
of them and stays where it is (`Turn.Sound.stays_first`), so the path of every copy
has a number.  Counterparts of several parents make the walk fail at the element
itself, which finds the first one of each parent (`walk_openCount`).
-/

namespace LabelTemplate

open Xml Document Outcome

/-- An element is bound to the same as its branches. -/
theorem ElementState.sources_branch {env env' : Environment} {parent s s' : ElementState}
    {n c : NodeId} {u : Tree} {b : Option Nat} (hgroups : env'.sources = env.sources)
    (hn : env.template.attributes n = u.element.attributes)
    (hc : env'.template.attributes c = (u.element.removeDirective .multi).attributes)
    (h : resolve env parent n = .ok s)
    (h' : resolve env' { parent with multiBranch := b } c = .ok s') : s'.sources = s.sources := by
  obtain ⟨ds, hds, -, hall, -⟩ := resolve_eq_ok.1 h
  obtain ⟨ds', hds', -, hall', -⟩ := resolve_eq_ok.1 h'
  have hds := hn ▸ mapError_eq_ok.1 hds
  have hds' := hc ▸ mapError_eq_ok.1 hds'
  have hdeclares : ds'.declares .sources = ds.declares .sources :=
    TreeWalk.declares_branch hds hds' (by decide)
  by_cases hsources : ds.declares .sources = true
  · have hgroup := resolved_sources (Declarations.sorted_of_foldlM hds) hall hsources
    have hgroup' := resolved_sources (Declarations.sorted_of_foldlM hds') hall'
      (hdeclares.trans hsources)
    have hmoniker : declaration (inherit { parent with multiBranch := b } c ds') .sources =
        declaration (inherit parent n ds) .sources := by
      simp only [declaration, inherit,
        TreeWalk.expression?_branch hds hds' (d := .sources) (by decide)]
    rw [hgroups, hmoniker] at hgroup'
    exact Option.some.inj (hgroup'.symm.trans hgroup)
  · have hnone : ∀ {ds : Declarations}, ¬ ds.declares .sources = true →
        ¬ ∃ x ∈ ds, x.directive = .sources := by
      rintro ds hd ⟨x, hx, hxd⟩
      exact hd (hxd ▸ Declarations.declares_of_mem hx)
    exact ((kept_resolveAll hall').sources (hnone (hdeclares ▸ hsources))).1.trans
      ((kept_resolveAll hall).sources (hnone hsources)).1.symm

theorem Xml.Document.name?_stripDirectives (d : Document) (n m : NodeId) :
    (d.stripDirectives n).name? m = d.name? m :=
  (SameOutline.updateElement d n (·.stripDirectives) fun _ => rfl).name? m

namespace Engine

variable {env : Environment}

/-! ## Failing because of the number of counterparts -/

/-- The walk cannot go past the element of the turn because of the number of its
counterparts. -/
def Turn.Miscounts (t : Turn) (found expected : Nat) : Prop :=
  ∃ s, t.Faces s (fail (.matchCount found expected) t.location)

section Prospect

variable {s : ElementState} {n : NodeId} {e : Engine} {at_ : Location} {m k : Nat}

/-- Only several counterparts can be the wrong number of them. -/
theorem many_of_matchCount (h : prospect s n e = fail (.matchCount m k) at_) :
    s.multi ≠ .flag true ∧ ∃ source found, Finds s n e source found ∧ 2 ≤ found.length := by
  have hsingle : s.sources.secondary = [] := by
    by_contra hmany
    rw [prospect_eq_spreads.2 hmany] at h
    cases h
  have hfetch : s.fetch = true := by
    by_contra hfetch
    rw [prospect_unfetched hsingle (by simpa using hfetch)] at h
    split at h
    · cases h
    · split at h <;> cases h
  obtain ⟨source, hfinds⟩ | hnone | hnone := finds_or_fails s n e hsingle hfetch
  · have hmany : 2 ≤ (source.findAll (e.template.elementPath n)).length := by
      rw [hfinds.prospect_eq] at h
      match hfound : source.findAll (e.template.elementPath n) with
      | [] =>
        rw [hfound, onFound] at h
        split at h <;> cases h
      | [a] =>
        rw [hfound, onFound] at h
        split at h <;> cases h
      | a :: b :: rest => simp
    refine ⟨fun hmulti => ?_, source, _, hfinds, hmany⟩
    rw [hfinds.many hmany, hmulti] at h
    cases h
  · cases h.symm.trans hnone
  · cases h.symm.trans hnone

end Prospect

/-! ## An element that stays -/

section Stays

variable {s : ElementState} {n : NodeId} {e e' : Engine}

theorem name?_finishElement (hdistinct : env.sources.Distinct) {fuel : Nat} {u : Tree}
    (hs : s.Single) (hrun : e.RunsIn env) (hatt : Within e.template e.template.root n)
    (hn : Spells e.template [n] u.forest) (hlight : u.kids.weight < fuel)
    (hok : finishElement (process fuel) s n e = .ok e') :
    e'.template.name? n = e.template.name? n := by
  have hstrip : ∀ {e₁ : Engine}, e₁.RunsIn env →
      (e₁.mapTemplate (·.stripDirectives n)).template.name? n = e₁.template.name? n := by
    intro e₁ hrun₁
    have hstripped : (e₁.template.stripDirectives n).WellFormed :=
      hrun₁.wellFormed.updateElement n _
    rw [mapTemplate, (hrun₁.setTemplate hstripped).2, name?_stripDirectives]
  by_cases hinner : e.template.hasElementChildren n = true
  · rw [Turn.finishElement_inner hinner] at hok
    obtain ⟨e₁, hwalk, hok⟩ := bind_eq_ok.1 hok
    obtain rfl : e₁.mapTemplate (·.stripDirectives n) = e' := Except.ok.inj hok
    obtain ⟨left, hleft, -⟩ := walk_kids hdistinct hrun.wellFormed.linked hs (fun _ => id)
      (fun m hm => by
        obtain ⟨g, hg, hle⟩ := hn.kids.exists_of_mem hm
        exact ⟨g, hg, Nat.lt_of_le_of_lt hle hlight⟩)
      (by rw [List.append_nil]; exact row_kids hrun hatt) hwalk
    rw [hstrip hleft.runs]
    exact hleft.frame.name? (hrun.wellFormed.lt_size_of_within_root hatt)
      (hrun.wellFormed.acyclic n)
  · rw [finishElement, walkContent, if_neg hinner] at hok
    obtain ⟨e₁, hcontent, hok⟩ := bind_eq_ok.1 hok
    obtain rfl : e₁.mapTemplate (·.stripDirectives n) = e' := Except.ok.inj hok
    split at hcontent
    · cases hcontent
      exact hstrip hrun
    · split at hcontent
      · cases hcontent
        exact hstrip ⟨hrun.docs_pos, hrun.env_eq, hrun.wellFormed⟩
      · obtain ⟨v, -, hcontent⟩ := bind_eq_ok.1 hcontent
        cases v with
        | none =>
          cases hcontent
          exact hstrip hrun
        | some v =>
          obtain ⟨d, hd, hcontent⟩ := bind_eq_ok.1 hcontent
          cases hcontent
          obtain ⟨text, rfl⟩ := applyFill_spec (mapError_eq_ok.1 hd)
          have hfilled : (e.template.setText n (some text)).WellFormed :=
            hrun.wellFormed.updateElement n _
          obtain ⟨hrun₁, htemplate⟩ := hrun.setTemplate hfilled
          rw [hstrip hrun₁, htemplate]
          exact (SameOutline.setText _ _ _).name? n

/-- An element that stays is where it was and called what it was called. -/
theorem Turn.Sound.stays {P : Tree → Prop} {t : Turn} {e₁ : Engine}
    (hdistinct : env.sources.Distinct) (h : t.Sound env P) (hs : t.Faces s (.ok (.stays e₁)))
    (hok : t.result = .ok e') :
    Inside t.engine.template t.node e'.template ∧
      e'.template.name? t.node = t.engine.template.name? t.node := by
  obtain ⟨u, hu, hweight, -⟩ := h.exists_tree hs.element
  have hless := kids_lighter u
  have hsingle : s.Single := (prospect_eq_ok hs.prospect nofun).1
  have hok : finishElement (process t.fuel) s t.node e₁ = .ok e' := hs.result_eq.symm.trans hok
  have hfinish : ∀ (e₁ : Engine) (u₁ : Tree), e₁.RunsIn env →
      Within e₁.template e₁.template.root t.node → Spells e₁.template [t.node] u₁.forest →
      u₁.kids = u.kids → finishElement (process t.fuel) s t.node e₁ = .ok e' →
      Inside e₁.template t.node e'.template ∧
        e'.template.name? t.node = e₁.template.name? t.node := by
    intro e₁ u₁ hrun hatt hu₁ hkids hok
    have hlight : u₁.kids.weight < t.fuel := by
      rw [hkids]
      omega
    have hends := finishElement_ends (process_ends hdistinct t.fuel) hsingle hrun hatt hu₁ hlight
    rw [hok] at hends
    exact ⟨hends.of_ok.2.1, name?_finishElement hdistinct hsingle hrun hatt hu₁ hlight hok⟩
  rcases prospect_stays hs.prospect with ⟨q, rfl⟩ | ⟨-, source, m, rfl⟩
  · exact hfinish { t.engine with deferred := q } u ⟨h.runs.docs_pos, h.runs.env_eq, h.runs.wellFormed⟩ h.attached hu rfl hok
  · -- the content is taken before the element is finished
    rw [mapTemplate, copyContent_eq] at hok
    have hinside := Inside.updateElement h.runs.wellFormed t.node
      (·.takeContent (source.attributes m) (source.text? m))
    obtain ⟨hrun, htemplate⟩ := h.runs.setTemplate hinside.wellFormed
    have hu₁ := spells_updateElement h.runs.wellFormed.linked hu
      (·.takeContent (source.attributes m) (source.text? m))
    obtain ⟨hinside', hname⟩ := hfinish _ (u.mapElement _) hrun
      (by rw [htemplate]; exact hinside.attached h.runs.wellFormed h.attached)
      (by rwa [htemplate]) rfl hok
    rw [htemplate] at hinside' hname
    refine ⟨hinside.trans h.runs.wellFormed hinside', hname.trans ?_⟩
    exact (SameOutline.updateElement _ _ _ fun x => x.name_takeContent _ _).name? t.node

end Stays

/-! ## The first copy -/

section First

variable {P : Tree → Prop} {t : Turn} {s : ElementState} {source : Document} {g : SourceGroup}
  {name : QName} {p : NodeId} {before after front todo ns : List NodeId} {copies : Nat}
  {e₁ e₂ : Engine}

/-- The turn that an element is given as the first of its branches. -/
def Turn.firstBranch (t : Turn) (fuel : Nat) (e₁ : Engine) : Turn :=
  ⟨fuel, { t.parent with multiBranch := some 0 }, t.node, e₁⟩

/-- What is known of an element in front of its copies. -/
theorem Turn.Sound.firstBranch (h : t.Sound env P)
    (hd : Stands t.engine.template p before t.node after)
    (hname : t.engine.template.name? t.node = some name) (hs : t.Faces s (.ok (.repeats copies)))
    (hns : withCopies t.node t.engine copies = some (t.node :: ns, e₁)) (fuel : Nat) :
    Stands e₁.template p before t.node (ns ++ after) ∧ e₁.template.name? t.node = some name ∧
      e₁.template.elementPath p = t.engine.template.elementPath p ∧
      e₁.template.named name before = t.engine.template.named name before ∧
      e₁.template.named name (ns ++ after) = copies + t.engine.template.named name after ∧
      ∀ s', (t.firstBranch fuel e₁).state = .ok s' → s'.sources = s.sources := by
  obtain ⟨u, ids, hids, hlen, hu, -, -, hrow, -, hspells⟩ := h.branch_start hd hs hns
  obtain rfl : ns = ids := (List.cons.inj hids).2
  have hself := hspells t.node List.mem_cons_self
  obtain ⟨hbefore, hafter⟩ := hd.named_eq hrow.frame name
  have hstands : Stands e₁.template p before t.node (ns ++ after) := by
    simpa using hrow.stands
  obtain rfl : u.element.name = name := by
    rw [Document.name?, hu.element?_eq] at hname
    exact Option.some.inj hname
  refine ⟨hstands, ?_, (hd.path_eq hrow.runs.wellFormed hrow.frame).2, hbefore, ?_, fun s' hs' =>
    ElementState.sources_branch (by rw [h.runs.env_eq, hrow.runs.env_eq]; rfl) hu.attributes_eq
      hself.attributes_eq hs.state hs'⟩
  · rw [Document.name?, hself.element?_eq]
    rfl
  · have hcopies : e₁.template.named u.element.name ns = ns.length :=
      named_eq_length (t := u.mapElement (·.removeDirective .multi)) fun c hc =>
        hspells c (List.mem_cons_of_mem _ hc)
    rw [named_append, hafter, hcopies, hlen]

/-- If the element itself stays, it stays while other branches are walked. -/
theorem Turn.Sound.first_row (hdistinct : env.sources.Distinct) (h : t.Sound env P) {fuel : Nat}
    (hfuel : t.fuel = fuel + 1) (hd : Stands t.engine.template p before t.node after)
    (hs : t.Faces s (.ok (.repeats copies)))
    (hns : withCopies t.node t.engine copies = some (t.node :: front ++ todo, e₁))
    (hstays : ∀ e', (t.firstBranch fuel e₁).result = .ok e' →
      t.node ∈ e'.template.children p ∧ e'.template.name? t.node = some name)
    (hok : walkRow (process t.fuel) (branches t.parent 0 (t.node :: front)) e₁ = .ok e₂) :
    ∃ left, Row env t.engine.template (¬ Within t.engine.template t.node ·) p before after
        t.engine.deferred left todo e₂ ∧
      t.node ∈ left ∧ e₂.template.name? t.node = some name := by
  obtain ⟨u, ids, -, -, -, -, hlight, hrow, hnew, hspells⟩ := h.branch_start hd hs hns
  rw [branches, walkRow, List.foldlM_cons] at hok
  obtain ⟨e', hfirst, hrest⟩ := bind_eq_ok.1 hok
  have hlinked := hd.wellFormed.linked
  have hmem : ∀ m ∈ front, m ∈ t.node :: front ++ todo := fun m hm =>
    List.mem_append_left _ (List.mem_cons_of_mem _ hm)
  -- the element itself
  have hone : walkRow (process t.fuel) (branches t.parent 0 [t.node]) e₁ = .ok e' := by
    rw [branches, branches, walkRow, List.foldlM_cons, hfirst]
    rfl
  obtain ⟨left, hleft, hkept⟩ := walk_branches hdistinct hlinked h.single
    (fun m hm => hnew m (by rw [List.mem_singleton.1 hm]; exact List.mem_cons_self))
    (fun m hm => ⟨_, hspells m (by rw [List.mem_singleton.1 hm]; exact List.mem_cons_self), hlight⟩)
    (show Row _ _ _ _ _ _ _ [] ([t.node] ++ (front ++ todo)) e₁ from hrow) hone
  obtain ⟨hchild, hname⟩ := hstays e' (by rw [Turn.result, ← hfirst, hfuel]; rfl)
  have hin : t.node ∈ left := by
    have hapart : t.node ∉ before ++ [] ∧ t.node ∉ front ++ todo ++ after := hrow.stands.not_mem
    rw [hleft.children] at hchild
    simp only [List.mem_append, List.not_mem_nil, false_or, or_false] at hchild hapart
    tauto
  -- the other branches
  obtain ⟨more, hmore, hkept'⟩ := walk_branches hdistinct hlinked h.single
    (fun m hm => hnew m (hmem m hm))
    (fun m hm => ⟨_, hkept m (List.mem_append_right _ (List.mem_append_left _ hm)) _
      (hspells m (hmem m hm)), hlight⟩) hleft hrest
  refine ⟨_, hmore, List.mem_append_left _ hin, ?_⟩
  have helement : e'.template.isElement t.node = true := by
    rw [← name?_isSome, hname]
    rfl
  obtain ⟨f, hf, -⟩ := hleft.runs.wellFormed.exists_spells [t.node]
    (by simpa using lt_size_of_isElement helement)
  obtain ⟨v, rfl⟩ := hf.exists_tree helement
  have hf' := hkept' t.node (List.mem_append_left _ hin) _ hf
  rw [Document.name?, hf'.element?_eq, ← hf.element?_eq]
  exact hname

theorem path_eq_of_name? {d : Document} {n : NodeId} (hd : Stands d p before n after)
    (hname : d.name? n = some name) :
    d.elementPath n = (place d p before after name).path name := by
  rw [hd.wellFormed.elementPath_child hd.parent hname hd.attached,
    segmentOf_eq hd.children hname hd.not_mem.1]
  rfl

/-- Where siblings of the name come after an element its path has a number. -/
theorem path_of_later {d : Document} {n : NodeId} (hd : Stands d p before n after)
    (hname : d.name? n = some name) (hafter : d.named name after ≠ 0) :
    d.elementPath n = (⟨d.elementPath p, d.named name before, 1⟩ : TreeWalk.Place).path name :=
  (path_eq_of_name? hd hname).trans (TreeWalk.Place.path_eq_of_later hafter Nat.one_ne_zero)

/-- An element stays where it is if siblings of its name come after it and its path
finds one counterpart, however many branches it is walked as. -/
theorem Turn.Sound.stays_first (hdistinct : env.sources.Distinct)
    (hP : KeptByCopies P)
    (hsingle : g.secondary = [])
    (hloaded : ∀ e : Engine, e.RunsIn env → g.primary.bind (e.env.docs[·]?) = some source)
    (h : t.Sound env P) (hbound : ∀ s, t.state = .ok s → s.sources = g)
    (hd : Stands t.engine.template p before t.node after)
    (hname : t.engine.template.name? t.node = some name)
    (hafter : t.engine.template.named name after ≠ 0)
    (hone : (source.findAll ((⟨t.engine.template.elementPath p,
      t.engine.template.named name before, 1⟩ : TreeWalk.Place).path name)).length = 1)
    {e' : Engine} (hok : t.result = .ok e') :
    t.node ∈ e'.template.children p ∧ e'.template.name? t.node = some name := by
  obtain ⟨k, hk⟩ : ∃ k, t.fuel = k := ⟨_, rfl⟩
  induction k using Nat.strong_induction_on generalizing t after e' with
  | _ k ih =>
  have helement : t.engine.template.isComment t.node = false :=
    isComment_of_isElement (by rw [← name?_isSome, hname]; rfl)
  obtain ⟨s, x, hs, -⟩ := Turn.exists_faces helement hok
  have hg := hbound s hs.state
  cases x with
  | goes e₁ =>
    obtain ⟨-, ⟨source', hfinds, hfound⟩ | ⟨k, -, -, hx⟩ | ⟨q, -, hx⟩⟩ :=
      prospect_eq_ok hs.prospect nofun
    · obtain rfl : source' = source :=
        Option.some.inj (hfinds.loaded.symm.trans (hg ▸ hloaded _ h.runs))
      rw [← path_of_later hd hname hafter] at hone
      obtain ⟨hnone, -, -⟩ | ⟨m, -, ⟨-, hx⟩ | ⟨-, hx⟩⟩ | ⟨-, -, hx⟩ := onFound_eq_ok hfound
      · rw [hnone] at hone
        cases hone
      · cases hx
      · cases hx
      · cases hx
    · cases hx
    · cases hx
  | stays e₁ =>
    obtain ⟨hinside, hkept⟩ := h.stays hdistinct hs hok
    refine ⟨?_, hkept.trans hname⟩
    rw [(hinside.spliced hd).children]
    simp
  | repeats copies =>
    obtain ⟨ns, e₁, hns, hrow⟩ := hs.exists_row hok
    obtain ⟨u, ids, rfl, -, -, -, hlight, -, -, -⟩ := h.branch_start hd hs hns
    obtain ⟨fuel, hfuel⟩ : ∃ fuel, t.fuel = fuel + 1 := ⟨t.fuel - 1, by omega⟩
    have hmakes : t.Makes (t.firstBranch fuel e₁) :=
      .branch hfuel hs hns (List.nil_append _).symm rfl
    obtain ⟨hstands, hname₁, hpath, hbefore, hlater, hsources⟩ :=
      h.firstBranch hd hname hs hns fuel
    have hafter₁ : e₁.template.named name (ids ++ after) ≠ 0 := by omega
    have hone₁ : (source.findAll ((⟨e₁.template.elementPath p, e₁.template.named name before, 1⟩ :
        TreeWalk.Place).path name)).length = 1 := by rwa [hpath, hbefore]
    obtain ⟨left, hleft, hin, hname'⟩ := h.first_row hdistinct hfuel hd hs
      ((List.append_nil (t.node :: ids)).symm ▸ hns) (fun e' he' =>
        ih fuel (by omega) (h.makes hdistinct hP hmakes)
          (fun s' hs' => (hsources s' hs').trans hg) hstands hname₁ hafter₁ hone₁ he' rfl) hrow
    refine ⟨?_, hname'⟩
    rw [hleft.children]
    simp [hin]
  | spreads => exact absurd (hg ▸ hsingle) (prospect_eq_spreads.1 hs.prospect)

end First

/-! ## The copies -/

section Copies

variable {P : Tree → Prop} {t c : Turn} {s : ElementState} {source : Document}
  {found : List NodeId} {p : NodeId} {before after : List NodeId} {u : Tree} {m k : Nat}

/-- Several counterparts are never in the template itself, so they stay what they
are. -/
theorem Finds.loaded_of_runs (hfinds : Finds s t.node t.engine source found)
    (hmany : 2 ≤ found.length) (h : t.Sound env P)
    (helement : t.engine.template.isComment t.node = false) {e : Engine} (hrun : e.RunsIn env) :
    s.sources.primary.bind (e.env.docs[·]?) = some source := by
  obtain ⟨key, hkey, hsource⟩ := Option.bind_eq_some_iff.1 hfinds.loaded
  have hne : key ≠ templateKey := by
    rintro rfl
    have hself : source = t.engine.template := by
      rw [template, Environment.template, Array.getD_eq_getD_getElem?, hsource]
      rfl
    obtain ⟨f, hf, -⟩ := h.spells
    have hone := h.runs.wellFormed.findAll_elementPath h.attached
      (isElement_of_not_comment hf (by rw [helement]; exact Bool.false_ne_true))
    have hfound := hfinds.found
    rw [hself, hone] at hfound
    rw [← hfound] at hmany
    exact absurd hmany (Nat.not_succ_le_self 1)
  rw [h.runs.env_eq, ElementState.getElem?_docs_setTemplate hne] at hsource
  rw [hkey, hrun.env_eq, Option.bind_some, ElementState.getElem?_docs_setTemplate hne]
  exact hsource

/-- Where several counterparts ask for copies. -/
theorem Turn.Sound.stands_of_many (h : t.Sound env P)
    (hfinds : Finds s t.node t.engine source found) (hmany : 2 ≤ found.length) :
    ∃ p before after, Stands t.engine.template p before t.node after := by
  refine h.stands.resolve_left fun hroot => ?_
  have hfound := hfinds.found
  rw [hroot, elementPath_root] at hfound
  rw [← hfound] at hmany
  exact absurd hmany (Nat.not_succ_le_self 1)

/-- The path of a branch, from what is left in front of it and what comes after it. -/
theorem elementPath_branch {d : Document} {start : Deferred} {n b : NodeId} {name : QName}
    {done todo : List NodeId} {e : Engine} (hd : Stands d p before n after)
    (hrow : Row env d (¬ Within d n ·) p before after start done (b :: todo) e)
    (hb : e.template.name? b = some name) :
    e.template.elementPath b = (⟨d.elementPath p,
      d.named name before + e.template.named name done,
      e.template.named name todo + d.named name after⟩ : TreeWalk.Place).path name := by
  obtain ⟨hbefore, hafter⟩ := hd.named_eq hrow.frame name
  rw [path_eq_of_name? hrow.stands hb, place, named_append, named_append, hbefore, hafter,
    (hd.path_eq hrow.runs.wellFormed hrow.frame).2]

/-- The element itself is walked in front of its copies. -/
theorem Turn.Sound.exists_firstBranch {copies : Nat} (h : t.Sound env P)
    (hd : Stands t.engine.template p before t.node after) (hs : t.Faces s (.ok (.repeats copies))) :
    ∃ fuel ids e₁, withCopies t.node t.engine copies = some (t.node :: ids, e₁) ∧
      t.Makes (t.firstBranch fuel e₁) ∧ ∀ c, t.Makes c → c.node = t.node →
        c = t.firstBranch fuel e₁ := by
  obtain ⟨u, hu, -, -⟩ := h.exists_tree hs.element
  obtain ⟨ids, d', hns, -⟩ := exists_withCopies hd hu copies
  obtain ⟨v, _, -, -, -, -, hlight, hrow, -⟩ := h.branch_start hd hs hns
  obtain ⟨fuel, hfuel⟩ : ∃ fuel, t.fuel = fuel + 1 := ⟨t.fuel - 1, by omega⟩
  refine ⟨fuel, ids, _, hns, .branch hfuel hs hns (List.nil_append _).symm rfl,
    fun c hmakes hnode => ?_⟩
  cases hmakes with
  | kid hfuel hs' => cases (hs.unique hs').2
  | source hfuel hs' => cases (hs.unique hs').2
  | @branch fuel' copies _ ns front back e₁ e₂ b hfuel' hs' hns' hsplit hfront =>
    obtain ⟨rfl, hcopies⟩ := hs.unique hs'
    cases hcopies
    obtain ⟨rfl, rfl⟩ : t.node :: ids = ns ∧ t.engine.setTemplate d' = e₁ := by
      simpa using hns.symm.trans hns'
    obtain rfl : b = t.node := hnode
    obtain rfl : fuel = fuel' := by omega
    cases front with
    | nil =>
      cases hfront
      rfl
    | cons n front =>
      -- no copy is the element itself
      have hin : t.node ∈ ids := by
        rw [(List.cons.inj hsplit).2]
        simp
      exact absurd (List.mem_append_left after hin) hrow.stands.not_mem.2

/-- Siblings that an element finds are found one by one with numbers. -/
theorem Finds.shared {name : QName} (hfinds : Finds s t.node t.engine source found)
    (hsource : source.Linked) (hd : Stands t.engine.template p before t.node after)
    (hname : t.engine.template.name? t.node = some name) (hmany : 2 ≤ found.length)
    (hsiblings : source.Siblings found) :
    t.engine.template.named name before + t.engine.template.named name after = 0 ∧
      ∀ i j, i + j ≠ 0 → source.findAll ((⟨t.engine.template.elementPath p, i, j⟩ :
        TreeWalk.Place).path name) = found[i]?.toList := by
  have hfound := hfinds.found
  rw [path_eq_of_name? hd hname] at hfound
  subst hfound
  exact TreeWalk.Place.findAll_shared hsource hmany hsiblings

section Repeated

variable {name : QName} {ids : List NodeId} {e₁ : Engine} (hdistinct : env.sources.Distinct)
  (h : t.Sound env fun _ => True) (hd : Stands t.engine.template p before t.node after)
  (hname : t.engine.template.name? t.node = some name)
  (hs : t.Faces s (.ok (.repeats (found.length - 1))))
  (hfinds : Finds s t.node t.engine source found) (hmany : 2 ≤ found.length)
  (hsource : source.Linked)

include hdistinct h hd hname hs hfinds hmany hsource

/-- Where the counterparts are siblings, some element of the name is left in front
of a branch or comes after it. -/
theorem exists_beside (hsiblings : source.Siblings found) {fuel : Nat}
    {ns front back : List NodeId} {e₁ e₂ : Engine} {b : NodeId} (hfuel : t.fuel = fuel + 1)
    (hns : withCopies t.node t.engine (found.length - 1) = some (ns, e₁))
    (hsplit : ns = front ++ b :: back)
    (hfront : walkRow (process t.fuel) (branches t.parent 0 front) e₁ = .ok e₂) :
    ∃ done, Row env t.engine.template (¬ Within t.engine.template t.node ·) p before after
        t.engine.deferred done (b :: back) e₂ ∧
      e₂.template.named name done + e₂.template.named name back ≠ 0 := by
  obtain ⟨u, ids, hids, hlen, hu, -⟩ := h.branch_start hd hs hns
  obtain ⟨v, done, hv, -, -, hrow, hspells⟩ := h.branch_row hdistinct hd hs hns hsplit hfront
  cases back with
  | cons b' back =>
    obtain rfl : v.element.name = name := by
      rw [Document.name?, hv.element?_eq] at hname
      exact Option.some.inj hname
    have hlater : e₂.template.named v.element.name (b' :: back) = (b' :: back).length :=
      named_eq_length (t := v.mapElement (·.removeDirective .multi)) fun m hm =>
        hspells m (List.mem_cons_of_mem _ hm)
    refine ⟨done, hrow, ?_⟩
    rw [hlater, List.length_cons]
    omega
  | nil =>
    -- the last branch: the element itself is left in front of it
    cases front with
    | nil =>
      rw [hids] at hsplit
      obtain ⟨-, rfl⟩ := List.cons.inj hsplit
      rw [List.length_nil] at hlen
      omega
    | cons n front =>
      rw [hids, List.cons_append] at hsplit
      obtain ⟨rfl, rfl⟩ := List.cons.inj hsplit
      subst hids
      obtain ⟨hstands, hname₁, hpath, hbefore, hlater, hsources⟩ :=
        h.firstBranch hd hname hs hns fuel
      obtain ⟨hzero, hshared⟩ := hfinds.shared hsource hd hname hmany hsiblings
      have hone : (source.findAll ((⟨e₁.template.elementPath p, e₁.template.named name before, 1⟩ :
          TreeWalk.Place).path name)).length = 1 := by
        rw [hpath, hbefore, hshared _ _ (by omega), List.getElem?_eq_getElem (by omega)]
        rfl
      have hmakes : t.Makes (t.firstBranch fuel e₁) :=
        .branch hfuel hs hns (List.nil_append _).symm rfl
      obtain ⟨left, hleft, hin, hname'⟩ := h.first_row hdistinct hfuel hd hs hns (fun e' he' =>
        Turn.Sound.stays_first hdistinct (fun _ _ => ⟨trivial, trivial⟩) hfinds.single
          (fun e' => hfinds.loaded_of_runs hmany h hs.element)
          (h.makes hdistinct (fun _ _ => ⟨trivial, trivial⟩) hmakes) hsources hstands hname₁
          (show e₁.template.named name _ ≠ 0 by omega) hone he') hfront
      refine ⟨left, hleft, ?_⟩
      have hpos : 0 < e₂.template.named name left := by
        refine List.countP_pos_iff.2 ⟨t.node, hin, ?_⟩
        rw [isNamed, hname']
        exact QName.hasName_self name
      omega

/-- Counterparts that are siblings are shared out, one for each branch at most. -/
theorem not_miscounts_branch (hsiblings : source.Siblings found) (hmakes : t.Makes c) :
    ¬ c.Miscounts m k := by
  cases hmakes with
  | kid hfuel hs' => cases (hs.unique hs').2
  | source hfuel hs' => cases (hs.unique hs').2
  | @branch fuel copies _ ns front back e₁ e₂ b hfuel hs' hns hsplit hfront =>
    obtain ⟨rfl, hcopies⟩ := hs.unique hs'
    cases hcopies
    obtain ⟨done, hrow, hnumber⟩ := exists_beside hdistinct h hd hname hs hfinds hmany hsource
      hsiblings hfuel hns hsplit (hfuel ▸ hfront)
    obtain ⟨u, -, hu, -, -, -, hspells⟩ :=
      h.branch_row hdistinct hd hs hns hsplit (hfuel ▸ hfront)
    have hself := hspells _ List.mem_cons_self
    rintro ⟨s', hs''⟩
    obtain ⟨-, source', found', hfinds', hmany'⟩ := many_of_matchCount hs''.prospect
    have hbound : s'.sources = s.sources :=
      ElementState.sources_branch (by rw [h.runs.env_eq, hrow.runs.env_eq]; rfl) hu.attributes_eq
        hself.attributes_eq hs.state hs''.state
    obtain rfl : source' = source :=
      Option.some.inj (hfinds'.loaded.symm.trans
        (hbound ▸ hfinds.loaded_of_runs hmany h hs.element hrow.runs))
    have hname' : e₂.template.name? b = some name := by
      rw [← hname, Document.name?, Document.name?, hself.element?_eq, hu.element?_eq]
      rfl
    have hfound' := hfinds'.found
    rw [elementPath_branch hd hrow hname',
      (hfinds.shared hsource hd hname hmany hsiblings).2 _ _ (by omega)] at hfound'
    rw [← hfound'] at hmany'
    exact absurd (hmany'.trans Option.length_toList_le) (Nat.not_succ_le_self 1)

/-- Counterparts that are no siblings are too many for the element in front of its
copies. -/
theorem miscounts_first (hscattered : ¬ source.Siblings found) (hmakes : t.Makes c)
    (hnode : c.node = t.node) {s' : ElementState} (hs' : c.state = .ok s')
    (hfetch : s'.fetch = true) (hmulti : s'.multi = .flag false) :
    ∃ m, 2 ≤ m ∧ c.Miscounts m 0 := by
  obtain ⟨fuel, ids, e₁, hns, -, honly⟩ := h.exists_firstBranch hd hs
  obtain rfl := honly c hmakes hnode
  obtain ⟨hstands, hname₁, hpath, hbefore, hlater, hsources⟩ := h.firstBranch hd hname hs hns fuel
  have hrun := (h.makes hdistinct (fun _ _ => ⟨trivial, trivial⟩) hmakes).runs
  have hfound := hfinds.found
  rw [path_eq_of_name? hd hname] at hfound
  have hmany' : 2 ≤ (source.findAll (e₁.template.elementPath t.node)).length := by
    rw [path_of_later hstands hname₁ (by omega), hpath, hbefore]
    exact TreeWalk.Place.two_le_of_scattered hsource (hfound.symm ▸ hmany)
      (hfound.symm ▸ hscattered) Nat.one_ne_zero
  have hfinds' : Finds s' t.node e₁ source _ :=
    ⟨by rw [hsources s' hs']; exact hfinds.single, hfetch,
      by rw [hsources s' hs']; exact hfinds.loaded_of_runs hmany h hs.element hrun, rfl⟩
  have helement : e₁.template.isComment t.node = false :=
    isComment_of_isElement (by rw [← name?_isSome, hname₁]; rfl)
  refine ⟨_, hmany', s', helement, hs', (hfinds'.many hmany').trans ?_⟩
  rw [hmulti]
  exact if_pos (by simp only [ne_eq]; omega)

end Repeated

end Copies

/-! ## Any number of counterparts -/

/-- An element that may have any number of counterparts never fails because of their
number.  No more does any of its copies if all counterparts are siblings.  If they
are not, the walk fails at the element itself as soon as it is fetched again in
front of its copies. -/
theorem walk_openCount {e : Engine} {t : Turn} {s : ElementState} {source : Document}
    {found : List NodeId} (hdocs : 0 < e.env.docs.size) (htemplate : e.template.WellFormed)
    (hdistinct : e.env.sources.Distinct) (hreach : (Turn.first e).Reaches t)
    (helement : t.engine.template.isComment t.node = false) (hs : t.state = .ok s)
    (hfinds : Finds s t.node t.engine source found) (hsource : source.WellFormed)
    (hmulti : s.multi = .flag true) :
    (∀ m k, ¬ t.Miscounts m k) ∧ (2 ≤ found.length →
      (source.Siblings found → ∀ c, t.Makes c → ∀ m k, ¬ c.Miscounts m k) ∧
      (¬ source.Siblings found → (∃ c, t.Makes c ∧ c.node = t.node) ∧
        ∀ c s', t.Makes c → c.node = t.node → c.state = .ok s' → s'.fetch = true →
          s'.multi = .flag false → ∃ m, 2 ≤ m ∧ c.Miscounts m 0 ∧
            e.walk = .error (.node (.matchCount m 0) c.location))) := by
  have hrun : e.RunsIn e.env := ⟨hdocs, (setTemplate_template hdocs).symm, htemplate⟩
  have ht := Turn.sound_of_reaches hdistinct hrun hreach
  refine ⟨?_, fun hmany => ?_⟩
  · rintro m k ⟨s', hs'⟩
    obtain rfl : s = s' := Except.ok.inj (hs.symm.trans hs'.state)
    exact (many_of_matchCount hs'.prospect).1 hmulti
  · have hrepeats : t.Faces s (.ok (.repeats (found.length - 1))) :=
      ⟨helement, hs, by rw [hfinds.many hmany, hmulti]; rfl⟩
    obtain ⟨p, before, after, hd⟩ := ht.stands_of_many hfinds hmany
    obtain ⟨u, hu, -, -⟩ := ht.exists_tree helement
    have hname : t.engine.template.name? t.node = some u.element.name := by
      rw [Document.name?, hu.element?_eq]
      rfl
    refine ⟨fun hsiblings c hmakes m k => not_miscounts_branch hdistinct ht hd hname hrepeats
      hfinds hmany hsource.linked hsiblings hmakes, fun hscattered => ⟨?_, ?_⟩⟩
    · obtain ⟨fuel, ids, e₁, -, hmakes, -⟩ := ht.exists_firstBranch hd hrepeats
      exact ⟨_, hmakes, rfl⟩
    · intro c s' hmakes hnode hs' hfetch hmulti'
      obtain ⟨m, hm, s'', hfaces⟩ := miscounts_first hdistinct ht hd hname hrepeats hfinds hmany
        hsource.linked hscattered hmakes hnode hs' hfetch hmulti'
      exact ⟨m, hm, ⟨s'', hfaces⟩, walk_eq_error (hreach.tail hmakes) hfaces.error⟩

/-- A template with an element that may have any number of counterparts. -/
def anyNumber : Document :=
  .ofTree [] { name := .plain "a", attributes := [directive "sources" "s"] } none
    (.node (.element { name := .plain "p" }) none
      (.node (.element
        { name := .plain "b"
          attributes := [directive "fetch" "true()", directive "multi" "true()"] })
        none .nil .nil) .nil)
where
  directive (name value : String) : Attribute :=
    ⟨⟨some directivePrefix, some directiveNamespace, name⟩, value⟩

/-- A document with two of it below different parents. -/
def apart : Document :=
  .ofTree [] { name := .plain "a" } none
    (.node (.element { name := .plain "p" }) none
      (.node (.element { name := .plain "b", text := some "1" }) none .nil .nil)
      (.node (.element { name := .plain "p" }) none
        (.node (.element { name := .plain "b", text := some "2" }) none .nil .nil) .nil))

def twoApart : Engine where
  env := { docs := #[anyNumber, apart], sources := [("s", .single 1)] }

/-- The turn of the parent of the element. -/
def twoApart.above : Turn :=
  ⟨5, (Turn.first twoApart).state.toOption.getD .root, 1, twoApart⟩

/-- The turn of the element. -/
def twoApart.turn : Turn := ⟨4, twoApart.above.state.toOption.getD .root, 2, twoApart⟩

/-- The element and its copy, and the run with both. -/
def twoApart.copied : List NodeId × Engine := (withCopies 2 twoApart 1).getD ([], twoApart)

theorem twoApart.reaches_turn : (Turn.first twoApart).Reaches twoApart.turn := by
  have hroot : (Turn.first twoApart).Faces twoApart.above.parent (.ok (.stays twoApart)) :=
    ⟨by decide +kernel, eq_ok_getD (by decide +kernel) .root,
      prospect_plain (by decide +kernel) (by decide +kernel)
        (show twoApart.above.parent.multi = .flag false by decide +kernel) (by decide +kernel)⟩
  have habove : twoApart.above.Faces twoApart.turn.parent (.ok (.stays twoApart)) :=
    ⟨by decide +kernel, eq_ok_getD (by decide +kernel) .root,
      prospect_plain (by decide +kernel) (by decide +kernel)
        (show twoApart.turn.parent.multi = .flag false by decide +kernel) (by decide +kernel)⟩
  have hkids : twoApart.template.children 0 = [] ++ 1 :: [] := by decide +kernel
  have hkids' : twoApart.template.children 1 = [] ++ 2 :: [] := by decide +kernel
  exact .tail (.single (.kid (by decide +kernel) hroot (by decide +kernel) hkids rfl))
    (.kid rfl habove (by decide +kernel) hkids' rfl)

theorem not_siblings_apart : ¬ apart.Siblings [2, 4] := by
  rintro ⟨p, hp⟩
  have hparents : apart.parent? 2 ≠ apart.parent? 4 := by decide +kernel
  exact hparents ((hp 2 (by decide)).trans (hp 4 (by decide)).symm)

theorem walk_openCount_twoApart :
    ∃ m at_, 2 ≤ m ∧ twoApart.walk = .error (.node (.matchCount m 0) at_) := by
  have hstate : (twoApart.turn.state.toOption.any fun s => decide
      (s.sources = .single 1 ∧ s.fetch = true ∧ s.multi = .flag true)) = true := by
    decide +kernel
  obtain ⟨s, hs, hall⟩ := (Option.any_eq_true _ _).1 hstate
  obtain ⟨hsources, hfetch, hmulti⟩ := of_decide_eq_true hall
  have hfinds : Finds s twoApart.turn.node twoApart.turn.engine apart [2, 4] :=
    ⟨by rw [hsources]; rfl, hfetch, by rw [hsources]; rfl, by decide +kernel⟩
  have helement : twoApart.template.isComment 2 = false := by decide +kernel
  have hrepeats : twoApart.turn.Faces s (.ok (.repeats 1)) :=
    ⟨helement, toOption_eq_some.1 hs, by
      rw [hfinds.many (Nat.le_refl 2), hmulti]
      rfl⟩
  have hcopied : withCopies 2 twoApart 1 = some twoApart.copied :=
    (Option.getD_of_ne_none (by decide +kernel) _).symm
  have hids : twoApart.copied.1 = [] ++ 2 :: [3] := by decide +kernel
  have hmakes : twoApart.turn.Makes (twoApart.turn.firstBranch 3 twoApart.copied.2) :=
    .branch rfl hrepeats hcopied hids rfl
  have hcopy : ((twoApart.turn.firstBranch 3 twoApart.copied.2).state.toOption.any fun s => decide
      (s.fetch = true ∧ s.multi = .flag false)) = true := by
    decide +kernel
  obtain ⟨s', hs', hall'⟩ := (Option.any_eq_true _ _).1 hcopy
  obtain ⟨hfetch', hmulti'⟩ := of_decide_eq_true hall'
  have htemplate : twoApart.template.WellFormed :=
    wellFormed_ofTree (by simp [Forest.Proper, NodeKind.isElement, NodeKind.element?]) _
  have hsource : apart.WellFormed :=
    wellFormed_ofTree (by simp [Forest.Proper, NodeKind.isElement, NodeKind.element?]) _
  have hdistinct : twoApart.env.sources.Distinct :=
    SourceMap.distinct_nil.bind (g := .single 1) (by decide) "s"
  obtain ⟨-, hcopies⟩ := walk_openCount (by decide) htemplate hdistinct
    twoApart.reaches_turn helement (toOption_eq_some.1 hs) hfinds hsource hmulti
  obtain ⟨m, hm, -, hwalk⟩ := ((hcopies (Nat.le_refl 2)).2 not_siblings_apart).2 _ s' hmakes rfl
    (toOption_eq_some.1 hs') hfetch' hmulti'
  exact ⟨m, _, hm, hwalk⟩

end Engine

end LabelTemplate
