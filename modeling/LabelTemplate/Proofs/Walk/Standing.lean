import LabelTemplate.Proofs.Walk.Parts
import LabelTemplate.Proofs.Walk.Turns

/-!
# Where turns are taken

`Turn.Sound` is what the walk takes for granted of each of its turns: the node
stands in the template, it is the root or has a parent, and it and all below it
make up a forest that weighs no more than the levels that are left.  What holds
of the trees of all elements in that forest, and goes on to hold of their copies
(`KeptByCopies`), is passed on to every turn (`Turn.Reaches.sound`).
-/

namespace LabelTemplate

open Xml Document Outcome

namespace Xml

theorem Forest.Every.top {P : Tree → Prop} {t : Tree} (h : t.forest.Every P) : P t := h.1

theorem Forest.Every.kids {P : Tree → Prop} {t : Tree} (h : t.forest.Every P) : t.kids.Every P :=
  h.2.1

theorem Forest.Every.mapElement {P : Tree → Prop} {t : Tree} (h : t.forest.Every P)
    {f : Element → Element} (hf : P (t.mapElement f)) : (t.mapElement f).forest.Every P :=
  ⟨hf, h.2.1, trivial⟩

theorem Forest.every_of_forall {P : Tree → Prop} (h : ∀ t, P t) (f : Forest) : f.Every P := by
  induction f with
  | nil => trivial
  | node kind line kids rest ihKids ihRest =>
    cases kind with
    | comment text => exact ihRest
    | element e => exact ⟨h _, ihKids, ihRest⟩

/-- One of several nodes has a part of what they have together. -/
theorem Document.Spells.exists_part {d : Document} {ns : List NodeId} {f : Forest}
    (hf : Spells d ns f) {n : NodeId} (hn : n ∈ ns) {P : Tree → Prop} (hP : f.Every P) :
    ∃ g, Spells d [n] g ∧ g.weight ≤ f.weight ∧ g.Every P := by
  induction hf with
  | nil => cases hn
  | @node m ms x kids rest hx hkids _ _ ih =>
    obtain ⟨kind, parent, children, line⟩ := x
    have hweight : ∀ g : Forest, g.weight ≤ rest.weight →
        g.weight ≤ (Forest.node kind line kids rest).weight :=
      fun g hle => by
        rw [Forest.weight]
        omega
    have hlast : (Forest.node kind line kids .nil).weight ≤
        (Forest.node kind line kids rest).weight := by
      simp only [Forest.weight]
      omega
    cases kind with
    | comment text =>
      rcases List.mem_cons.1 hn with rfl | hn
      · exact ⟨_, .node hx hkids .nil, hlast, trivial⟩
      · obtain ⟨g, hg, hle, hall⟩ := ih hn hP
        exact ⟨g, hg, hweight g hle, hall⟩
    | element e =>
      rcases List.mem_cons.1 hn with rfl | hn
      · exact ⟨_, .node hx hkids .nil, hlast, hP.1, hP.2.1, trivial⟩
      · obtain ⟨g, hg, hle, hall⟩ := ih hn hP.2.2
        exact ⟨g, hg, hweight g hle, hall⟩

end Xml

namespace Engine

variable {env : Environment} {visit : Visit} {bound : Nat}

/-! ## Up to one of several visits -/

/-- All other siblings stay as they are. -/
theorem Row.walk_front (hvisit : VisitEnds env visit bound) {d : Document} {out : NodeId → Prop}
    {p : NodeId} {before after done : List NodeId} {start : Deferred} {e e' : Engine}
    (hd : d.Linked) (hup : ∀ a m, Within d a m → out m → out a)
    {front : List (ElementState × NodeId)} {todo : List NodeId}
    (hsingle : ∀ v ∈ front, v.1.Single) (hnew : ∀ v ∈ front, v.2 < d.size → ¬ out v.2)
    (hlight : ∀ v ∈ front, ∃ f, Spells e.template [v.2] f ∧ f.weight < bound)
    (h : Row env d out p before after start done (front.map (·.2) ++ todo) e)
    (hok : walkRow visit front e = .ok e') :
    ∃ left, Row env d out p before after start (done ++ left) todo e' ∧
      ∀ c ∈ done ++ todo, ∀ f, Spells e.template [c] f → Spells e'.template [c] f := by
  induction front generalizing done e with
  | nil =>
    cases hok
    exact ⟨[], by rwa [List.append_nil], fun _ _ _ hf => hf⟩
  | cons v front ih =>
    obtain ⟨f, hf, hlt⟩ := hlight v List.mem_cons_self
    have hmem : ∀ w ∈ front, w ∈ v :: front := fun w hw => List.mem_cons_of_mem _ hw
    rw [walkRow, List.foldlM_cons] at hok
    obtain ⟨e₁, h₁, hok⟩ := bind_eq_ok.1 hok
    have hsettles := hvisit (hsingle v List.mem_cons_self) h.runs h.stands hf hlt
    rw [h₁] at hsettles
    obtain ⟨left, hrow, hspells⟩ := h.settles hd hup (hnew v List.mem_cons_self) hsettles.of_ok
    obtain ⟨more, hdone, hkept⟩ := ih (fun w hw => hsingle w (hmem w hw))
      (fun w hw => hnew w (hmem w hw)) (fun w hw => by
        obtain ⟨g, hg, hlight⟩ := hlight w (hmem w hw)
        exact ⟨g, hspells (List.mem_append_right _ (List.mem_append_left _
          (List.mem_map_of_mem hw))) hg, hlight⟩) hrow hok
    rw [List.append_assoc] at hdone
    refine ⟨left ++ more, hdone, fun c hc f hf => hkept c ?_ f (hspells ?_ hf)⟩
    · rcases List.mem_append.1 hc with hc | hc
      · exact List.mem_append_left _ (List.mem_append_left _ hc)
      · exact List.mem_append_right _ hc
    · rcases List.mem_append.1 hc with hc | hc
      · exact List.mem_append_left _ hc
      · exact List.mem_append_right _ (List.mem_append_right _ hc)

/-- The element that is put back for a source, or a copy of it, stands in front of
what the sources before have left. -/
theorem Expanding.exists_put {d : Document} {p n : NodeId} {before after done : List NodeId}
    {t : Tree} {more : Prop} {e : Engine} (h : Expanding d p before n after t more done e.template)
    (hmore : more) (hd : Stands d p before n after) (hrun : e.RunsIn env) (s : ElementState)
    (key : XPath.DocKey) :
    ∃ elem e₁, putBack n e s p before.length key = (elem, e₁) ∧ e₁.RunsIn env ∧
      Placed d p before n after t (some key = s.sources.primary) done elem e.template
        e₁.template := by
  obtain ⟨elem, d', hpair, hplaced⟩ := h.exists_placed hmore hd (some key = s.sources.primary)
  obtain ⟨hrun', htemplate⟩ := hrun.setTemplate hplaced.stands.wellFormed
  refine ⟨elem, e.setTemplate (d'.insertChild p before.length elem), ?_, hrun', ?_⟩
  · simp only [putBack, hpair]
  · rwa [htemplate]

/-- While there are sources to come the element waits to be put back. -/
theorem Expanding.walk_front (hvisit : VisitEnds env visit bound) {s : ElementState}
    {d : Document} {p n : NodeId} {before after done : List NodeId} {t : Tree} {e e' : Engine}
    (hd : Stands d p before n after) (hlight : t.weight < bound) {front : List XPath.DocKey}
    (hother : ∀ key ∈ front, some key ≠ s.sources.primary) (hrun : e.RunsIn env)
    (h : Expanding d p before n after t True done e.template)
    (hok : walkSources visit s n p before.length front e = .ok e') :
    e'.RunsIn env ∧ ∃ done', Expanding d p before n after t True done' e'.template := by
  induction front generalizing done e with
  | nil =>
    cases hok
    exact ⟨hrun, done, h⟩
  | cons key front ih =>
    obtain ⟨elem, e₁, hput, hrun₁, hplaced⟩ := h.exists_put trivial hd hrun s key
    rw [walkSources_cons, hput] at hok
    obtain ⟨e₂, h₂, hok⟩ := bind_eq_ok.1 hok
    have hweight : t.forest.weight < bound := hlight
    obtain ⟨hrun₂, left, q, hspliced, -⟩ : Settles env e₁ p before elem (done ++ after) e₂ := by
      have hsettles :=
        hvisit (s.single_rebindSource key e₁.env) hrun₁ hplaced.stands hplaced.spells hweight
      rw [h₂] at hsettles
      exact hsettles.of_ok
    exact ih (fun k hk => hother k (List.mem_cons_of_mem _ hk)) hrun₂
      (hplaced.spliced hd (fun _ => hother key List.mem_cons_self) hspliced) hok

/-! ## Children -/

theorem not_below_of_within {d : Document} {n a m : NodeId} (hw : Within d a m)
    (ho : ¬ Below d n m) : ¬ Below d n a := fun hb => ho (by
  rcases hw with rfl | hw
  · exact hb
  · exact hb.trans hw)

/-- The children of an element, before any of them is walked. -/
theorem row_kids {e : Engine} {n : NodeId} (hrun : e.RunsIn env)
    (hatt : Within e.template e.template.root n) :
    Row env e.template (¬ Below e.template n ·) n [] [] e.deferred [] (e.template.children n) e :=
  ⟨hrun, Frame.refl _ _ _, hatt, by simp, {}, (Deferred.append_empty _).symm, Walked.nil _⟩

/-- Visits of some of the children. -/
theorem walk_kids (hdistinct : env.sources.Distinct) {d : Document} {n : NodeId}
    {done front todo : List NodeId} {start : Deferred} {s : ElementState} {e e' : Engine}
    {fuel : Nat} (hd : d.Linked) (hs : s.Single) (hkids : ∀ m ∈ front, m ∈ d.children n)
    (hlight : ∀ m ∈ front, ∃ f, Spells e.template [m] f ∧ f.weight < fuel)
    (h : Row env d (¬ Below d n ·) n [] [] start done (front ++ todo) e)
    (hok : walkRow (process fuel) (front.map (s, ·)) e = .ok e') :
    ∃ left, Row env d (¬ Below d n ·) n [] [] start (done ++ left) todo e' ∧
      ∀ c ∈ done ++ todo, ∀ f, Spells e.template [c] f → Spells e'.template [c] f := by
  have hids : (front.map (s, ·)).map (·.2) = front := by simp
  have hvisited : ∀ v ∈ front.map (s, ·), v.1 = s ∧ v.2 ∈ front := by
    intro v hv
    obtain ⟨m, hm, rfl⟩ := List.mem_map.1 hv
    exact ⟨rfl, hm⟩
  rw [← hids] at h
  exact h.walk_front (process_ends hdistinct fuel) hd (fun _ _ => not_below_of_within)
    (fun v hv => (hvisited v hv).1 ▸ hs)
    (fun v hv _ ho => ho (.child ((hd.parent_iff_child n v.2).2 (hkids v.2 (hvisited v hv).2))))
    (fun v hv => hlight v.2 (hvisited v hv).2) hok

/-! ## What is known where copies are walked -/

theorem exists_withCopies {e : Engine} {p n : NodeId} {before after : List NodeId} {t : Tree}
    (hd : Stands e.template p before n after) (hn : Spells e.template [n] t.forest)
    (copies : Nat) :
    ∃ ids d', withCopies n e copies = some (n :: ids, e.setTemplate d') ∧ ids.length = copies ∧
      (∀ c ∈ ids, e.template.size ≤ c) ∧ Spliced e.template p before n after (n :: ids) d' ∧
      ∀ c ∈ n :: ids, Spells d' [c] (t.mapElement (·.removeDirective .multi)).forest := by
  have hremove := hd.spliced_updateElement (·.removeDirective .multi)
  have hn₁ := spells_updateElement hd.wellFormed.linked hn (·.removeDirective .multi)
  have hstands := hremove.stands hd
  obtain ⟨ids, d', hclones, hlen, hnew, hspliced, hspells⟩ :=
    insertAll_clones_stands hstands hn₁ copies
  refine ⟨ids, _, ?_, hlen, fun c hc => by simpa using hnew c hc, hremove.trans hd hspliced,
    hspells⟩
  have hparent : (e.template.removeDirective n .multi).parent? n = some p := hstands.parent
  have hindex : (e.template.removeDirective n .multi).indexInParent? n = some before.length :=
    hstands.index
  simp only [withCopies, hparent, hindex, Option.getD_some, Option.map_some]
  rw [show clones (e.template.removeDirective n .multi) n copies = (ids, d') from hclones]

/-- An element and its copies, before any of them is walked. -/
theorem exists_copies_row {e : Engine} {p n : NodeId} {before after : List NodeId} {t : Tree}
    (hrun : e.RunsIn env) (hd : Stands e.template p before n after)
    (hn : Spells e.template [n] t.forest) (copies : Nat) :
    ∃ ids e₁, withCopies n e copies = some (n :: ids, e₁) ∧ ids.length = copies ∧
      Row env e.template (¬ Within e.template n ·) p before after e.deferred [] (n :: ids) e₁ ∧
      (∀ m ∈ n :: ids, m < e.template.size → Within e.template n m) ∧
      ∀ m ∈ n :: ids, Spells e₁.template [m] (t.mapElement (·.removeDirective .multi)).forest := by
  obtain ⟨ids, d', hcopies, hlen, hnew, hspliced, hspells⟩ := exists_withCopies hd hn copies
  obtain ⟨hrun', htemplate⟩ := hrun.setTemplate hspliced.wellFormed
  refine ⟨ids, _, hcopies, hlen, ?_, fun m hm hlt => ?_, by rwa [htemplate]⟩
  · constructor
    · exact hrun'
    · rw [htemplate]
      exact hspliced.frame
    · rw [htemplate]
      exact (hd.path_eq hspliced.wellFormed hspliced.frame).1
    · rw [htemplate, hspliced.children]
      simp
    · exact ⟨{}, (Deferred.append_empty _).symm, Walked.nil _⟩
  · rcases List.mem_cons.1 hm with rfl | hm
    · exact within_self _ _
    · exact absurd hlt (Nat.not_lt.2 (hnew m hm))

theorem takenOut_eq {e : Engine} {p n : NodeId} {before after : List NodeId}
    (hd : Stands e.template p before n after) :
    takenOut n e = some (p, before.length,
      e.setTemplate ((e.template.removeDirective n .sources).detach n)) := by
  have hstands := (hd.spliced_updateElement (·.removeDirective .sources)).stands hd
  have hparent : (e.template.removeDirective n .sources).parent? n = some p := hstands.parent
  have hindex : (e.template.removeDirective n .sources).indexInParent? n = some before.length :=
    hstands.index
  simp only [takenOut, hparent, hindex, Option.getD_some, Option.map_some]

/-! ## Sound turns -/

/-- What holds of the tree of an element holds of the copies that are walked in its
place: they lack one of the two directives that ask for copies. -/
def KeptByCopies (P : Tree → Prop) : Prop :=
  ∀ u, P u → P (u.mapElement (·.removeDirective .sources)) ∧
    P (u.mapElement (·.removeDirective .multi))

/-- The node of a turn stands in the template, with trees that are `P` below it. -/
structure Turn.Sound (env : Environment) (P : Tree → Prop) (t : Turn) : Prop where
  runs : t.engine.RunsIn env
  single : t.parent.Single
  stands : t.node = t.engine.template.root ∨
    ∃ p before after, Stands t.engine.template p before t.node after
  spells : ∃ f, Spells t.engine.template [t.node] f ∧ f.weight ≤ t.fuel ∧ f.Every P

namespace Turn

variable {P : Tree → Prop} {t t' : Turn}

theorem Sound.attached (h : t.Sound env P) :
    Within t.engine.template t.engine.template.root t.node := by
  rcases h.stands with hroot | ⟨p, before, after, hstands⟩
  · rw [hroot]
    exact within_self _ _
  · exact within_of_parent? hstands.parent hstands.attached

/-- The element of a turn, and all below it. -/
theorem Sound.exists_tree (h : t.Sound env P)
    (helement : t.engine.template.isComment t.node = false) :
    ∃ u : Tree, Spells t.engine.template [t.node] u.forest ∧ u.weight ≤ t.fuel ∧
      u.forest.Every P := by
  obtain ⟨f, hf, hweight, hall⟩ := h.spells
  obtain ⟨u, rfl⟩ :=
    hf.exists_tree (isElement_of_not_comment hf (by rw [helement]; exact Bool.false_ne_true))
  exact ⟨u, hf, hweight, hall⟩

/-- A node without parent cannot be copied. -/
theorem Sound.exists_stands (h : t.Sound env P) (directive : Directive)
    (hparent : (t.engine.template.removeDirective t.node directive).parent? t.node ≠ none) :
    ∃ p before after, Stands t.engine.template p before t.node after := by
  rcases h.stands with hroot | hstands
  · have hnone := h.runs.wellFormed.root_parent
    rw [← hroot] at hnone
    exact absurd ((parent?_updateElement _ _ _ _).trans hnone) hparent
  · exact hstands

section Makes

variable {s : ElementState} {fuel : Nat}

theorem Sound.kid (hdistinct : env.sources.Distinct) (h : t.Sound env P)
    {e₁ e₂ : Engine} {front back : List NodeId} {c : NodeId} (hfuel : t.fuel = fuel + 1)
    (hs : t.Faces s (.ok (.stays e₁))) (hinner : e₁.template.hasElementChildren t.node = true)
    (hkids : e₁.template.children t.node = front ++ c :: back)
    (hfront : walkRow (process (fuel + 1)) (front.map (s, ·)) e₁ = .ok e₂) :
    Sound env P ⟨fuel, s, c, e₂⟩ := by
  obtain ⟨u, hu, hweight, hall⟩ := h.exists_tree hs.element
  have hsingle : s.Single := (prospect_eq_ok hs.prospect nofun).1
  -- what is queued so far does not matter
  obtain ⟨q, rfl⟩ : ∃ q, e₁ = { t.engine with deferred := q } := by
    rcases prospect_stays hs.prospect with hq | ⟨hleaf, source, m, rfl⟩
    · exact hq
    · rw [mapTemplate, copyContent_eq] at hinner
      obtain ⟨-, htemplate⟩ := h.runs.setTemplate (h.runs.wellFormed.updateElement t.node
        (·.takeContent (source.attributes m) (source.text? m)))
      rw [htemplate, hasElementChildren_updateElement, hleaf] at hinner
      cases hinner
  have hrun : RunsIn env { t.engine with deferred := q } :=
    ⟨h.runs.docs_pos, h.runs.env_eq, h.runs.wellFormed⟩
  have hkids : t.engine.template.children t.node = front ++ c :: back := hkids
  have hpart : ∀ m ∈ t.engine.template.children t.node, ∃ g, Spells t.engine.template [m] g ∧
      g.weight ≤ fuel ∧ g.Every P := by
    intro m hm
    obtain ⟨g, hg, hle, hgall⟩ := hu.kids.exists_part hm hall.kids
    have hlt := kids_lighter u
    exact ⟨g, hg, by omega, hgall⟩
  have hmem : ∀ m ∈ front, m ∈ t.engine.template.children t.node := fun m hm => by
    rw [hkids]
    exact List.mem_append_left _ hm
  have hrow : Row env t.engine.template (¬ Below t.engine.template t.node ·) t.node [] [] q []
      (front ++ c :: back) { t.engine with deferred := q } := hkids ▸ row_kids hrun h.attached
  obtain ⟨done, hdone, hkept⟩ := walk_kids hdistinct h.runs.wellFormed.linked hsingle hmem
    (fun m hm => by
      obtain ⟨g, hg, hle, -⟩ := hpart m (hmem m hm)
      exact ⟨g, hg, Nat.lt_succ_of_le hle⟩) hrow hfront
  obtain ⟨g, hg, hle, hgall⟩ := hpart c (by rw [hkids]; simp)
  exact ⟨hdone.runs, hsingle, .inr ⟨_, _, _, hdone.stands⟩, g, hkept c List.mem_cons_self g hg, hle,
    hgall⟩

theorem Sound.stands_of_copies (h : t.Sound env P) {copies : Nat} {ns : List NodeId} {e₁ : Engine}
    (hns : withCopies t.node t.engine copies = some (ns, e₁)) :
    ∃ p before after, Stands t.engine.template p before t.node after :=
  h.exists_stands .multi fun hnone => by
    rw [withCopies, hnone] at hns
    cases hns

section Branches

variable {p : NodeId} {before after : List NodeId} {copies : Nat} {ns front todo : List NodeId}
  {e₁ e₂ : Engine}

/-- The element of a turn and its copies, before any of them is walked. -/
theorem Sound.branch_start (h : t.Sound env P)
    (hd : Stands t.engine.template p before t.node after) (hs : t.Faces s (.ok (.repeats copies)))
    (hns : withCopies t.node t.engine copies = some (ns, e₁)) :
    ∃ (u : Tree) (ids : List NodeId), ns = t.node :: ids ∧ ids.length = copies ∧
      Spells t.engine.template [t.node] u.forest ∧ u.forest.Every P ∧
      (u.mapElement (·.removeDirective .multi)).weight < t.fuel ∧
      Row env t.engine.template (¬ Within t.engine.template t.node ·) p before after
        t.engine.deferred [] ns e₁ ∧
      (∀ m ∈ ns, m < t.engine.template.size → Within t.engine.template t.node m) ∧
      ∀ m ∈ ns, Spells e₁.template [m] (u.mapElement (·.removeDirective .multi)).forest := by
  obtain ⟨u, hu, hweight, hall⟩ := h.exists_tree hs.element
  have hless := lighter_of_multi hu hs.state (multi_of_repeats hs.prospect)
  obtain ⟨ids, e₂, hcopies, hlen, hrow, hnew, hspells⟩ := exists_copies_row h.runs hd hu copies
  obtain ⟨rfl, rfl⟩ : t.node :: ids = ns ∧ e₂ = e₁ := by
    simpa using hcopies.symm.trans hns
  exact ⟨u, ids, rfl, hlen, hu, hall, by omega, hrow, hnew, hspells⟩

/-- Visits of some of the branches. -/
theorem walk_branches (hdistinct : env.sources.Distinct) {d : Document} {n : NodeId}
    {done : List NodeId} {start : Deferred} {parent : ElementState} {e e' : Engine} {i : Nat} (hd : d.Linked) (hparent : parent.Single)
    (hnew : ∀ m ∈ front, m < d.size → Within d n m)
    (hlight : ∀ m ∈ front, ∃ f, Spells e.template [m] f ∧ f.weight < fuel)
    (h : Row env d (¬ Within d n ·) p before after start done (front ++ todo) e)
    (hok : walkRow (process fuel) (branches parent i front) e = .ok e') :
    ∃ left, Row env d (¬ Within d n ·) p before after start (done ++ left) todo e' ∧
      ∀ c ∈ done ++ todo, ∀ f, Spells e.template [c] f → Spells e'.template [c] f := by
  have hmem : ∀ v ∈ branches parent i front, v.2 ∈ front := fun v hv =>
    map_branches parent i front ▸ List.mem_map_of_mem hv
  rw [← map_branches parent i front] at h
  exact h.walk_front (process_ends hdistinct fuel) hd (fun a m hw ho hn => ho (hn.trans hw))
    (single_of_mem_branches hparent) (fun v hv hlt ho => ho (hnew v.2 (hmem v hv) hlt))
    (fun v hv => hlight v.2 (hmem v hv)) hok

/-- What is left of the branches in front of some, and what the others are. -/
theorem Sound.branch_row (hdistinct : env.sources.Distinct) (h : t.Sound env P)
    (hd : Stands t.engine.template p before t.node after) (hs : t.Faces s (.ok (.repeats copies)))
    (hns : withCopies t.node t.engine copies = some (ns, e₁)) (hsplit : ns = front ++ todo)
    (hfront : walkRow (process t.fuel) (branches t.parent 0 front) e₁ = .ok e₂) :
    ∃ (u : Tree) (done : List NodeId),
      Spells t.engine.template [t.node] u.forest ∧ u.forest.Every P ∧
      (u.mapElement (·.removeDirective .multi)).weight < t.fuel ∧
      Row env t.engine.template (¬ Within t.engine.template t.node ·) p before after
        t.engine.deferred done todo e₂ ∧
      ∀ m ∈ todo, Spells e₂.template [m] (u.mapElement (·.removeDirective .multi)).forest := by
  obtain ⟨u, ids, -, -, hu, hall, hlight, hrow, hnew, hspells⟩ := h.branch_start hd hs hns
  rw [hsplit] at hrow hnew hspells
  obtain ⟨done, hdone, hkept⟩ := walk_branches hdistinct hd.wellFormed.linked h.single
    (fun m hm => hnew m (List.mem_append_left _ hm))
    (fun m hm => ⟨_, hspells m (List.mem_append_left _ hm), hlight⟩) hrow hfront
  exact ⟨u, done, hu, hall, hlight, hdone, fun m hm =>
    hkept m hm _ (hspells m (List.mem_append_right _ hm))⟩

end Branches

theorem Sound.source (hdistinct : env.sources.Distinct)
    (hP : KeptByCopies P)
    (h : t.Sound env P) {index : Nat} {parent : NodeId} {e₁ e₂ : Engine}
    {front back : List XPath.DocKey} {key : XPath.DocKey} (hfuel : t.fuel = fuel + 1)
    (hs : t.Faces s (.ok .spreads)) (hout : takenOut t.node t.engine = some (parent, index, e₁))
    (hkeys : s.sources.members.reverse = front ++ key :: back)
    (hfront : walkSources (process (fuel + 1)) s t.node parent index front e₁ = .ok e₂) :
    Sound env P ⟨fuel, s.rebindSource key (putBack t.node e₂ s parent index key).2.env,
      (putBack t.node e₂ s parent index key).1, (putBack t.node e₂ s parent index key).2⟩ := by
  obtain ⟨u, hu, hweight, hall⟩ := h.exists_tree hs.element
  obtain ⟨p, before, after, hstands⟩ := h.exists_stands .sources fun hnone => by
    rw [takenOut, hnone] at hout
    cases hout
  obtain ⟨hdeclared, hnodup⟩ := (secondary_of_resolve hdistinct h.runs h.single hu hs.state).resolve_left
    (prospect_eq_spreads.1 hs.prospect)
  have hless := Tree.weight_removeDirective_lt hdeclared
  have hstart := expanding_start hstands hu True
  obtain ⟨hrun₁, htemplate₁⟩ := h.runs.setTemplate hstart.wellFormed
  obtain ⟨rfl, rfl, rfl⟩ : p = parent ∧ before.length = index ∧
      t.engine.setTemplate ((t.engine.template.removeDirective t.node .sources).detach t.node) = e₁ := by
    simpa using (takenOut_eq hstands).symm.trans hout
  have hother : ∀ k ∈ front, some k ≠ s.sources.primary := fun k hk => by
    refine SourceGroup.primary_last hnodup k ?_
    rw [hkeys, List.dropLast_append_of_ne_nil (List.cons_ne_nil _ _)]
    exact List.mem_append_left _ hk
  obtain ⟨hrun₂, done, hdone⟩ := Expanding.walk_front (process_ends hdistinct (fuel + 1)) hstands
    (show (u.mapElement (·.removeDirective .sources)).weight < fuel + 1 by omega) hother hrun₁
    (by rwa [htemplate₁]) hfront
  obtain ⟨elem, e₃, hput, hrun₃, hplaced⟩ := hdone.exists_put trivial hstands hrun₂ s key
  rw [hput]
  exact
    { runs := hrun₃
      single := s.single_rebindSource key _
      stands := .inr ⟨p, before, _, hplaced.stands⟩
      spells := ⟨(u.mapElement (·.removeDirective .sources)).forest, hplaced.spells,
        show (u.mapElement (·.removeDirective .sources)).weight ≤ fuel by omega,
        hall.mapElement (hP u hall.top).1⟩ }

/-- What a turn makes is sound as well. -/
theorem Sound.makes (hdistinct : env.sources.Distinct)
    (hP : KeptByCopies P)
    (h : t.Sound env P) (hmakes : t.Makes t') : t'.Sound env P := by
  cases hmakes with
  | kid hfuel hs hinner hkids hfront => exact h.kid hdistinct hfuel hs hinner hkids hfront
  | branch hfuel hs hns hsplit hfront =>
    obtain ⟨p, before, after, hd⟩ := h.stands_of_copies hns
    obtain ⟨u, done, -, hall, hlight, hrow, hspells⟩ :=
      h.branch_row hdistinct hd hs hns hsplit (hfuel ▸ hfront)
    rw [hfuel] at hlight
    exact ⟨hrow.runs, h.single, .inr ⟨_, _, _, hrow.stands⟩, _, hspells _ List.mem_cons_self,
      Nat.le_of_lt_succ hlight, hall.mapElement (hP u hall.top).2⟩
  | source hfuel hs hout hkeys hfront => exact h.source hdistinct hP hfuel hs hout hkeys hfront

theorem Reaches.sound (hdistinct : env.sources.Distinct)
    (hP : KeptByCopies P)
    (h : t.Sound env P) (hreach : t.Reaches t') : t'.Sound env P := by
  induction hreach with
  | refl => exact h
  | tail _ hmakes ih => exact ih.makes hdistinct hP hmakes

theorem sound_first {e : Engine} (hrun : e.RunsIn env) {u : Tree}
    (hu : Spells e.template [e.template.root] u.forest) (hP : u.forest.Every P) :
    (first e).Sound env P where
  runs := hrun
  single := rfl
  stands := .inl rfl
  spells := by
    have hlt := hu.weight_lt_depthBound hrun.wellFormed.linked
    exact ⟨_, hu, Nat.le_sub_one_of_lt hlt, hP⟩

/-- Every turn of a walk is sound. -/
theorem sound_of_reaches {e : Engine} (hdistinct : env.sources.Distinct) (hrun : e.RunsIn env)
    (hreach : (first e).Reaches t) : t.Sound env fun _ => True := by
  obtain ⟨f, hf, -⟩ := hrun.wellFormed.exists_spells [e.template.root]
    (by simpa using hrun.wellFormed.root_lt_size)
  obtain ⟨u, rfl⟩ := hf.exists_tree hrun.wellFormed.root_isElement
  exact hreach.sound hdistinct (fun _ _ => ⟨trivial, trivial⟩)
    (sound_first hrun hf (Forest.every_of_forall (fun _ => trivial) _))

end Makes

end Turn

end Engine

end LabelTemplate
