import LabelTemplate.Proofs.Walk.Drafted
import LabelTemplate.Proofs.Walk.Refinement
import LabelTemplate.Proofs.Walk.Total
import LabelTemplate.Proofs.Walk.TreeSteps

/-!
# The walk makes drafts

A visit of a tree leaves in its place what `DraftWalk` says of it, and queues
what is open there; it fails where `DraftWalk` fails (`drafts_process`), unless
its fuel is spent.  The lemmas follow the functions of the walk, each given that
the visits below do so (`Drafts`).  `root_answered` is about the root, and so
about whole templates.

As in the refinement of forests, the environment `env` is the same up to the
template, and no directive reads the template.
-/

namespace LabelTemplate

open Xml Document Outcome
open TreeWalk (quiet)

/-! ## Settled states -/

namespace ElementState

variable {env : Environment} {s s' : ElementState}

theorem quiet_evalFill (hdocs : 0 < env.docs.size) (h : Settled env s s') (t : Document) :
    quiet (s.evalFill (env.setTemplate t)) = quiet (s'.evalFill env) := by
  have htwin : Alike Eq (s.evalFill (env.setTemplate t))
      (s'.evalFill (env.setTemplate env.template)) := evalFill_twin h
  rw [Engine.setTemplate_template hdocs] at htwin
  exact TreeWalk.quiet_congr htwin

theorem evalRequired_twin (h : Settled env s s') (t t' : Document) :
    Alike (fun a b => a.1 = b.1) (s.evalRequired (env.setTemplate t))
      (s'.evalRequired (env.setTemplate t')) := by
  obtain ⟨htwin, hout, haloof⟩ := h
  have hdeclares : s.declares .required = s'.declares .required := by
    obtain ⟨k, rfl⟩ := htwin
    rfl
  unfold evalRequired
  rw [hdeclares]
  split
  · rename_i hrequired
    obtain ⟨x, hx, hd⟩ : ∃ x ∈ s'.declared, x.directive = .required := by
      simp only [declares, Declarations.declares, Declarations.expression?, Option.isSome_map,
        List.find?_isSome] at hrequired
      simpa using hrequired
    have hmem := Declarations.declaration_mem hx
    rw [hd] at hmem
    refine (store_twin ⟨htwin, rfl, hout⟩ ((haloof _ hmem).evaluation fun h => by cases h)).bind ?_
    rintro a b ⟨⟨k, rfl⟩, -, -⟩
    exact .ok rfl
  · obtain ⟨k, rfl⟩ := htwin
    exact .ok rfl

theorem quiet_evalRequired (hdocs : 0 < env.docs.size) (h : Settled env s s') (t : Document) :
    quiet ((s.evalRequired (env.setTemplate t)).map (·.1)) =
      quiet ((s'.evalRequired env).map (·.1)) := by
  have htwin := evalRequired_twin h t env.template
  rw [Engine.setTemplate_template hdocs] at htwin
  exact TreeWalk.quiet_congr (htwin.map fun _ _ h => h)

end ElementState

/-- The error is that an element, given by where it stands, is not in its source. -/
def Error.Lacks (at_ : Location) (err : Error) : Prop :=
  ∃ tag path moniker file, err = .node (.notInSource tag path moniker file) at_

namespace DraftWalk

/-! ## Answers -/

/-- A walk that stops for the same reason, where an element is missing. -/
def Tells (stop : TreeWalk.Stop) (fault : WalkFault) : Prop :=
  ∀ at_, stop = .missing at_ → ∃ err, fault = .failed err ∧ err.Lacks at_

theorem tells_failed (fault : WalkFault) : Tells .failed fault := nofun

/-- Both succeed, with related results, or both fail, unless the fuel of the
second is spent. -/
def Answered {α β : Type} (r : α → β → Prop) (x : Result α) (y : Except WalkFault β) : Prop :=
  y = .error .exhausted ∨ Related Tells r x y

namespace Answered

variable {α β γ δ : Type} {r : α → β → Prop} {r' : γ → δ → Prop} {x : Result α}
  {y : Except WalkFault β}

theorem ok {a : α} {b : β} (h : r a b) : Answered r (.ok a) (.ok b) := .inr (.ok h)

theorem failed {fault : WalkFault} : Answered r (.error .failed) (.error fault) :=
  .inr (.error (tells_failed fault))

theorem bind {f : α → Result γ} {g : β → Except WalkFault δ} (h : Answered r x y)
    (hnext : ∀ a b, r a b → Answered r' (f a) (g b)) : Answered r' (x >>= f) (y >>= g) := by
  rcases h with rfl | h
  · exact .inl rfl
  · cases h with
    | ok h => exact hnext _ _ h
    | error h => exact .inr (.error h)

theorem mono {r' : α → β → Prop} (h : Answered r x y) (hr : ∀ a b, r a b → r' a b) :
    Answered r' x y :=
  h.imp_right fun h => h.mono (fun _ _ h => h) hr

/-- A step that is only told apart by its result. -/
theorem of_quiet {ε : Type} {z : Except ε α} {z' : Except Error α} (h : quiet z' = quiet z) :
    Answered Eq (quiet z) (z'.mapError .failed) := by
  rw [← h]
  cases z' with
  | error e => exact failed
  | ok a => exact ok rfl

end Answered

/-! ## Visits -/

/-- Where a node stands among its siblings. -/
def site (d : Document) (p : NodeId) (before after : List NodeId) : Site :=
  ⟨d.elementPath p, (d.named · before), (d.named · after)⟩

/-- A draft stands in the place of a node, and what is open in it was queued. -/
def Leaves (env : Environment) (e : Engine) (p : NodeId) (before : List NodeId) (n : NodeId)
    (after : List NodeId) (δ : Draft) (e' : Engine) : Prop :=
  e'.RunsIn env ∧ ∃ left q, Spliced e.template p before n after left e'.template ∧
    e'.deferred = e.deferred ++ q ∧ Drafted env e'.template left δ q

/-- A visit makes the draft of a tree. -/
def Drafts (env : Environment) (visit : Engine.Visit) (draft : Visit) : Prop :=
  ∀ {s s' : ElementState} {e : Engine} {p n : NodeId} {before after : List NodeId} {f : Forest},
    s.Twin s' → s'.sources.Outside → e.RunsIn env → Stands e.template p before n after →
    Spells e.template [n] f → f.Aloof env →
    Answered (Leaves env e p before n after) (draft s' (site e.template p before after) f)
      (visit s n e)

variable {env : Environment} {visit : Engine.Visit} {draft : Visit}

/-- Siblings of the node are where they were. -/
theorem site_eq {d e : Document} {p n : NodeId} {before after left : List NodeId}
    (hd : Stands d p before n after) (hspliced : Spliced d p before n after left e)
    {ns ms : List NodeId} (hns : ∀ c ∈ ns ++ ms, c ∈ before ++ after) :
    site e p ns ms = site d p ns ms := by
  have hout : ∀ c ∈ ns ++ ms, c < d.size ∧ ¬ Within d n c := fun c hc =>
    ⟨hd.lt_size_of_sibling (hns c hc), (hd.not_within_sibling (hns c hc) (within_self d c)).1⟩
  have hpath := (hd.path_eq hspliced.wellFormed hspliced.frame).2
  rw [site, site, hpath]
  congr 1 <;> funext name
  · exact hspliced.frame.named_eq name fun c hc => hout c (List.mem_append_left _ hc)
  · exact hspliced.frame.named_eq name fun c hc => hout c (List.mem_append_right _ hc)

/-! ## Rows -/

/-- A row of siblings below `p` that is walked in order: `done` has been walked
and is the draft `δ`, and `todo` is to come.  Of the arena `d` at the start the
nodes in `out` are as they were. -/
structure Lined (env : Environment) (d : Document) (out : NodeId → Prop) (p : NodeId)
    (before after : List NodeId) (start : Deferred) (done todo : List NodeId) (δ : Draft)
    (e : Engine) : Prop where
  runs : e.RunsIn env
  frame : Frame out p d e.template
  attached : Within e.template e.template.root p
  children : e.template.children p = before ++ done ++ todo ++ after
  drafted : ∃ q, e.deferred = start ++ q ∧ Drafted env e.template done δ q

/-- A node and its state, and the tree and the state that stand for them. -/
structure Read (env : Environment) (d : Document) (v : ElementState × NodeId)
    (v' : ElementState × Forest) : Prop where
  twin : v.1.Twin v'.1
  outside : v'.1.sources.Outside
  spells : Spells d [v.2] v'.2
  aloof : v'.2.Aloof env

section Rows

variable {d : Document} {out : NodeId → Prop} {p n : NodeId} {before after done todo : List NodeId}
  {start : Deferred} {δ : Draft} {e e' : Engine}

theorem Lined.stands (h : Lined env d out p before after start done (n :: todo) δ e) :
    Stands e.template p (before ++ done) n (todo ++ after) :=
  ⟨h.runs.wellFormed, h.attached, by simpa using h.children⟩

theorem named_row {row : List (ElementState × NodeId)} {row' : Row}
    (h : List.Forall₂ (Read env d) row row') (name : QName) :
    d.named name (row.map (·.2)) = Row.named row' name := by
  induction h with
  | nil => rfl
  | @cons v v' row row' hv _ ih =>
    have hone : d.named name [v.2] = v'.2.named name := hv.spells.named_eq name
    have hsum : Row.named (v' :: row') name = v'.2.named name + Row.named row' name := rfl
    rw [List.map_cons, ← List.singleton_append, named_append, hone, ih, hsum]

theorem read_of_spells {d' : Document} {row : List (ElementState × NodeId)} {row' : Row}
    (h : List.Forall₂ (Read env d) row row')
    (hspells : ∀ v ∈ row, ∀ f, Spells d [v.2] f → Spells d' [v.2] f) :
    List.Forall₂ (Read env d') row row' := by
  induction h with
  | nil => exact .nil
  | cons hv _ ih =>
    exact .cons ⟨hv.twin, hv.outside, hspells _ List.mem_cons_self _ hv.spells, hv.aloof⟩
      (ih fun w hw => hspells w (List.mem_cons_of_mem _ hw))

/-- The next sibling was walked. -/
theorem Lined.next (h : Lined env d out p before after start done (n :: todo) δ e) (hd : d.Linked)
    (hup : ∀ a m, Within d a m → out m → out a) (hnew : n < d.size → ¬ out n) {ε : Draft}
    {left : List NodeId} {q : Deferred} (hrun : e'.RunsIn env)
    (hspliced : Spliced e.template p (before ++ done) n (todo ++ after) left e'.template)
    (hdeferred : e'.deferred = e.deferred ++ q) (hleft : Drafted env e'.template left ε q) :
    Lined env d out p before after start (done ++ left) todo (δ ++ ε) e' where
  runs := hrun
  frame := h.frame.trans hspliced.frame fun _ hm ho => h.frame.not_within hd hup hnew hm ho
  attached := (h.stands.path_eq hrun.wellFormed hspliced.frame).1
  children := by
    rw [hspliced.children]
    simp
  drafted := by
    obtain ⟨r, hr, hdone⟩ := h.drafted
    refine ⟨r ++ q, by rw [hdeferred, hr, Deferred.append_assoc], (hdone.beside h.stands hspliced
      fun c hc => ?_).append hleft⟩
    exact List.mem_append_left _ (List.mem_append_right _ hc)

/-- Visits of siblings in order. -/
theorem walkRow_answered (hvisit : Drafts env visit draft) (hd : d.Linked)
    (hup : ∀ a m, Within d a m → out m → out a) {row : List (ElementState × NodeId)} {row' : Row}
    (hrow : List.Forall₂ (Read env e.template) row row')
    (hnew : ∀ v ∈ row, v.2 < d.size → ¬ out v.2)
    (h : Lined env d out p before after start done (row.map (·.2)) δ e) :
    Answered (fun δ' e' => ∃ left, Lined env d out p before after start left [] δ' e')
      (walkRow draft (site e.template p before after) δ row') (Engine.walkRow visit row e) := by
  induction row generalizing e done δ row' with
  | nil =>
    cases hrow
    exact .ok ⟨done, h⟩
  | cons v row ih =>
    cases hrow with
    | @cons _ v' _ row' hv hrow =>
      obtain ⟨q, -, hdone⟩ := h.drafted
      have hstands := h.stands
      have hsite : site e.template p (before ++ done) (row.map (·.2) ++ after) =
          { site e.template p before after with
            before := fun name => (site e.template p before after).before name +
              δ.forest.named name
            after := fun name => Row.named row' name +
              (site e.template p before after).after name } := by
        simp only [site, named_append, hdone.spells.named_eq, named_row hrow]
      have hvisited := hvisit hv.twin hv.outside h.runs hstands hv.spells hv.aloof
      rw [hsite] at hvisited
      rw [walkRow, Engine.walkRow, List.foldlM_cons]
      refine hvisited.bind fun ε e₁ hleft => ?_
      obtain ⟨hrun₁, left, q', hspliced, hdeferred, hleft⟩ := hleft
      have hsame : site e₁.template p before after = site e.template p before after :=
        site_eq hstands hspliced fun c hc => (List.mem_append.1 hc).elim
          (fun hc => List.mem_append_left _ (List.mem_append_left _ hc))
          fun hc => List.mem_append_right _ (List.mem_append_right _ hc)
      rw [← hsame]
      refine ih (read_of_spells hrow fun w hw f hf => hspliced.spells hstands hf fun c hc => ?_)
        (fun w hw => hnew w (List.mem_cons_of_mem _ hw))
        (h.next hd hup (hnew v List.mem_cons_self) hrun₁ hspliced hdeferred hleft)
      rw [List.mem_singleton.1 hc]
      exact List.mem_append_right _ (List.mem_append_left _ (List.mem_map_of_mem hw))

end Rows

/-! ## Copies -/

section Copies

variable {e : Engine} {p n : NodeId} {before after : List NodeId} {t : Tree} {s s' : ElementState}

theorem read_branches {d : Document} (hs : s.Twin s') (hout : s'.sources.Outside) {f : Forest}
    (haloof : f.Aloof env) (i : Nat) {ids : List NodeId} (hids : ∀ c ∈ ids, Spells d [c] f) :
    List.Forall₂ (Read env d) (Engine.branches s i ids) (branches s' f i ids.length) := by
  induction ids generalizing i with
  | nil => exact .nil
  | cons c ids ih =>
    refine .cons ⟨?_, hout, hids c List.mem_cons_self, haloof⟩
      (ih (i + 1) fun m hm => hids m (List.mem_cons_of_mem _ hm))
    obtain ⟨k, rfl⟩ := hs
    exact ⟨k, rfl⟩

theorem replicate_answered (hvisit : Drafts env visit draft) (hs : s.Twin s')
    (hout : s'.sources.Outside) (hrun : e.RunsIn env) (hd : Stands e.template p before n after)
    (hn : Spells e.template [n] t.forest) (haloof : t.forest.Aloof env) (copies : Nat) :
    Answered (Leaves env e p before n after)
      (replicate draft s' (site e.template p before after) t copies)
      (Engine.replicate visit s n copies e) := by
  obtain ⟨ids, d', hmodel, hlen, hnew, hspliced, hspells⟩ := Engine.exists_branches hd hn copies
  obtain ⟨hrun', htemplate⟩ := hrun.setTemplate hspliced.wellFormed
  have hids := Engine.map_branches s 0 (n :: ids)
  have hrow : List.Forall₂ (Read env (e.setTemplate d').template)
      (Engine.branches s 0 (n :: ids))
      (branches s' (t.mapElement (·.removeDirective .multi)).forest 0 (n :: ids).length) :=
    read_branches hs hout (Engine.Aloof.removeDirective haloof .multi) 0
      (by rw [htemplate]; exact hspells)
  have hlined : Lined env e.template (¬ Within e.template n ·) p before after e.deferred []
      ((Engine.branches s 0 (n :: ids)).map (·.2)) .nil (e.setTemplate d') := by
    constructor
    · exact hrun'
    · rw [htemplate]
      exact hspliced.frame
    · rw [htemplate]
      exact (hd.path_eq hspliced.wellFormed hspliced.frame).1
    · rw [htemplate, hids, hspliced.children]
      simp
    · exact ⟨{}, (Deferred.append_empty _).symm, .nil⟩
  have hnewIds : ∀ v ∈ Engine.branches s 0 (n :: ids), v.2 < e.template.size →
      ¬ ¬ Within e.template n v.2 := by
    intro v hv hlt ho
    have hmem : v.2 ∈ n :: ids := hids ▸ List.mem_map_of_mem hv
    rcases List.mem_cons.1 hmem with hvn | hv
    · exact ho (.inl hvn)
    · exact Nat.not_lt.2 (hnew v.2 hv) hlt
  have hwalk := walkRow_answered hvisit hd.wellFormed.linked
    (fun a m hw ho hn => ho (hn.trans hw)) hrow hnewIds hlined
  have hsite : site (e.setTemplate d').template p before after =
      site e.template p before after := by
    rw [htemplate]
    exact site_eq hd hspliced fun c hc => hc
  rw [hsite, List.length_cons, hlen] at hwalk
  rw [hmodel visit s e rfl, Engine.walkBranches_eq_row]
  refine hwalk.mono ?_
  rintro δ e' ⟨left, hleft⟩
  obtain ⟨q, hdeferred, hdrafted⟩ := hleft.drafted
  refine ⟨hleft.runs, left, q, ⟨hleft.runs.wellFormed, hleft.frame, ?_⟩, hdeferred, hdrafted⟩
  simpa using hleft.children

/-- One visit per source, in front of what the sources before have left. -/
theorem walkSources_answered (hvisit : Drafts env visit draft) {d : Document} (hs : s.Twin s')
    (hd : Stands d p before n after) (haloof : t.forest.Aloof env) {keys : List XPath.DocKey}
    (hkeys : templateKey ∉ keys) (hlast : ∀ key ∈ keys.dropLast, some key ≠ s.sources.primary)
    {δ : Draft} {done : List NodeId} {start q : Deferred} (hrun : e.RunsIn env)
    (hexpanding : Engine.Expanding d p before n after t (keys ≠ []) done e.template)
    (hdeferred : e.deferred = start ++ q) (hdone : Drafted env e.template done δ q) :
    Answered (fun δ' e' => e'.RunsIn env ∧ ∃ left q', Spliced d p before n after left e'.template ∧
        e'.deferred = start ++ q' ∧ Drafted env e'.template left δ' q')
      (walkSources env draft s' (site d p before after) t.forest keys δ)
      (Engine.walkSources visit s n p before.length keys e) := by
  induction keys generalizing e δ done q with
  | nil =>
    exact .ok ⟨hrun, done, q, ⟨hrun.wellFormed, hexpanding.frame, hexpanding.children⟩, hdeferred,
      hdone⟩
  | cons key keys ih =>
    have hkey : key ≠ templateKey := fun hk => hkeys (hk ▸ List.mem_cons_self)
    obtain ⟨elem, d', hpair, hplaced⟩ := hexpanding.exists_placed (List.cons_ne_nil _ _) hd
      (some key = s.sources.primary)
    have hdone' : Drafted env (d'.insertChild p before.length elem) done δ q :=
      hdone.frame hplaced.change hrun.wellFormed.linked hplaced.apart
    obtain ⟨hrun', htemplate⟩ := hrun.setTemplate hplaced.stands.wellFormed
    have hsite : site (d'.insertChild p before.length elem) p before (done ++ after) =
        { site d p before after with
          after := fun name => δ.forest.named name + (site d p before after).after name } := by
      simp only [site, named_append, hdone'.spells.named_eq,
        (hd.path_eq hplaced.stands.wellFormed hplaced.frame).2, hd.named_eq hplaced.frame]
    have htwin : (s.rebindSource key (e.setTemplate (d'.insertChild p before.length elem)).env).Twin
        (s'.rebindSource key env) := by
      have h := ElementState.rebindSource_twin env
        (d'.insertChild p before.length elem) env.template hs hkey
      rwa [Engine.setTemplate_template hrun.docs_pos, ← htemplate, ← hrun'.env_eq] at h
    have houtside : (s'.rebindSource key env).sources.Outside := by
      rw [ElementState.sources_rebindSource]
      exact ⟨by simp [SourceGroup.members, SourceGroup.single],
        by simpa [SourceGroup.members, SourceGroup.single] using hkey.symm⟩
    have hvisited := hvisit htwin houtside hrun' (by rw [htemplate]; exact hplaced.stands)
      (by rw [htemplate]; exact hplaced.spells) haloof
    rw [htemplate, hsite] at hvisited
    simp only [walkSources, Engine.walkSources, hpair]
    refine hvisited.bind fun ε e₁ hleft => ?_
    obtain ⟨hrun₁, left, q', hspliced, hdeferred', hleft⟩ := hleft
    rw [htemplate] at hspliced
    have hboth : Drafted env e₁.template (left ++ done) (ε ++ δ) (q ++ q') :=
      (hleft.append (hdone'.beside hplaced.stands hspliced fun c hc =>
        List.mem_append_right _ (List.mem_append_left _ hc))).swap
    refine ih (fun hk => hkeys (List.mem_cons_of_mem _ hk)) (fun k hk => hlast k ?_) hrun₁
      (hplaced.spliced hd (fun hne => hlast key ?_) hspliced) ?_ hboth
    · rw [List.dropLast_cons_of_ne_nil (List.ne_nil_of_mem (List.mem_of_mem_dropLast hk))]
      exact List.mem_cons_of_mem _ hk
    · rw [List.dropLast_cons_of_ne_nil hne]
      exact List.mem_cons_self
    · rw [hdeferred', ← Deferred.append_assoc, ← hdeferred]
      rfl

theorem expandSources_answered (hvisit : Drafts env visit draft) (hs : s.Twin s')
    (hout : s'.sources.Outside) (hrun : e.RunsIn env) (hd : Stands e.template p before n after)
    (hn : Spells e.template [n] t.forest) (haloof : t.forest.Aloof env) :
    Answered (Leaves env e p before n after)
      (expandSources env draft s' (site e.template p before after) t)
      (Engine.expandSources visit s n e) := by
  have hsources : s.sources = s'.sources := by
    obtain ⟨k, rfl⟩ := hs
    rfl
  have hstart := Engine.expanding_start hd hn (s'.sources.members.reverse ≠ [])
  obtain ⟨hrun', htemplate⟩ := hrun.setTemplate hstart.wellFormed
  rw [Engine.expandSources_eq hd, expandSources, hsources]
  refine walkSources_answered hvisit hs hd (Engine.Aloof.removeDirective haloof .sources) ?_ ?_
    hrun' (by rwa [htemplate]) (Deferred.append_empty e.deferred).symm .nil
  · rw [List.mem_reverse]
    exact hout.no_template
  · rw [hsources]
    exact SourceGroup.primary_last hout.nodup

end Copies

/-! ## One element -/

/-- The element stays where it is, and its draft is made. -/
def Remains (env : Environment) (d : Document) (start : Deferred) (n : NodeId) (δ : Draft)
    (e' : Engine) : Prop :=
  e'.RunsIn env ∧ Inside d n e'.template ∧
    ∃ q, e'.deferred = start ++ q ∧ Drafted env e'.template [n] δ q

section Element

variable {e : Engine} {n : NodeId} {t : Tree} {s s' parent : ElementState} {path : ElementPath}

/-- Changes inside an element leave its path as it is where they keep its name. -/
theorem elementPath_inside {d d' : Document} {t' : Tree} (hd : d.WellFormed)
    (hatt : Within d d.root n) (hn : Spells d [n] t.forest) (hinside : Inside d n d')
    (hn' : Spells d' [n] t'.forest) (hname : t'.element.name = t.element.name) :
    d'.elementPath n = d.elementPath n := by
  by_cases hroot : n = d.root
  · rw [hroot, elementPath_root, ← hinside.frame.root, elementPath_root]
  · obtain ⟨p, hp, hattp⟩ := hatt.exists_parent hroot
    obtain ⟨before, after, hsplit⟩ := List.append_of_mem ((hd.parent_iff_child p n).1 hp)
    have hstands : Stands d p before n after := ⟨hd, hattp, by simpa using hsplit⟩
    have hspliced := hinside.spliced hstands
    have hstands' : Stands d' p before n after := by
      refine ⟨hinside.wellFormed, (hstands.path_eq hspliced.wellFormed hspliced.frame).1, ?_⟩
      simpa using hspliced.children
    rw [Engine.path_eq_place hstands' hn', Engine.path_eq_place hstands hn, hname,
      Engine.place_eq hstands hspliced.wellFormed hspliced.frame]

/-- What a fetch comes to: either the tree that is still to be walked, or what
is left. -/
def Fetched (env : Environment) (e : Engine) (n : NodeId) (t : Tree) (R : Draft → Engine → Prop) :
    Tree ⊕ Draft → Bool × Engine → Prop
  | .inl t', (stays, e') => stays = true ∧ t'.element.name = t.element.name ∧ t'.kids = t.kids ∧
    e'.RunsIn env ∧ Inside e.template n e'.template ∧ e'.deferred = e.deferred ∧
    Spells e'.template [n] t'.forest
  | .inr δ, (stays, e') => stays = false ∧ R δ e'

theorem fetch_answered {R : Draft → Engine → Prop} {again : Nat → Result Draft}
    (hs : s.Twin s') (hout : s'.sources.Outside) (hrun : e.RunsIn env)
    (hn : Spells e.template [n] t.forest) (hpath : e.template.elementPath n = path)
    (hgone : path ≠ [] → R .nil (e.mapTemplate (·.detach n)))
    (hagain : ∀ copies, Answered R (again copies) (Engine.replicate visit parent n copies e)) :
    Answered (Fetched env e n t R) (fetch env path again s' t)
      (Engine.fetch visit parent s n e) := by
  obtain ⟨k, rfl⟩ := hs
  unfold fetch Engine.fetch
  cases hkey : s'.sources.primary with
  | none => exact .failed
  | some key =>
    have hne : key ≠ templateKey := fun hk => hout.primary_ne (hk ▸ hkey)
    have hdocs : e.env.docs[key]? = env.docs[key]? := by
      rw [hrun.env_eq]
      exact ElementState.getElem?_docs_setTemplate hne
    simp only [hdocs, hpath]
    cases env.docs[key]? with
    | none => exact .failed
    | some source =>
      dsimp only
      cases hfound : source.findAll path with
      | nil =>
        by_cases hrequired : s'.required = some true
        · simp only [hrequired, if_true]
          refine .inr (.error fun at_ hat => ⟨_, rfl, ?_⟩)
          rw [hn.location_eq, TreeWalk.Stop.missing.inj hat]
          exact ⟨_, _, _, _, rfl⟩
        · simp only [hrequired, if_false]
          refine .ok ⟨rfl, hgone fun hpath => ?_⟩
          rw [hpath] at hfound
          cases hfound
      | cons m found =>
        cases found with
        | nil =>
          simp only [hn.hasElementChildren_eq]
          cases t.kids.hasElement with
          | true => exact .ok ⟨rfl, rfl, rfl, hrun, Inside.refl hrun.wellFormed n, rfl, hn⟩
          | false =>
            have hinside : Inside e.template n (Engine.copyContent e.template n source m) := by
              rw [Engine.copyContent_eq]
              exact Inside.updateElement hrun.wellFormed n _
            obtain ⟨hrun', htemplate⟩ := hrun.setTemplate hinside.wellFormed
            have hn' := spells_updateElement hrun.wellFormed.linked hn
              (·.takeContent (source.attributes m) (source.text? m))
            rw [← Engine.copyContent_eq, ← htemplate] at hn'
            rw [← htemplate] at hinside
            exact .ok ⟨rfl, Element.name_takeContent _ _ _, rfl, hrun', hinside, rfl, hn'⟩
        | cons m' found =>
          have hcopies : Answered (Fetched env e n t R)
              (again ((m :: m' :: found).length - 1) >>= fun δ => pure (Sum.inr δ))
              (Engine.replicate visit parent n ((m :: m' :: found).length - 1) e >>=
                fun e' => pure (false, e')) :=
            (hagain _).bind fun δ e' h => .ok ⟨rfl, h⟩
          cases hexpected : s'.multi.expected? with
          | none =>
            simp only [Option.any_none, Bool.false_eq_true, if_false]
            exact hcopies
          | some expected =>
            by_cases hcount : expected = (m :: m' :: found).length
            · simp only [Option.any_some, hcount, ne_eq, not_true, decide_false,
                Bool.false_eq_true, if_false]
              exact hcopies
            · simp only [Option.any_some, ne_eq, hcount, not_false_eq_true, decide_true, if_true]
              exact .failed

/-- The draft of an element, from that of its children and a change of its
content. -/
theorem drafted_updateElement {d : Document} (hd : d.Linked) {line : Option Nat} {element : Element}
    {δ : Draft} {q r : Deferred} {pending : Pending}
    (hn : Spells d [n] (⟨element, line, δ.forest⟩ : Tree).forest)
    (h : Drafted env d (d.children n) δ q) (f : Element → Element)
    (hfills : (r.fills.map (·.fill env)).Perm (pending.fill.map (n, ·)).toList)
    (hrequireds : (r.requireds.map (·.required env)).Perm (pending.required.map (n, ·)).toList)
    (hsteady : r.Steady env) :
    Drafted env (d.updateElement n f) [n] (.node (.element (f element)) line pending δ .nil)
      (r ++ q) := by
  obtain ⟨x, hx, hkind, hline, -⟩ := spells_tree.1 (spells_updateElement hd hn f)
  have hkids : Drafted env (d.updateElement n f) x.children δ q := by
    rw [← children_of_node? hx, children_updateElement]
    refine h.frame (frame_updateElement d n n f) hd fun c hc m hm => ?_
    have hne : m ≠ n := fun hmn =>
      hd.not_within_self_parent ((hd.parent_iff_child n c).2 hc) (hmn ▸ hm)
    exact ⟨hne, hne⟩
  have hclose := Drafted.close hx hkids hfills hrequireds hsteady
  rw [hkind, hline] at hclose
  exact hclose

/-- Without its directives the element is the draft around what is left of its
children. -/
theorem remains_stripDirectives {d : Document} (hd : d.WellFormed) (hrun : e.RunsIn env)
    (hinside : Inside d n e.template) {line : Option Nat} {element : Element} {δ : Draft}
    (hn : Spells e.template [n] (⟨element, line, δ.forest⟩ : Tree).forest)
    {start q r : Deferred} (hdeferred : e.deferred = start ++ (r ++ q))
    (hkids : Drafted env e.template (e.template.children n) δ q) {pending : Pending}
    (hfills : (r.fills.map (·.fill env)).Perm (pending.fill.map (n, ·)).toList)
    (hrequireds : (r.requireds.map (·.required env)).Perm (pending.required.map (n, ·)).toList)
    (hsteady : r.Steady env) :
    Remains env d start n (.node (.element element.stripDirectives) line pending δ .nil)
      (e.mapTemplate (·.stripDirectives n)) := by
  have hstrip : Inside d n (e.template.stripDirectives n) :=
    hinside.trans hd (Inside.updateElement hrun.wellFormed n _)
  obtain ⟨hrun', htemplate⟩ := hrun.setTemplate hstrip.wellFormed
  refine ⟨hrun', by rwa [← htemplate] at hstrip, r ++ q, hdeferred, ?_⟩
  change Drafted env (e.setTemplate (e.template.stripDirectives n)).template [n] _ _
  rw [htemplate]
  exact drafted_updateElement hrun.wellFormed.linked hn hkids (·.stripDirectives) hfills hrequireds
    hsteady

theorem read_kids {d : Document} (hs : s.Twin s') (hout : s'.sources.Outside) {ns : List NodeId}
    {f : Forest} (hf : Spells d ns f) (haloof : f.Aloof env) :
    List.Forall₂ (Read env d) (ns.map (s, ·)) (f.singles.map (s', ·)) := by
  induction hf with
  | nil => exact .nil
  | node hx hkids _ _ ih =>
    exact .cons ⟨hs, hout, .node hx hkids .nil, haloof.1, haloof.2.1, trivial⟩ (ih haloof.2.2)

/-- An element with elements in it is left around what is left of them. -/
theorem walkKids_answered (hvisit : Drafts env visit draft) (hs : s.Twin s')
    (hout : s'.sources.Outside) (hrun : e.RunsIn env)
    (hatt : Within e.template e.template.root n) (hn : Spells e.template [n] t.forest)
    (hpath : e.template.elementPath n = path) (hkids : t.kids.Aloof env) :
    Answered (fun δ e' => e'.RunsIn env ∧ Inside e.template n e'.template ∧
        Spells e'.template [n] (⟨t.element, t.line, δ.forest⟩ : Tree).forest ∧
        ∃ q, e'.deferred = e.deferred ++ q ∧ Drafted env e'.template (e'.template.children n) δ q)
      (walkRow draft ⟨path, fun _ => 0, fun _ => 0⟩ .nil (t.kids.singles.map (s', ·)))
      ((e.template.children n).foldlM (fun e c => visit s c e) e) := by
  have hlinked := hrun.wellFormed.linked
  have hids : ((e.template.children n).map (s, ·)).map (·.2) = e.template.children n := by simp
  have hlined : Lined env e.template (¬ Below e.template n ·) n [] [] e.deferred []
      (((e.template.children n).map (s, ·)).map (·.2)) .nil e := by
    refine ⟨hrun, Frame.refl _ n _, hatt, by simp, {}, (Deferred.append_empty _).symm, .nil⟩
  have hbelow : ∀ v ∈ (e.template.children n).map (s, ·), v.2 < e.template.size →
      ¬ ¬ Below e.template n v.2 := by
    intro v hv _ ho
    obtain ⟨c, hc, rfl⟩ := List.mem_map.1 hv
    exact ho (.child ((hlinked.parent_iff_child n c).2 hc))
  have hwalk := walkRow_answered hvisit hlinked
    (fun a m hw ho hb => ho (by
      rcases hw with rfl | hw
      · exact hb
      · exact hb.trans hw))
    (read_kids hs hout hn.kids hkids) hbelow hlined
  have hsite : site e.template n [] [] = ⟨path, fun _ => 0, fun _ => 0⟩ := by
    rw [site, hpath]
    rfl
  rw [hsite, Engine.walkRow, List.foldlM_map] at hwalk
  refine hwalk.mono ?_
  rintro δ e' ⟨left, hleft⟩
  obtain ⟨q, hdeferred, hdrafted⟩ := hleft.drafted
  have hchildren : e'.template.children n = left := by simpa using hleft.children
  rw [← hchildren] at hdrafted
  refine ⟨hleft.runs, Inside.of_below hleft.runs.wellFormed hleft.frame, spells_tree.2 ?_, q,
    hdeferred, hdrafted⟩
  obtain ⟨x, hx, hkind, hline, -⟩ := spells_tree.1 hn
  have hshell := hleft.frame.shell n (lt_size_of_node? hx) (hlinked.acyclic n)
  rw [shell?, shell?, hx, Option.map_some] at hshell
  obtain ⟨y, hy, hxy⟩ := Option.map_eq_some_iff.1 hshell
  rw [Node.mk.injEq] at hxy
  refine ⟨y, hy, hxy.1.trans hkind, hxy.2.2.2.trans hline, ?_⟩
  rw [← children_of_node? hy]
  exact hdrafted.spells

section Leaf

variable {start r : Deferred} {required : Option (Result Bool)} (hrun : e.RunsIn env)
  (hn : Spells e.template [n] t.forest) (hdeferred : e.deferred = start ++ r)
  (hfills : r.fills = [])
  (hrequireds : (r.requireds.map (·.required env)).Perm (required.map (n, ·)).toList)
  (hsteady : r.Steady env)

include hrun hn hdeferred hfills hrequireds hsteady

/-- An element without elements in it that is not filled. -/
theorem remains_leaf :
    Remains env e.template start n
      (.node (.element t.element.stripDirectives) t.line { required } (.ofForest t.kids) .nil)
      (e.mapTemplate (·.stripDirectives n)) := by
  have hn' : Spells e.template [n]
      (⟨t.element, t.line, (Draft.ofForest t.kids).forest⟩ : Tree).forest := by
    rw [Draft.forest_ofForest]
    exact hn
  refine remains_stripDirectives (q := {}) hrun.wellFormed hrun (Inside.refl hrun.wellFormed n) hn'
    ?_ (.ofForest hn.kids) ?_ hrequireds hsteady
  · rw [hdeferred, Deferred.append_empty]
  · rw [hfills]
    exact .nil

/-- An element without elements in it whose text is written at once. -/
theorem remains_written (text : String) :
    Remains env e.template start n
      (.node (.element { t.element.stripDirectives with text := some text }) t.line
        { required } (.ofForest t.kids) .nil)
      ((e.setTemplate (e.template.setText n (some text))).mapTemplate (·.stripDirectives n)) := by
  have hinside : Inside e.template n (e.template.setText n (some text)) :=
    Inside.updateElement hrun.wellFormed n _
  obtain ⟨hrun', htemplate⟩ := hrun.setTemplate hinside.wellFormed
  have hn' : Spells (e.setTemplate (e.template.setText n (some text))).template [n]
      (⟨{ t.element with text := some text }, t.line,
        (Draft.ofForest t.kids).forest⟩ : Tree).forest := by
    rw [htemplate, Draft.forest_ofForest]
    exact spells_updateElement hrun.wellFormed.linked hn ({ · with text := some text })
  refine remains_stripDirectives (q := {}) hrun.wellFormed hrun' (by rwa [htemplate]) hn'
    (hdeferred.trans (by rw [Deferred.append_empty])) (.ofForest ?_) ?_ hrequireds hsteady
  · simpa using hn'.kids
  · rw [hfills]
    exact .nil

/-- An element without elements in it whose fill is put off. -/
theorem remains_queued {v : Result (Option FillValue)}
    (hvalue : ∀ d, quiet (s.evalFill (env.setTemplate d)) = v) :
    Remains env e.template start n
      (.node (.element t.element.stripDirectives) t.line { fill := some v, required }
        (.ofForest t.kids) .nil)
      (({ e with deferred := e.deferred.addFill ⟨s, n⟩ } : Engine).mapTemplate
        (·.stripDirectives n)) := by
  have hitem : ∀ d, (DeferredItem.mk s n).fill (env.setTemplate d) = (n, v) :=
    fun d => congrArg (n, ·) (hvalue d)
  have hitem₀ : (DeferredItem.mk s n).fill env = (n, v) := by
    rw [← hitem env.template, Engine.setTemplate_template hrun.docs_pos]
  have hqueued : (r ++ { fills := [⟨s, n⟩] }).Steady env := by
    refine hsteady.append ⟨fun item hi d => ?_, by simp⟩
    rw [List.mem_singleton.1 hi, hitem, hitem₀]
  have hrun' : Engine.RunsIn env { e with deferred := e.deferred.addFill ⟨s, n⟩ } :=
    ⟨hrun.docs_pos, hrun.env_eq, hrun.wellFormed⟩
  have hn' : Spells e.template [n]
      (⟨t.element, t.line, (Draft.ofForest t.kids).forest⟩ : Tree).forest := by
    rw [Draft.forest_ofForest]
    exact hn
  refine remains_stripDirectives (q := {}) (r := r ++ { fills := [⟨s, n⟩] }) hrun.wellFormed hrun'
    (Inside.refl hrun.wellFormed n) hn' ?_ (.ofForest hn.kids) ?_ ?_ hqueued
  · rw [Deferred.append_empty, ← Deferred.append_assoc, ← hdeferred]
    exact Deferred.addFill_eq _ _
  · rw [Deferred.fills_append, hfills, List.nil_append, List.map_singleton, hitem₀]
    exact .rfl
  · rw [Deferred.requireds_append, List.append_nil]
    exact hrequireds

/-- An element without elements in it is filled, now or later, or left as it
is. -/
theorem finishLeaf_answered (hs : ElementState.Settled env s s')
    (hinner : t.kids.hasElement = false) :
    Answered (Remains env e.template start n) (finishElement env draft s' path t required)
      (Engine.finishElement visit s n e) := by
  have hleaf := remains_leaf hrun hn hdeferred hfills hrequireds hsteady
  have hvalue := ElementState.quiet_evalFill hrun.docs_pos hs
  have hsame : s.declares .fill = s'.declares .fill ∧ s.defer = s'.defer := by
    obtain ⟨⟨k, rfl⟩, -, -⟩ := hs
    exact ⟨rfl, rfl⟩
  unfold finishElement Engine.finishElement Engine.walkContent
  simp only [hn.hasElementChildren_eq, hinner, Bool.false_eq_true, if_false, fill, hsame.1,
    hsame.2]
  cases s'.declares .fill with
  | false => exact .ok hleaf
  | true =>
    cases s'.defer with
    | true => exact .ok (remains_queued hrun hn hdeferred hfills hrequireds hsteady hvalue)
    | false =>
      simp only [Bool.not_true, Bool.false_eq_true, if_false]
      have hquiet : quiet (s.evalFill e.env) = quiet (s'.evalFill env) := by
        rw [hrun.env_eq]
        exact hvalue _
      have htext : e.template.text? n = t.element.text := by
        rw [Document.text?, hn.element?_eq]
        rfl
      simp only [bind_assoc]
      refine (Answered.of_quiet hquiet).bind fun v _ hv => ?_
      subst hv
      cases v with
      | none => exact .ok hleaf
      | some v =>
        simp only [Document.applyFill, htext]
        cases v.applyTo (t.element.text.getD "") with
        | error fault => exact .failed
        | ok text =>
          exact .ok (remains_written hrun hn hdeferred hfills hrequireds hsteady text)

end Leaf

theorem finishElement_answered (hvisit : Drafts env visit draft)
    (hs : ElementState.Settled env s s') (hrun : e.RunsIn env)
    (hatt : Within e.template e.template.root n) (hn : Spells e.template [n] t.forest)
    (hpath : e.template.elementPath n = path) (hkids : t.kids.Aloof env) {start r : Deferred}
    (hdeferred : e.deferred = start ++ r) (hfills : r.fills = []) {required : Option (Result Bool)}
    (hrequireds : (r.requireds.map (·.required env)).Perm (required.map (n, ·)).toList)
    (hsteady : r.Steady env) :
    Answered (Remains env e.template start n) (finishElement env draft s' path t required)
      (Engine.finishElement visit s n e) := by
  cases hinner : t.kids.hasElement with
  | false => exact finishLeaf_answered hrun hn hdeferred hfills hrequireds hsteady hs hinner
  | true =>
    unfold finishElement Engine.finishElement Engine.walkContent
    simp only [hn.hasElementChildren_eq, hinner, if_true]
    refine (walkKids_answered hvisit hs.twin hs.outside hrun hatt hn hpath hkids).bind ?_
    rintro δ e' ⟨hrun', hinside, hn', q, hdeferred', hdrafted⟩
    refine .ok (remains_stripDirectives hrun.wellFormed hrun' hinside hn' ?_ hdrafted ?_
      hrequireds hsteady)
    · rw [hdeferred', hdeferred, Deferred.append_assoc]
    · rw [hfills]
      exact .nil

/-- An element that is neither fetched nor repeated; whether it is required is
noted where that is left open. -/
theorem finishRequired_answered (hvisit : Drafts env visit draft)
    (hs : ElementState.Settled env s s') (hrun : e.RunsIn env)
    (hatt : Within e.template e.template.root n) (hn : Spells e.template [n] t.forest)
    (hpath : e.template.elementPath n = path) (hkids : t.kids.Aloof env) :
    Answered (Remains env e.template e.deferred n)
      (finishElement env draft s' path t (required env s'))
      (if s'.declares .required then
        Engine.finishElement visit s n { e with deferred := e.deferred.addRequired ⟨s, n⟩ }
      else Engine.finishElement visit s n e) := by
  unfold required
  split
  · have hitem : ∀ t, (DeferredItem.mk s n).required (env.setTemplate t) =
        (n, quiet ((s'.evalRequired env).map (·.1))) := fun t =>
      congrArg (n, ·) (ElementState.quiet_evalRequired hrun.docs_pos hs t)
    have hitem₀ : (DeferredItem.mk s n).required env =
        (n, quiet ((s'.evalRequired env).map (·.1))) := by
      rw [← hitem env.template, Engine.setTemplate_template hrun.docs_pos]
    have hqueued : ({ requireds := [⟨s, n⟩] } : Deferred).Steady env := by
      refine ⟨fun _ h => absurd h List.not_mem_nil, fun item hi t => ?_⟩
      rw [List.mem_singleton.1 hi, hitem, hitem₀]
    have hrun' : Engine.RunsIn env { e with deferred := e.deferred.addRequired ⟨s, n⟩ } :=
      ⟨hrun.docs_pos, hrun.env_eq, hrun.wellFormed⟩
    refine finishElement_answered hvisit hs hrun' hatt hn hpath hkids
      (Deferred.addRequired_eq _ _) rfl ?_ hqueued
    rw [List.map_singleton, hitem₀]
    exact .rfl
  · have hnone : ((({} : Deferred).requireds.map (·.required env)).Perm
        ((none : Option (Result Bool)).map (n, ·)).toList) := .nil
    exact finishElement_answered hvisit hs hrun hatt hn hpath hkids
      (Deferred.append_empty _).symm rfl hnone (Deferred.steady_empty env)

theorem walkElement_answered (hvisit : Drafts env visit draft) {R : Draft → Engine → Prop}
    {again : Nat → Result Draft} (hs : ElementState.Settled env s s') (hrun : e.RunsIn env)
    (hatt : Within e.template e.template.root n) (hn : Spells e.template [n] t.forest)
    (hpath : e.template.elementPath n = path) (hkids : t.kids.Aloof env)
    (hstays : ∀ δ e', Remains env e.template e.deferred n δ e' → R δ e')
    (hgone : path ≠ [] → R .nil (e.mapTemplate (·.detach n)))
    (hagain : ∀ copies, Answered R (again copies) (Engine.replicate visit parent n copies e)) :
    Answered R (walkElement env draft path again s' t) (Engine.walkElement visit parent s n e) := by
  have hfields : s.fetch = s'.fetch ∧ s.multi = s'.multi ∧
      s.declares .required = s'.declares .required := by
    obtain ⟨⟨k, rfl⟩, -, -⟩ := hs
    exact ⟨rfl, rfl, rfl⟩
  unfold walkElement Engine.walkElement
  simp only [hfields.1, hfields.2.1, hfields.2.2]
  cases s'.fetch with
  | true =>
    simp only [if_true]
    have hnone : ((({} : Deferred).requireds.map (·.required env)).Perm
      ((none : Option (Result Bool)).map (n, ·)).toList) := .nil
    refine (fetch_answered hs.twin hs.outside hrun hn hpath hgone hagain).bind ?_
    rintro fetched ⟨stays, e'⟩ hfetched
    cases fetched with
    | inr left =>
      obtain ⟨rfl, hleft⟩ := hfetched
      exact .ok hleft
    | inl t' =>
      obtain ⟨rfl, hname, hsame, hrun', hinside, hdeferred, hn'⟩ := hfetched
      have hpath' : e'.template.elementPath n = path :=
        (elementPath_inside hrun.wellFormed hatt hn hinside hn' hname).trans hpath
      refine (finishElement_answered hvisit hs hrun' (hinside.attached hrun.wellFormed hatt) hn'
        hpath' (hsame ▸ hkids) (Deferred.append_empty _).symm rfl hnone (Deferred.steady_empty env)).mono ?_
      rintro δ e'' ⟨hrun'', hinside', q, hq, hdrafted⟩
      exact hstays δ e'' ⟨hrun'', hinside.trans hrun.wellFormed hinside', q, hdeferred ▸ hq,
        hdrafted⟩
  | false =>
    simp only [Bool.false_eq_true, if_false]
    have hplain :=
      (finishRequired_answered hvisit hs hrun hatt hn hpath hkids).mono hstays
    cases s'.multi with
    | flag b => exact hplain
    | count k =>
      by_cases hk : k - 1 > 0
      · simp only [hk, if_true]
        exact hagain (k - 1)
      · simp only [hk, if_false]
        exact hplain

end Element

/-! ## The walk -/

section Process

variable {e : Engine} {p n : NodeId} {before after : List NodeId} {t : Tree} {s s' : ElementState}

theorem hasElement_outline (t : Tree) : t.outline.kids.hasElement = t.kids.hasElement := by
  unfold Tree.outline
  cases t.kids.hasElement <;> rfl

/-- The state of an element is the one of the outline of its tree. -/
theorem state_answered (hs : s.Twin s') (hout : s'.sources.Outside) (hrun : e.RunsIn env)
    (hn : Spells e.template [n] t.forest) (haloof : t.element.Aloof env) :
    Answered (fun a b => ElementState.Settled env b a) (state env s' t)
      ((ElementState.resolve e.env s n).mapError .failed) := by
  have hself : Spells t.outline.document [0] t.outline.forest :=
    spells_graft (by simp) t.outline.forest
  have htwin := ElementState.resolve_twin hrun.docs_pos hs hout haloof
    hn.element?_eq hself.element?_eq
    (hn.hasElementChildren_eq.trans
      ((hasElement_outline t).symm.trans hself.hasElementChildren_eq.symm))
  rw [← hrun.env_eq] at htwin
  generalize ElementState.resolve e.env s n = x at htwin ⊢
  unfold state
  generalize ElementState.resolve (env.setTemplate t.outline.document) s' 0 = y at htwin ⊢
  cases htwin with
  | ok h => exact .ok h
  | error => exact .failed

/-- A node that was not touched, with nothing open. -/
theorem leaves_ofForest (hrun : e.RunsIn env) (hd : Stands e.template p before n after) {f : Forest}
    (hf : Spells e.template [n] f) : Leaves env e p before n after (.ofForest f) e :=
  ⟨hrun, [n], {}, (Inside.refl hrun.wellFormed n).spliced hd, (Deferred.append_empty _).symm,
    .ofForest hf⟩

/-- The walk makes the drafts that are described here. -/
theorem drafts_process (env : Environment) (fuel : Nat) :
    Drafts env (Engine.process fuel) (process env fuel) := by
  induction fuel with
  | zero => exact fun _ _ _ _ _ _ => .inl rfl
  | succ fuel ih =>
    intro parent parent' e p n before after f hparent hout hrun hd hf haloof
    unfold Engine.process
    by_cases hcomment : e.template.isComment n = true
    · rw [if_pos hcomment]
      cases hf with
      | @node _ _ x kids _ hx hkids hrest =>
        cases hrest
        rw [isComment, kind?_of_node? hx] at hcomment
        have hwalk : process env (fuel + 1) parent' (site e.template p before after)
            (.node x.kind x.line kids .nil) = .ok (.ofForest (.node x.kind x.line kids .nil)) := by
          cases hkind : x.kind with
          | element => simp [hkind, NodeKind.isComment, NodeKind.isElement, NodeKind.element?] at hcomment
          | comment => rfl
        rw [hwalk]
        exact .ok (leaves_ofForest hrun hd (.node hx hkids .nil))
    · rw [if_neg hcomment]
      obtain ⟨t, rfl⟩ := hf.exists_tree (Engine.isElement_of_not_comment hf hcomment)
      change Answered _ (state env parent' t >>= _) _
      refine (state_answered hparent hout hrun hf (haloof.1 _ rfl)).bind fun s' s hsettled => ?_
      have hsources : s.sources = s'.sources := by
        obtain ⟨⟨k, rfl⟩, -, -⟩ := hsettled
        rfl
      rw [hsources]
      split
      · refine walkElement_answered ih hsettled hrun (within_of_parent? hd.parent hd.attached) hf
          (Engine.path_eq_place hd hf) haloof.2.1 ?_ ?_ fun copies =>
            replicate_answered ih hparent hout hrun hd hf haloof copies
        · rintro δ e' ⟨hrun', hinside, q, hdeferred, hdrafted⟩
          exact ⟨hrun', [n], q, hinside.spliced hd, hdeferred, hdrafted⟩
        · intro _
          obtain ⟨hrun', htemplate⟩ := hrun.setTemplate (hrun.wellFormed.detach n)
          have hspliced : Spliced e.template p before n after [] (e.template.detach n) :=
            hd.spliced_detach
          rw [← htemplate] at hspliced
          exact ⟨hrun', [], {}, hspliced, (Deferred.append_empty _).symm, .nil⟩
      · exact expandSources_answered ih hsettled.twin hsettled.outside hrun hd hf haloof

/-- So it does from the root, where nothing can be copied. -/
theorem root_answered (hrun : e.RunsIn env) (hn : Spells e.template [e.template.root] t.forest)
    (haloof : t.forest.Aloof env) (hempty : e.deferred = {}) (fuel : Nat) :
    Answered (fun δ e' => e'.RunsIn env ∧ Inside e.template e.template.root e'.template ∧
        Drafted env e'.template [e.template.root] δ e'.deferred)
      (root env fuel t) (Engine.process (fuel + 1) .root e.template.root e) := by
  have hroot : ∀ directive,
      (e.template.removeDirective e.template.root directive).parent? e.template.root = none :=
    fun directive => (parent?_updateElement _ _ _ _).trans hrun.wellFormed.root_parent
  have hcomment : ¬ e.template.isComment e.template.root = true := by
    rw [isComment_of_isElement hrun.wellFormed.root_isElement]
    exact Bool.false_ne_true
  unfold root Engine.process
  rw [if_neg hcomment]
  have houtside : ElementState.root.sources.Outside := ⟨.nil, List.not_mem_nil⟩
  refine (state_answered (ElementState.Twin.refl _) houtside hrun hn (haloof.1 _ rfl)).bind
    fun s' s hsettled => ?_
  have hsources : s.sources = s'.sources := by
    obtain ⟨⟨k, rfl⟩, -, -⟩ := hsettled
    rfl
  rw [hsources]
  split
  · refine walkElement_answered (drafts_process env fuel) hsettled hrun (within_self _ _) hn
      (elementPath_root _) haloof.2.1 ?_ (fun hpath => absurd rfl hpath) fun copies => ?_
    · rintro δ e' ⟨hrun', hinside, q, hdeferred, hdrafted⟩
      rw [hempty, Deferred.empty_append] at hdeferred
      exact ⟨hrun', hinside, hdeferred ▸ hdrafted⟩
    · simp only [Engine.replicate, hroot]
      exact .failed
  · simp only [Engine.expandSources, hroot]
    exact .failed

end Process

end DraftWalk

end LabelTemplate
