import LabelTemplate.Proofs.Walk.Build
import LabelTemplate.Proofs.Walk.Directives
import LabelTemplate.Proofs.Walk.Walked
import LabelTemplate.Proofs.Walk.Weight

/-!
# Every walk comes to an end

A visit goes to a child of an element, to a copy of it without the directive
that asked for copies, or to one copy per source without the directive that
bound them.  In each case what is visited is lighter than the element, so
fuel above the weight of an element is never spent (`process_ends`).  Two
facts about states keep it so.  A state that is handed down is bound to one
source at most (`Single`), so a group is met only where it is bound; and the
documents of a group are distinct, so that the element itself is walked once.

The same induction says what a visit leaves (`Settles`): a walked part in the
place of the element, and nothing changed outside.
-/

namespace LabelTemplate

open Xml Document Outcome

/-- The state is bound to one source at most. -/
def ElementState.Single (s : ElementState) : Prop := s.sources.secondary = []

theorem ElementState.single_rebindSource (s : ElementState) (key : XPath.DocKey)
    (env : Environment) : (s.rebindSource key env).Single := by
  rw [Single, sources_rebindSource]
  rfl

namespace Engine

/-! ## Outcomes of a walk -/

/-- The fuel is not spent, and a result has the property. -/
inductive Ends {α : Type} (P : α → Prop) : Except WalkFault α → Prop
  | ok {a : α} (h : P a) : Ends P (.ok a)
  | failed (e : Error) : Ends P (.error (.failed e))

section Ends

variable {α β : Type} {P : α → Prop} {Q : β → Prop}

theorem Ends.bind {x : Except WalkFault α} {f : α → Except WalkFault β} (h : Ends P x)
    (hf : ∀ a, P a → Ends Q (f a)) : Ends Q (x >>= f) := by
  cases h with
  | @ok a h => exact hf a h
  | failed e => exact .failed e

theorem ends_mapError (x : Except Error α) : Ends (fun a => x = .ok a) (x.mapError .failed) := by
  cases x with
  | ok a => exact .ok rfl
  | error e => exact .failed e

theorem Ends.mono {R : α → Prop} {x : Except WalkFault α} (h : Ends P x)
    (hpr : ∀ a, P a → R a) : Ends R x := by
  cases h with
  | ok h => exact .ok (hpr _ h)
  | failed e => exact .failed e

theorem Ends.ne_exhausted {x : Except WalkFault α} (h : Ends P x) : x ≠ .error .exhausted := by
  cases h with
  | ok h => exact nofun
  | failed e => exact nofun

theorem Ends.of_ok {a : α} (h : Ends P (.ok a)) : P a := by
  cases h with
  | ok h => exact h

end Ends

/-! ## Visits -/

/-- A visit of `n` left a walked part in its place, and the queue grew by what
was deferred there. -/
def Settles (env : Environment) (e : Engine) (p : NodeId) (before : List NodeId) (n : NodeId)
    (after : List NodeId) (e' : Engine) : Prop :=
  e'.RunsIn env ∧ ∃ left q, Spliced e.template p before n after left e'.template ∧
    e'.deferred = e.deferred ++ q ∧ Walked e'.template left q

/-- Visits of trees that are lighter than `bound` come to an end. -/
def VisitEnds (env : Environment) (visit : Visit) (bound : Nat) : Prop :=
  ∀ {s : ElementState} {e : Engine} {p n : NodeId} {before after : List NodeId} {f : Forest},
    s.Single → e.RunsIn env → Stands e.template p before n after → Spells e.template [n] f →
    f.weight < bound → Ends (Settles env e p before n after) (visit s n e)

/-- Visits in order, each with the state above it. -/
def walkRow (visit : Visit) (row : List (ElementState × NodeId)) (e : Engine) :
    Except WalkFault Engine :=
  row.foldlM (fun e v => visit v.1 v.2 e) e

/-- Branches with the states above them, numbered from `i`. -/
def branches (parent : ElementState) : (i : Nat) → List NodeId → List (ElementState × NodeId)
  | _, [] => []
  | i, n :: ns => ({ parent with multiBranch := some i }, n) :: branches parent (i + 1) ns

theorem map_branches (parent : ElementState) (i : Nat) (ns : List NodeId) :
    (branches parent i ns).map (·.2) = ns := by
  induction ns generalizing i with
  | nil => rfl
  | cons n ns ih => simp [branches, ih]

theorem single_of_mem_branches {parent : ElementState} (h : parent.Single) {i : Nat}
    {ns : List NodeId} : ∀ v ∈ branches parent i ns, v.1.Single := by
  induction ns generalizing i with
  | nil => simp [branches]
  | cons n ns ih =>
    intro v hv
    rcases List.mem_cons.1 hv with rfl | hv
    · exact h
    · exact ih v hv

theorem walkBranches_eq_row (visit : Visit) (parent : ElementState) (i : Nat) (ns : List NodeId)
    (e : Engine) : walkBranches visit parent i ns e = walkRow visit (branches parent i ns) e := by
  induction ns generalizing i e with
  | nil => rfl
  | cons n ns ih =>
    rw [walkBranches, branches, walkRow, List.foldlM_cons]
    exact bind_congr fun e' => ih (i + 1) e'

variable {env : Environment} {visit : Visit} {bound : Nat}

/-! ## Several visits -/

/-- A row of siblings below `p` that is walked in order: `done` has been walked
and `todo` is to come.  Of the arena `d` at the start the nodes in `out` are as
they were. -/
structure Row (env : Environment) (d : Document) (out : NodeId → Prop) (p : NodeId)
    (before after : List NodeId) (start : Deferred) (done todo : List NodeId) (e : Engine) :
    Prop where
  runs : e.RunsIn env
  frame : Frame out p d e.template
  attached : Within e.template e.template.root p
  children : e.template.children p = before ++ done ++ todo ++ after
  walked : ∃ q, e.deferred = start ++ q ∧ Walked e.template done q

section Row

variable {d : Document} {out : NodeId → Prop} {p n : NodeId} {before after done todo : List NodeId}
  {start : Deferred} {e e' : Engine}

theorem Row.stands (h : Row env d out p before after start done (n :: todo) e) :
    Stands e.template p (before ++ done) n (todo ++ after) :=
  ⟨h.runs.wellFormed, h.attached, by simpa using h.children⟩

/-- The next sibling was walked. -/
theorem Row.settles (h : Row env d out p before after start done (n :: todo) e) (hd : d.Linked)
    (hup : ∀ a m, Within d a m → out m → out a) (hnew : n < d.size → ¬ out n)
    (hsettles : Settles env e p (before ++ done) n (todo ++ after) e') :
    ∃ left, Row env d out p before after start (done ++ left) todo e' ∧
      ∀ {c : NodeId} {f : Forest}, c ∈ done ++ todo → Spells e.template [c] f →
        Spells e'.template [c] f := by
  obtain ⟨hrun, left, q', hspliced, hdeferred', hleft⟩ := hsettles
  obtain ⟨q, hdeferred, hdone⟩ := h.walked
  have hstands := h.stands
  have hchildren : e'.template.children p = before ++ (done ++ left) ++ todo ++ after := by
    rw [hspliced.children]
    simp
  have hboth : Walked e'.template (done ++ left) (q ++ q') :=
    hdone.beside hstands (fun c hc => List.mem_append_left _ (List.mem_append_right _ hc))
      hspliced hleft fun c => List.mem_append
  refine ⟨left, ⟨hrun, ?_, (hstands.path_eq hrun.wellFormed hspliced.frame).1, hchildren,
    q ++ q', ?_, hboth⟩, fun hc hf => hspliced.spells hstands hf fun m hm => ?_⟩
  · exact h.frame.trans hspliced.frame fun m hm ho => h.frame.not_within hd hup hnew hm ho
  · rw [hdeferred', hdeferred, Deferred.append_assoc]
  · rw [List.mem_singleton.1 hm, List.append_assoc, ← List.append_assoc done]
    exact List.mem_append_right _ (List.mem_append_left _ hc)

/-- Visits of siblings in order. -/
theorem walkRow_ends (hvisit : VisitEnds env visit bound) (hd : d.Linked)
    (hup : ∀ a m, Within d a m → out m → out a) {row : List (ElementState × NodeId)}
    (hsingle : ∀ v ∈ row, v.1.Single) (hnew : ∀ v ∈ row, v.2 < d.size → ¬ out v.2)
    (hlight : ∀ v ∈ row, ∃ f, Spells e.template [v.2] f ∧ f.weight < bound)
    (h : Row env d out p before after start done (row.map (·.2)) e) :
    Ends (fun e' => ∃ left, Row env d out p before after start left [] e')
      (walkRow visit row e) := by
  induction row generalizing done e with
  | nil => exact .ok ⟨done, h⟩
  | cons v row ih =>
    obtain ⟨f, hf, hlt⟩ := hlight v List.mem_cons_self
    have hmem : ∀ w ∈ row, w ∈ v :: row := fun w hw => List.mem_cons_of_mem _ hw
    rw [walkRow, List.foldlM_cons]
    refine (hvisit (hsingle v List.mem_cons_self) h.runs h.stands hf hlt).bind fun e₁ h₁ => ?_
    obtain ⟨left, hrow, hspells⟩ := h.settles hd hup (hnew v List.mem_cons_self) h₁
    refine ih (fun w hw => hsingle w (hmem w hw)) (fun w hw => hnew w (hmem w hw))
      (fun w hw => ?_) hrow
    obtain ⟨g, hg, hlight⟩ := hlight w (hmem w hw)
    exact ⟨g, hspells (List.mem_append_right _ (List.mem_map_of_mem hw)) hg, hlight⟩

end Row

/-! ## Copies -/

section Copies

variable {e : Engine} {p n : NodeId} {before after : List NodeId} {t : Tree}

theorem replicate_ends (hvisit : VisitEnds env visit bound) {parent : ElementState}
    (hparent : parent.Single) (hrun : e.RunsIn env) (hd : Stands e.template p before n after)
    (hn : Spells e.template [n] t.forest)
    (hlight : (t.mapElement (·.removeDirective .multi)).weight < bound) (copies : Nat) :
    Ends (Settles env e p before n after) (replicate visit parent n copies e) := by
  obtain ⟨ids, d', hmodel, -, hnew, hspliced, hspells⟩ := exists_branches hd hn copies
  obtain ⟨hrun', htemplate⟩ := hrun.setTemplate hspliced.wellFormed
  rw [hmodel visit parent e rfl, walkBranches_eq_row]
  have hids := map_branches parent 0 (n :: ids)
  have hmem : ∀ v ∈ branches parent 0 (n :: ids), v.2 ∈ n :: ids := fun v hv =>
    hids ▸ List.mem_map_of_mem hv
  have hrow : Row env e.template (¬ Within e.template n ·) p before after e.deferred []
      ((branches parent 0 (n :: ids)).map (·.2)) (e.setTemplate d') := by
    constructor
    · exact hrun'
    · rw [htemplate]
      exact hspliced.frame
    · rw [htemplate]
      exact (hd.path_eq hspliced.wellFormed hspliced.frame).1
    · rw [htemplate, hids, hspliced.children]
      simp
    · exact ⟨{}, (Deferred.append_empty _).symm, Walked.nil _⟩
  refine (walkRow_ends hvisit hd.wellFormed.linked (fun a m hw ho hn => ho (hn.trans hw))
    (single_of_mem_branches hparent) (fun v hv hlt ho => ?_) (fun v hv => ?_) hrow).mono ?_
  · rcases List.mem_cons.1 (hmem v hv) with hvn | hv
    · exact ho (.inl hvn)
    · exact Nat.not_lt.2 (hnew v.2 hv) hlt
  · rw [htemplate]
    exact ⟨_, hspells v.2 (hmem v hv), hlight⟩
  · rintro e' ⟨left, hleft⟩
    obtain ⟨q, hdeferred, hwalked⟩ := hleft.walked
    refine ⟨hleft.runs, left, q, ⟨hleft.runs.wellFormed, hleft.frame, ?_⟩, hdeferred, hwalked⟩
    simpa using hleft.children

/-- One visit per source, in front of what the sources before have left. -/
theorem walkSources_ends (hvisit : VisitEnds env visit bound) {s : ElementState} {d : Document}
    (hd : Stands d p before n after) (hlight : t.weight < bound) {keys : List XPath.DocKey}
    (hlast : ∀ key ∈ keys.dropLast, some key ≠ s.sources.primary) {done : List NodeId}
    {start q : Deferred} (hrun : e.RunsIn env)
    (hexpanding : Expanding d p before n after t (keys ≠ []) done e.template)
    (hdeferred : e.deferred = start ++ q) (hwalked : Walked e.template done q) :
    Ends (fun e' => e'.RunsIn env ∧ ∃ left q', Spliced d p before n after left e'.template ∧
        e'.deferred = start ++ q' ∧ Walked e'.template left q')
      (walkSources visit s n p before.length keys e) := by
  induction keys generalizing done q e with
  | nil =>
    exact .ok ⟨hrun, done, q, ⟨hrun.wellFormed, hexpanding.frame, hexpanding.children⟩, hdeferred,
      hwalked⟩
  | cons key keys ih =>
    obtain ⟨elem, d', hpair, hplaced⟩ := hexpanding.exists_placed (List.cons_ne_nil _ _) hd
      (some key = s.sources.primary)
    obtain ⟨hrun', htemplate⟩ := hrun.setTemplate hplaced.stands.wellFormed
    simp only [walkSources, hpair]
    have hweight : t.forest.weight < bound := hlight
    refine (hvisit (s.single_rebindSource key _) hrun' (by rw [htemplate]; exact hplaced.stands)
      (by rw [htemplate]; exact hplaced.spells) hweight).bind fun e₁ h₁ => ?_
    obtain ⟨hrun₁, left, q', hspliced, hdeferred', hleft⟩ := h₁
    rw [htemplate] at hspliced
    have hlt : ∀ c ∈ done, c < e.template.size := by
      intro c hc
      apply hrun.wellFormed.linked.child_lt_size (p := p)
      rw [hexpanding.children]
      exact List.mem_append_left _ (List.mem_append_right _ hc)
    have hdone : Walked (d'.insertChild p before.length elem) done q :=
      hwalked.frame hplaced.change hrun.wellFormed.linked hplaced.stands.wellFormed.linked hlt
        hplaced.apart
    have hboth : Walked e₁.template (left ++ done) (q ++ q') :=
      hdone.beside hplaced.stands
        (fun c hc => List.mem_append_right _ (List.mem_append_left _ hc)) hspliced hleft
        fun c => List.mem_append.trans Or.comm
    refine ih (fun k hk => hlast k ?_) hrun₁ (hplaced.spliced hd (fun hne => hlast key ?_) hspliced)
      ?_ hboth
    · rw [List.dropLast_cons_of_ne_nil (List.ne_nil_of_mem (List.mem_of_mem_dropLast hk))]
      exact List.mem_cons_of_mem _ hk
    · rw [List.dropLast_cons_of_ne_nil hne]
      exact List.mem_cons_self
    · rw [hdeferred', ← Deferred.append_assoc, ← hdeferred]
      rfl

theorem expandSources_ends (hvisit : VisitEnds env visit bound) {s : ElementState}
    (hdistinct : s.sources.members.Nodup) (hrun : e.RunsIn env)
    (hd : Stands e.template p before n after) (hn : Spells e.template [n] t.forest)
    (hlight : (t.mapElement (·.removeDirective .sources)).weight < bound) :
    Ends (Settles env e p before n after) (expandSources visit s n e) := by
  have hstart := expanding_start hd hn (s.sources.members.reverse ≠ [])
  obtain ⟨hrun', htemplate⟩ := hrun.setTemplate hstart.wellFormed
  rw [expandSources_eq hd]
  exact walkSources_ends hvisit hd hlight (SourceGroup.primary_last hdistinct) hrun'
    (by rwa [htemplate]) (Deferred.append_empty e.deferred).symm (Walked.nil _)

end Copies

/-! ## One element -/

/-- The element stays where it is, and it and all below it have been walked. -/
def Remains (env : Environment) (e : Engine) (n : NodeId) (e' : Engine) : Prop :=
  e'.RunsIn env ∧ Inside e.template n e'.template ∧
    ∃ q, e'.deferred = e.deferred ++ q ∧ Walked e'.template [n] q

section Element

variable {e : Engine} {n : NodeId} {t : Tree} {s : ElementState}

/-- Without its directives an element closes the part of its children. -/
theorem walked_stripDirectives {d : Document} (hd : d.WellFormed) {q : Deferred}
    (h : Walked d (d.children n) q) :
    Walked (d.stripDirectives n) [n] q ∧ ∀ item ∈ q.requireds, item.node ≠ n := by
  have hstrip : (d.stripDirectives n).WellFormed := hd.updateElement n _
  have hchildren : (d.stripDirectives n).children n = d.children n := children_updateElement d n n _
  refine Walked.close hstrip.linked ?_ fun a ha => ?_
  · rw [hchildren]
    refine h.frame (frame_updateElement d n n _) hd.linked hstrip.linked
      (fun c hc => hd.linked.child_lt_size hc) fun c hc m hm => ?_
    have hparent : d.parent? c = some n := (hd.parent_iff_child n c).2 hc
    have hne : m ≠ n := fun hmn => hd.linked.not_within_self_parent hparent (hmn ▸ hm)
    exact ⟨hne, hne⟩
  · unfold Document.attributes Document.stripDirectives at ha
    rw [element?_updateElement, if_pos rfl] at ha
    cases hx : d.element? n with
    | none => simp [hx] at ha
    | some x =>
      simp only [hx, Option.map_some, List.mem_filter, Bool.not_eq_true'] at ha
      exact ha.2

theorem walked_stripDirectives_leaf {d : Document} (hd : d.WellFormed)
    (hleaf : d.hasElementChildren n = false) : Walked (d.stripDirectives n) [n] {} := by
  have hcomments : ∀ c ∈ d.children n, d.isElement c = false := by
    intro c hc
    simpa using List.any_eq_false.1 hleaf c hc
  exact (walked_stripDirectives hd (Walked.of_comments hd.linked hcomments)).1

/-- What the content of an element is after the walk, as it is
once the directives of the element are gone as well. -/
def Filled (env : Environment) (e : Engine) (n : NodeId) (e' : Engine) : Prop :=
  e'.RunsIn env ∧ Inside e.template n e'.template ∧ ∃ q, e'.deferred = e.deferred ++ q ∧
    Walked (e'.template.stripDirectives n) [n] q ∧ ∀ item ∈ q.requireds, item.node ≠ n

theorem walkKids_ends (hvisit : VisitEnds env visit bound) (hs : s.Single)
    (hrun : e.RunsIn env) (hatt : Within e.template e.template.root n)
    (hn : Spells e.template [n] t.forest) (hlight : t.kids.weight < bound) :
    Ends (Filled env e n) ((e.template.children n).foldlM (fun e c => visit s c e) e) := by
  have hlinked := hrun.wellFormed.linked
  have hids : ((e.template.children n).map fun c => (s, c)).map (·.2) = e.template.children n := by
    simp
  have hrow : Row env e.template (¬ Below e.template n ·) n [] [] e.deferred []
      (((e.template.children n).map fun c => (s, c)).map (·.2)) e := by
    refine ⟨hrun, Frame.refl _ n _, hatt, by simp, {}, ?_, Walked.nil _⟩
    exact (Deferred.append_empty _).symm
  have hchild : ∀ v ∈ (e.template.children n).map fun c => (s, c),
      v.1 = s ∧ v.2 ∈ e.template.children n := by
    intro v hv
    obtain ⟨c, hc, rfl⟩ := List.mem_map.1 hv
    exact ⟨rfl, hc⟩
  have hwalk := walkRow_ends hvisit hlinked
    (fun a m hw ho hb => ho (by
      rcases hw with rfl | hw
      · exact hb
      · exact hb.trans hw))
    (fun v hv => (hchild v hv).1 ▸ hs)
    (fun v hv _ ho => ho (.child ((hrun.wellFormed.parent_iff_child n v.2).2 (hchild v hv).2)))
    (fun v hv => by
      obtain ⟨g, hg, hle⟩ := hn.kids.exists_of_mem (hchild v hv).2
      exact ⟨g, hg, Nat.lt_of_le_of_lt hle hlight⟩) hrow
  rw [walkRow, List.foldlM_map] at hwalk
  refine hwalk.mono fun e' h => ?_
  obtain ⟨left, hleft⟩ := h
  obtain ⟨q, hdeferred, hwalked⟩ := hleft.walked
  have hchildren : e'.template.children n = left := by simpa using hleft.children
  exact ⟨hleft.runs, Inside.of_below hleft.runs.wellFormed hleft.frame, q, hdeferred,
    walked_stripDirectives hleft.runs.wellFormed (hchildren ▸ hwalked)⟩

/-- An element with no elements in it is left as it is, filled, or noted for later. -/
theorem walkLeaf_ends (hrun : e.RunsIn env) (hleaf : e.template.hasElementChildren n = false) :
    Ends (Filled env e n) (walkContent visit s n e) := by
  have hplain := walked_stripDirectives_leaf hrun.wellFormed hleaf
  have hnone : ∀ item ∈ ([] : List DeferredItem), item.node ≠ n := by simp
  have hstay : Filled env e n e :=
    ⟨hrun, Inside.refl hrun.wellFormed n, {}, (Deferred.append_empty _).symm, hplain, hnone⟩
  unfold walkContent
  rw [hleaf, if_neg Bool.false_ne_true]
  by_cases hfill : s.declares .fill = true
  · simp only [hfill, Bool.not_true, Bool.false_eq_true, if_false]
    by_cases hdefer : s.defer = true
    · rw [if_pos hdefer]
      have hleaf' : (e.template.stripDirectives n).hasElementChildren n = false := by
        rw [stripDirectives, hasElementChildren_updateElement]
        exact hleaf
      exact .ok ⟨⟨hrun.docs_pos, hrun.env_eq, hrun.wellFormed⟩, Inside.refl hrun.wellFormed n, _,
        Deferred.addFill_eq _ _, hplain.fill hleaf' hfill, hnone⟩
    · rw [if_neg hdefer]
      refine (ends_mapError (s.evalFill e.env)).bind fun v _ => ?_
      cases v with
      | none => exact .ok hstay
      | some v =>
        refine (ends_mapError (e.template.applyFill n v)).bind fun d hd => ?_
        obtain ⟨text, rfl⟩ := applyFill_spec hd
        have hinside : Inside e.template n (e.template.setText n (some text)) :=
          Inside.updateElement hrun.wellFormed n _
        obtain ⟨hrun', htemplate⟩ := hrun.setTemplate hinside.wellFormed
        have hleaf' : (e.template.setText n (some text)).hasElementChildren n = false := by
          rw [setText, hasElementChildren_updateElement]
          exact hleaf
        have hplain' := walked_stripDirectives_leaf hinside.wellFormed hleaf'
        rw [← htemplate] at hinside hplain'
        exact .ok ⟨hrun', hinside, {}, (Deferred.append_empty _).symm, hplain', hnone⟩
  · simp only [hfill, Bool.not_false, if_true]
    exact .ok hstay

theorem walkContent_ends (hvisit : VisitEnds env visit bound) (hs : s.Single)
    (hrun : e.RunsIn env) (hatt : Within e.template e.template.root n)
    (hn : Spells e.template [n] t.forest) (hlight : t.kids.weight < bound) :
    Ends (Filled env e n) (walkContent visit s n e) := by
  cases hinner : e.template.hasElementChildren n with
  | true =>
    unfold walkContent
    rw [hinner, if_pos rfl]
    exact walkKids_ends hvisit hs hrun hatt hn hlight
  | false => exact walkLeaf_ends hrun hinner

theorem finishElement_ends (hvisit : VisitEnds env visit bound) (hs : s.Single)
    (hrun : e.RunsIn env) (hatt : Within e.template e.template.root n)
    (hn : Spells e.template [n] t.forest) (hlight : t.kids.weight < bound) :
    Ends (fun e' => e'.RunsIn env ∧ Inside e.template n e'.template ∧
        ∃ q, e'.deferred = e.deferred ++ q ∧ Walked e'.template [n] q ∧
          ∀ item ∈ q.requireds, item.node ≠ n)
      (finishElement visit s n e) := by
  refine (walkContent_ends hvisit hs hrun hatt hn hlight).bind fun e₁ h₁ => ?_
  obtain ⟨hrun₁, hinside, q, hdeferred, hwalked, hbelow⟩ := h₁
  have hstrip : Inside e.template n (e₁.template.stripDirectives n) :=
    hinside.trans hrun.wellFormed (Inside.updateElement hrun₁.wellFormed n _)
  obtain ⟨hrun', htemplate⟩ := hrun₁.setTemplate hstrip.wellFormed
  rw [← htemplate] at hstrip hwalked
  exact .ok ⟨hrun', hstrip, q, hdeferred, hwalked, hbelow⟩

/-- What a fetch comes to: either the element stays, up to its content, or it
has been dealt with. -/
def FetchEnds (env : Environment) (e : Engine) (n : NodeId) (t : Tree) (P : Engine → Prop) :
    Bool × Engine → Prop
  | (true, e') => e'.RunsIn env ∧ Inside e.template n e'.template ∧ e'.deferred = e.deferred ∧
    ∃ t' : Tree, Spells e'.template [n] t'.forest ∧ t'.kids = t.kids
  | (false, e') => P e'

theorem fetch_ends {P : Engine → Prop} {parent : ElementState} (hrun : e.RunsIn env)
    (hn : Spells e.template [n] t.forest)
    (hgone : e.template.elementPath n ≠ [] → P (e.mapTemplate (·.detach n)))
    (hcopies : s.multi ≠ .flag false → ∀ copies, Ends P (replicate visit parent n copies e)) :
    Ends (FetchEnds env e n t P) (fetch visit parent s n e) := by
  unfold fetch
  cases s.sources.primary with
  | none => exact .failed _
  | some key =>
    cases hsource : e.env.docs[key]? with
    | none =>
      simp only [hsource]
      exact .failed _
    | some source =>
      simp only [hsource]
      cases hfound : source.findAll (e.template.elementPath n) with
      | nil =>
        by_cases hrequired : s.required = some true
        · simp only [hrequired, if_true]
          exact .failed _
        · simp only [hrequired, if_false]
          refine .ok (hgone fun hpath => ?_)
          rw [hpath] at hfound
          cases hfound
      | cons m found =>
        cases found with
        | nil =>
          cases e.template.hasElementChildren n with
          | true => exact .ok ⟨hrun, Inside.refl hrun.wellFormed n, rfl, t, hn, rfl⟩
          | false =>
            have hinside : Inside e.template n (copyContent e.template n source m) := by
              rw [copyContent_eq]
              exact Inside.updateElement hrun.wellFormed n _
            obtain ⟨hrun', htemplate⟩ := hrun.setTemplate hinside.wellFormed
            have hn' := spells_updateElement hrun.wellFormed.linked hn
              (·.takeContent (source.attributes m) (source.text? m))
            rw [← copyContent_eq, ← htemplate] at hn'
            rw [← htemplate] at hinside
            exact .ok ⟨hrun', hinside, rfl, _, hn', rfl⟩
        | cons m' found =>
          have hreplicate : s.multi ≠ .flag false → Ends (FetchEnds env e n t P) (do
              return (false, ← replicate visit parent n ((m :: m' :: found).length - 1) e)) :=
            fun hmulti => (hcopies hmulti _).bind fun e' he' => .ok he'
          cases hmulti : s.multi with
          | flag b =>
            cases b with
            | true => exact hreplicate (by rw [hmulti]; exact nofun)
            | false => exact .failed _
          | count k =>
            by_cases hcount : k = (m :: m' :: found).length
            · simp only [Multi.expected?, hcount, ne_eq, not_true, if_false]
              exact hreplicate (by rw [hmulti]; exact nofun)
            · simp only [Multi.expected?, ne_eq, hcount, not_false_eq_true, if_true]
              exact .failed _

/-- An element comes to an end if its copies do, as far as it asks for them. -/
theorem walkElement_ends (hvisit : VisitEnds env visit bound) {P : Engine → Prop}
    {parent : ElementState} (hs : s.Single) (hrun : e.RunsIn env)
    (hatt : Within e.template e.template.root n) (hn : Spells e.template [n] t.forest)
    (hlight : t.kids.weight < bound) (hstays : ∀ e', Remains env e n e' → P e')
    (hgone : e.template.elementPath n ≠ [] → P (e.mapTemplate (·.detach n)))
    (hcopies : s.multi ≠ .flag false → ∀ copies, Ends P (replicate visit parent n copies e)) :
    Ends P (walkElement visit parent s n e) := by
  unfold walkElement
  cases s.fetch with
  | true =>
    simp only [if_true]
    refine (fetch_ends hrun hn hgone hcopies).bind fun r hr => ?_
    obtain ⟨stays, e₁⟩ := r
    cases stays with
    | false => exact .ok hr
    | true =>
      obtain ⟨hrun₁, hinside, hdeferred₁, t', hn', hkids⟩ := hr
      refine (finishElement_ends hvisit hs hrun₁ (hinside.attached hrun.wellFormed hatt) hn'
        (hkids ▸ hlight)).mono fun e' h => ?_
      obtain ⟨hrun', hinside', q, hdeferred, hwalked, -⟩ := h
      exact hstays e' ⟨hrun', hinside.trans hrun.wellFormed hinside', q,
        hdeferred₁ ▸ hdeferred, hwalked⟩
  | false =>
    simp only [Bool.false_eq_true, if_false]
    have hplain : Ends P (if s.declares .required then
        finishElement visit s n { e with deferred := e.deferred.addRequired ⟨s, n⟩ }
      else finishElement visit s n e) := by
      split
      · have hrun' : RunsIn env { e with deferred := e.deferred.addRequired ⟨s, n⟩ } :=
          ⟨hrun.docs_pos, hrun.env_eq, hrun.wellFormed⟩
        refine (finishElement_ends hvisit hs hrun' hatt hn hlight).mono fun e' h => ?_
        obtain ⟨hrun', hinside, q, hdeferred, hwalked, hbelow⟩ := h
        refine hstays e' ⟨hrun', hinside, _, ?_,
          hwalked.require hrun'.wellFormed.linked hbelow s⟩
        rw [hdeferred, Deferred.addRequired_eq, Deferred.append_assoc]
      · refine (finishElement_ends hvisit hs hrun hatt hn hlight).mono fun e' h => ?_
        obtain ⟨hrun', hinside, q, hdeferred, hwalked, -⟩ := h
        exact hstays e' ⟨hrun', hinside, q, hdeferred, hwalked⟩
    cases hmulti : s.multi with
    | flag b => exact hplain
    | count k =>
      by_cases hk : k - 1 > 0
      · simp only [hk, if_true]
        exact hcopies (by rw [hmulti]; exact nofun) (k - 1)
      · simp only [hk, if_false]
        exact hplain

end Element

/-! ## The walk -/

section Process

variable {e : Engine} {n : NodeId} {t : Tree} {s parent : ElementState}

/-- Several sources are met only on an element that binds them. -/
theorem secondary_of_resolve (hdistinct : env.sources.Distinct) (hrun : e.RunsIn env)
    (hparent : parent.Single) (hn : Spells e.template [n] t.forest)
    (h : ElementState.resolve e.env parent n = .ok s) :
    s.Single ∨ t.element.declares .sources = true ∧ s.sources.members.Nodup := by
  rcases ElementState.sources_of_resolve h with hsame | ⟨a, ha, hname, hgroup⟩
  · left
    rw [ElementState.Single, hsame]
    exact hparent
  · right
    have ha' : a ∈ t.element.attributes := hn.attributes_eq ▸ ha
    rw [hrun.env_eq] at hgroup
    exact ⟨List.any_eq_true.2 ⟨a, ha', hname⟩, hdistinct _ _ hgroup⟩

theorem lighter_of_multi (hn : Spells e.template [n] t.forest)
    (h : ElementState.resolve e.env parent n = .ok s) (hmulti : s.multi ≠ .flag false) :
    (t.mapElement (·.removeDirective .multi)).weight + 1 = t.weight := by
  obtain ⟨a, ha, hname⟩ := ElementState.declares_multi_of_resolve h hmulti
  have ha' : a ∈ t.element.attributes := hn.attributes_eq ▸ ha
  exact Tree.weight_removeDirective_lt (List.any_eq_true.2 ⟨a, ha', hname⟩)

theorem kids_lighter (t : Tree) : t.kids.weight < t.weight := by
  rw [Tree.weight]
  omega

theorem isElement_of_not_comment {d : Document} {f : Forest} (hf : Spells d [n] f)
    (h : ¬ d.isComment n = true) : d.isElement n = true := by
  cases hf with
  | node hx _ _ =>
    rw [isComment, kind?_of_node? hx] at h
    rw [isElement_eq, kind?_of_node? hx]
    simpa [NodeKind.isComment] using h

/-- A visit with more fuel than the element weighs comes to an end. -/
theorem process_ends (hdistinct : env.sources.Distinct) (fuel : Nat) :
    VisitEnds env (process fuel) fuel := by
  induction fuel with
  | zero =>
    intro s e p n before after f _ _ _ _ hlight
    omega
  | succ fuel ih =>
    intro parent e p n before after f hparent hrun hd hf hlight
    unfold process
    by_cases hcomment : e.template.isComment n = true
    · rw [if_pos hcomment]
      have helem : ∀ c ∈ [n], e.template.isElement c = false := by
        intro c hc
        rw [List.mem_singleton.1 hc, isElement_eq]
        unfold isComment at hcomment
        cases hk : e.template.kind? n with
        | none => rfl
        | some k => simpa [hk, NodeKind.isComment] using hcomment
      refine .ok ⟨hrun, [n], {}, ?_, (Deferred.append_empty _).symm,
        Walked.of_comments hrun.wellFormed.linked helem⟩
      exact (Inside.refl hrun.wellFormed n).spliced hd
    · rw [if_neg hcomment]
      obtain ⟨t, rfl⟩ := hf.exists_tree (isElement_of_not_comment hf hcomment)
      have hweight : t.weight < fuel + 1 := hlight
      refine (ends_mapError _).bind fun s hs => ?_
      by_cases hsingle : s.Single
      · rw [if_pos (by rw [hsingle]; rfl)]
        refine walkElement_ends ih hsingle hrun (within_of_parent? hd.parent hd.attached) hf
          (Nat.lt_of_lt_of_le (kids_lighter t) (Nat.le_of_lt_succ hweight)) ?_ ?_ ?_
        · rintro e' ⟨hrun', hinside, q, hdeferred, hwalked⟩
          exact ⟨hrun', [n], q, hinside.spliced hd, hdeferred, hwalked⟩
        · intro _
          have hdetach := hrun.wellFormed.detach n
          obtain ⟨hrun', htemplate⟩ := hrun.setTemplate hdetach
          have hspliced : Spliced e.template p before n after [] (e.template.detach n) :=
            hd.spliced_detach
          rw [← htemplate] at hspliced
          exact ⟨hrun', [], {}, hspliced, (Deferred.append_empty _).symm, Walked.nil _⟩
        · intro hmulti copies
          have hless := lighter_of_multi hf hs hmulti
          exact replicate_ends ih hparent hrun hd hf (by omega) copies
      · rcases secondary_of_resolve hdistinct hrun hparent hf hs with h | ⟨hdeclared, hnodup⟩
        · exact absurd h hsingle
        · have hless := Tree.weight_removeDirective_lt hdeclared
          rw [if_neg fun hempty => hsingle (List.isEmpty_iff.1 hempty)]
          exact expandSources_ends ih hnodup hrun hd hf (by omega)

/-- So does the walk from the root, where nothing can be copied. -/
theorem process_root_ends (hdistinct : env.sources.Distinct) (hrun : e.RunsIn env) {f : Forest}
    (hf : Spells e.template [e.template.root] f) {fuel : Nat} (hfuel : f.weight < fuel) :
    Ends (Remains env e e.template.root) (process fuel .root e.template.root e) := by
  have hroot : ∀ directive,
      (e.template.removeDirective e.template.root directive).parent? e.template.root = none :=
    fun directive => (parent?_updateElement _ _ _ _).trans hrun.wellFormed.root_parent
  obtain ⟨fuel, rfl⟩ : ∃ k, fuel = k + 1 := ⟨fuel - 1, by omega⟩
  have hcomment : ¬ e.template.isComment e.template.root = true := by
    rw [isComment_of_isElement hrun.wellFormed.root_isElement]
    exact Bool.false_ne_true
  obtain ⟨t, rfl⟩ := hf.exists_tree hrun.wellFormed.root_isElement
  have hweight : t.weight < fuel + 1 := hfuel
  unfold process
  rw [if_neg hcomment]
  refine (ends_mapError _).bind fun s hs => ?_
  by_cases hsingle : s.Single
  · rw [if_pos (by rw [hsingle]; rfl)]
    refine walkElement_ends (process_ends hdistinct fuel) hsingle hrun (within_self _ _) hf
      (Nat.lt_of_lt_of_le (kids_lighter t) (Nat.le_of_lt_succ hweight)) (fun _ h => h)
      (fun hpath => absurd (elementPath_root _) hpath) fun _ copies => ?_
    simp only [replicate, hroot]
    exact .failed _
  · rw [if_neg fun hempty => hsingle (List.isEmpty_iff.1 hempty)]
    simp only [expandSources, hroot]
    exact .failed _

end Process

end Engine

end LabelTemplate
