import LabelTemplate.Proofs.Walk.Inheritance
import LabelTemplate.Proofs.Walk.OpenCounts

/-!
# Static replication

An element with a count that is not fetched is repeated that often.  It and its
copies stand in its place before the first of them is walked, each with the
content the element had, and each is walked as a branch of its own
(`walk_replicated`).

The copies ask for no more copies, they are bound to what the element is bound
to, and nothing of them is fetched.  So a branch stays where it is
(`branch_stays`), whatever becomes of what is below it, and the branches that
come later do not touch it.
-/

namespace LabelTemplate

open Xml Document Outcome

theorem Xml.Element.declares_removeDirective_of_once {x : Element} {d : Directive}
    (honce : x.attributes.countP d.names = 1) : (x.removeDirective d).declares d = false := by
  rw [declares, attributes_removeDirective]
  generalize x.attributes = as at honce
  induction as with
  | nil => cases honce
  | cons a as ih =>
    rw [List.countP_cons] at honce
    by_cases ha : d.names a = true
    · rw [List.eraseP_cons_of_pos ha]
      rw [if_pos ha] at honce
      have hnone : as.countP d.names = 0 := by omega
      simpa using List.countP_eq_zero.1 hnone
    · rw [List.eraseP_cons_of_neg ha, List.any_cons, ih (by rw [if_neg ha] at honce; exact honce)]
      simpa using ha

namespace ElementState

variable {env env' : Environment} {parent s s' : ElementState} {n c : NodeId} {x : Element}

theorem declares_of_resolve (hn : env.template.attributes n = x.attributes)
    (h : resolve env parent n = .ok s) (d : Directive) : s.declares d = x.declares d := by
  obtain ⟨-, hdeclared⟩ := declared_of_resolve h
  rw [declares, Declarations.declares_of_foldlM (mapError_eq_ok.1 hdeclared) d, hn]
  rfl

/-- A branch of an element that is not fetched and declares `multi` once. -/
theorem branch_of_resolve {u : Tree} {b : Option Nat} (hgroups : env'.sources = env.sources)
    (hn : env.template.attributes n = u.element.attributes)
    (hc : env'.template.attributes c = (u.element.removeDirective .multi).attributes)
    (honce : u.element.attributes.countP Directive.multi.names = 1)
    (h : resolve env parent n = .ok s) (hfetch : s.fetch = false)
    (hown : s.declares .fetch = false)
    (h' : resolve env' { parent with multiBranch := b } c = .ok s') :
    s'.sources = s.sources ∧ s'.fetch = false ∧ s'.multi = .flag false := by
  have hdeclares : ∀ d, s'.declares d = (u.element.removeDirective .multi).declares d :=
    declares_of_resolve hc h'
  have hown' : s'.declares .fetch = false := by
    rw [hdeclares, Element.declares_removeDirective (by decide), ← declares_of_resolve hn h, hown]
  have hmulti' : s'.declares .multi = false := by
    rw [hdeclares, Element.declares_removeDirective_of_once honce]
  have hparent : s.fetch = parent.fetch := agreesOn_of_resolve h hown
  have hbranch : s'.fetch = parent.fetch := agreesOn_of_resolve h' hown'
  exact ⟨sources_branch hgroups hn hc h h', hbranch.trans (hparent.symm.trans hfetch),
    agreesOn_of_resolve h' hmulti'⟩

end ElementState

namespace Engine

variable {env : Environment} {P : Tree → Prop}

/-! ## One branch -/

/-- An element that is not fetched, repeated nor spread stays where it is. -/
theorem Turn.Sound.inside_of_unfetched {t : Turn} {s : ElementState} {e' : Engine} {b : Bool}
    (hdistinct : env.sources.Distinct) (h : t.Sound env P)
    (helement : t.engine.template.isComment t.node = false) (hs : t.state = .ok s)
    (hsingle : s.sources.secondary = []) (hfetch : s.fetch = false) (hmulti : s.multi = .flag b)
    (hok : t.result = .ok e') : Inside t.engine.template t.node e'.template := by
  have hprospect := prospect_unfetched (n := t.node) (e := t.engine) hsingle hfetch
  rw [hmulti] at hprospect
  dsimp only at hprospect
  split at hprospect <;> exact (h.stays hdistinct ⟨helement, hs, hprospect⟩ hok).1

/-! ## All branches -/

/-- The nodes share nothing below them. -/
def Apart (d : Document) (ns : List NodeId) : Prop :=
  ns.Pairwise fun a b => ∀ m, Within d a m → ¬ Within d b m

theorem apart_of_children {d : Document} (hd : d.WellFormed) {p : NodeId}
    {before ns after : List NodeId} (h : d.children p = before ++ ns ++ after) : Apart d ns := by
  have hsub : ns.Sublist (d.children p) := by
    rw [h]
    exact (List.sublist_append_right before ns).trans (List.sublist_append_left _ after)
  refine List.pairwise_iff_forall_sublist.2 fun hab m ha hb => ?_
  exact hd.linked.not_within_of_sublist_children (hab.trans hsub) ha hb

/-- What the walk of an element with a count leaves: `ns` stand where the
element `u` stood, which are it and its copies, and the `i`-th of them was walked
as branch `i`, among all of them. -/
structure Turn.Replicated (t : Turn) (p : NodeId) (before after ns : List NodeId) (u : Tree)
    (e' : Engine) : Prop where
  children : e'.template.children p = before ++ ns ++ after
  apart : Apart e'.template ns
  siblings : ∀ m ∈ before ++ after, ∀ f, Spells t.engine.template [m] f → Spells e'.template [m] f
  branch : ∀ i c, ns[i]? = some c → ∃ (b : Turn) (e₁ : Engine), t.Makes b ∧ b.node = c ∧
    b.parent = { t.parent with multiBranch := some i } ∧
    b.engine.template.children p = before ++ ns ++ after ∧ Apart b.engine.template ns ∧
    Spells b.engine.template [c] (u.mapElement (·.removeDirective .multi)).forest ∧
    b.result = .ok e₁ ∧ ∀ f, Spells e₁.template [c] f → Spells e'.template [c] f

/-- An element like `v` stays where it stands, whichever branch it is walked as. -/
structure StaysAsBranch (env : Environment) (fuel : Nat) (parent : ElementState) (v : Tree) :
    Prop where
  inside {j : Nat} {p c : NodeId} {before after : List NodeId} {e e' : Engine}
    (hrun : e.RunsIn env) (hd : Stands e.template p before c after)
    (hc : Spells e.template [c] v.forest)
    (hok : process fuel { parent with multiBranch := some j } c e = .ok e') :
    Inside e.template c e'.template

section Row

variable {d : Document} {n p : NodeId} {before after done front back todo : List NodeId}
  {start : Deferred} {parent : ElementState} {v : Tree} {fuel i : Nat} {e e' : Engine}
  (hdistinct : env.sources.Distinct) (hd : d.Linked) (hparent : parent.Single)
  (hlight : v.weight < fuel) (hstays : StaysAsBranch env fuel parent v)

include hdistinct hd hparent hlight hstays

/-- Branches that stay, walked in order. -/
theorem Row.branches_stay (hnew : ∀ m ∈ front, m < d.size → Within d n m)
    (hspells : ∀ m ∈ front, Spells e.template [m] v.forest)
    (h : Row env d (¬ Within d n ·) p before after start done (front ++ todo) e)
    (hok : walkRow (process fuel) (branches parent i front) e = .ok e') :
    Row env d (¬ Within d n ·) p before after start (done ++ front) todo e' ∧
      ∀ c ∈ done ++ todo, ∀ f, Spells e.template [c] f → Spells e'.template [c] f := by
  induction front generalizing done i e with
  | nil =>
    cases hok
    exact ⟨by rwa [List.append_nil], fun _ _ _ hf => hf⟩
  | cons c front ih =>
    rw [branches, walkRow, List.foldlM_cons] at hok
    obtain ⟨e₁, hone, hok⟩ := bind_eq_ok.1 hok
    have hc := hspells c List.mem_cons_self
    have hstands : Stands e.template p (before ++ done) c (front ++ todo ++ after) := h.stands
    have hsettles : Settles env e p (before ++ done) c (front ++ todo ++ after) e₁ := by
      have hends := process_ends hdistinct fuel (s := { parent with multiBranch := some i })
        hparent h.runs hstands hc hlight
      rw [hone] at hends
      exact hends.of_ok
    obtain ⟨left, hrow, hkept⟩ := Row.settles h hd (fun _ _ hw ho hn => ho (hn.trans hw))
      (fun hlt ho => ho (hnew c List.mem_cons_self hlt)) hsettles
    -- the branch itself is what is left of it
    obtain rfl : left = [c] := by
      have hinside := (hstays.inside h.runs hstands hc hone).spliced hstands
      have hchildren := hrow.children.symm.trans hinside.children
      have hleft : left ++ (front ++ (todo ++ after)) = [c] ++ (front ++ (todo ++ after)) := by
        simpa using hchildren
      exact List.append_cancel_right hleft
    obtain ⟨hrest, hkept'⟩ := ih (fun m hm => hnew m (List.mem_cons_of_mem _ hm))
      (fun m hm => hkept (List.mem_append_right _ (List.mem_append_left _ hm))
        (hspells m (List.mem_cons_of_mem _ hm))) hrow hok
    rw [List.append_assoc, List.singleton_append] at hrest
    refine ⟨hrest, fun m hm f hf => hkept' m ?_ f (hkept ?_ hf)⟩
    · rcases List.mem_append.1 hm with hm | hm
      · exact List.mem_append_left _ (List.mem_append_left _ hm)
      · exact List.mem_append_right _ hm
    · rcases List.mem_append.1 hm with hm | hm
      · exact List.mem_append_left _ hm
      · exact List.mem_append_right _ (List.mem_append_right _ hm)

/-- One of the branches: it is walked among all of them, as it was put there, and
what it becomes it is in the end. -/
theorem Row.branch_stays (hnew : ∀ m ∈ front ++ c :: back, m < d.size → Within d n m)
    (hspells : ∀ m ∈ front ++ c :: back, Spells e.template [m] v.forest)
    (h : Row env d (¬ Within d n ·) p before after start [] (front ++ c :: back) e)
    (hok : walkRow (process fuel) (branches parent 0 (front ++ c :: back)) e = .ok e') :
    ∃ e₁ e₂, walkRow (process fuel) (branches parent 0 front) e = .ok e₁ ∧
      process fuel { parent with multiBranch := some front.length } c e₁ = .ok e₂ ∧
      Row env d (¬ Within d n ·) p before after start front (c :: back) e₁ ∧
      Spells e₁.template [c] v.forest ∧
      ∀ f, Spells e₂.template [c] f → Spells e'.template [c] f := by
  have hfront : ∀ m ∈ front, m ∈ front ++ c :: back := fun m => List.mem_append_left _
  have hback : ∀ m ∈ c :: back, m ∈ front ++ c :: back := fun m => List.mem_append_right _
  rw [Turn.branches_append, walkRow_append] at hok
  obtain ⟨e₁, he₁, hok⟩ := bind_eq_ok.1 hok
  obtain ⟨hrow, hkept⟩ := Row.branches_stay hdistinct hd hparent hlight hstays
    (fun m hm => hnew m (hfront m hm)) (fun m hm => hspells m (hfront m hm)) h he₁
  have hspells₁ : ∀ m ∈ c :: back, Spells e₁.template [m] v.forest := fun m hm =>
    hkept m hm _ (hspells m (hback m hm))
  rw [Nat.zero_add, ← List.singleton_append, Turn.branches_append, walkRow_append] at hok
  obtain ⟨e₂, he₂, hok⟩ := bind_eq_ok.1 hok
  have hself : ∀ m ∈ [c], m ∈ c :: back := fun m hm => by
    rw [List.mem_singleton.1 hm]
    exact List.mem_cons_self
  obtain ⟨hrow₂, hkept₂⟩ := Row.branches_stay hdistinct hd hparent hlight hstays
    (fun m hm => hnew m (hback m (hself m hm))) (fun m hm => hspells₁ m (hself m hm)) hrow he₂
  have hrest : Row env d (¬ Within d n ·) p before after start (front ++ [c]) (back ++ []) e₂ := by
    rwa [List.append_nil]
  obtain ⟨-, hkept₃⟩ := hrest.branches_stay hdistinct hd hparent hlight hstays
    (fun m hm => hnew m (hback m (List.mem_cons_of_mem _ hm)))
    (fun m hm => hkept₂ m (List.mem_append_right _ hm) _ (hspells₁ m (List.mem_cons_of_mem _ hm)))
    hok
  rw [branches, branches, walkRow, List.foldlM_cons] at he₂
  obtain ⟨e₃, hone, he₃⟩ := bind_eq_ok.1 he₂
  cases he₃
  exact ⟨e₁, e₂, he₁, hone, hrow, hspells₁ c List.mem_cons_self, hkept₃ c (by simp)⟩

end Row

section Replicated

variable {t : Turn} {s : ElementState} {u : Tree} {p : NodeId} {before after : List NodeId}
  {e' : Engine}

/-- The copies of an element with a count that is not fetched stay where they are
put. -/
theorem Turn.Sound.copies_stay (hdistinct : env.sources.Distinct) (h : t.Sound env P)
    (hs : t.state = .ok s) (hsingle : s.sources.secondary = []) (hfetch : s.fetch = false)
    (hown : s.declares .fetch = false)
    (honce : (t.engine.template.attributes t.node).countP Directive.multi.names = 1)
    (hu : Spells t.engine.template [t.node] u.forest)
    (hlight : (u.mapElement (·.removeDirective .multi)).weight < t.fuel) :
    StaysAsBranch env t.fuel t.parent (u.mapElement (·.removeDirective .multi)) := by
  refine ⟨fun {j p c before after e e'} hrun hd hc hok => ?_⟩
  obtain ⟨fuel, hfuel⟩ : ∃ fuel, t.fuel = fuel + 1 := ⟨t.fuel - 1, by omega⟩
  rw [hfuel] at hok hlight
  have hbranch : Turn.Sound env (fun _ => True)
      ⟨fuel, { t.parent with multiBranch := some j }, c, e⟩ :=
    { runs := hrun
      single := h.single
      stands := .inr ⟨p, before, after, hd⟩
      spells := ⟨_, hc, Nat.le_of_lt_succ hlight, Forest.every_of_forall (fun _ => trivial) _⟩ }
  have helement : e.template.isComment c = false := isComment_of_isElement (by
    rw [isElement, hc.element?_eq]
    rfl)
  obtain ⟨s', x, hfaces, -⟩ := Turn.exists_faces
    (t := ⟨fuel, { t.parent with multiBranch := some j }, c, e⟩) helement hok
  obtain ⟨hsources, hfetch', hmulti'⟩ := ElementState.branch_of_resolve
    (by rw [h.runs.env_eq, hrun.env_eq]; rfl) hu.attributes_eq hc.attributes_eq
    (hu.attributes_eq ▸ honce) hs hfetch hown hfaces.state
  exact hbranch.inside_of_unfetched hdistinct helement hfaces.state (by rw [hsources, hsingle])
    hfetch' hmulti' hok

/-- What a count leaves. -/
theorem Turn.Sound.replicated (hdistinct : env.sources.Distinct) (h : t.Sound env P)
    (hd : Stands t.engine.template p before t.node after)
    (helement : t.engine.template.isComment t.node = false) (hs : t.state = .ok s) {k : Nat}
    (hfetch : s.fetch = false) (hmulti : s.multi = .count k) (hk : 1 < k)
    (hown : s.declares .fetch = false)
    (honce : (t.engine.template.attributes t.node).countP Directive.multi.names = 1)
    (hok : t.result = .ok e') :
    ∃ (ns : List NodeId) (u : Tree), ns.length = k ∧ Spells t.engine.template [t.node] u.forest ∧
      t.Replicated p before after ns u e' := by
  obtain ⟨k, rfl⟩ : ∃ j, k = j + 2 := ⟨k - 2, by omega⟩
  have hsingle : s.sources.secondary = [] := by
    obtain ⟨-, -, -, -, hvalid⟩ := ElementState.resolve_eq_ok.1 hs
    exact hvalid.group hfetch _ hmulti
  have hfaces : t.Faces s (.ok (.repeats (k + 1))) :=
    ⟨helement, hs, by rw [prospect_unfetched hsingle hfetch, hmulti]⟩
  obtain ⟨ns, e₁, hns, hwalk⟩ := hfaces.exists_row hok
  obtain ⟨u, ids, rfl, hlen, hu, -, hlight, hrow, hnew, hspells⟩ := h.branch_start hd hfaces hns
  obtain ⟨fuel, hfuel⟩ : ∃ fuel, t.fuel = fuel + 1 := ⟨t.fuel - 1, by omega⟩
  have hstays := h.copies_stay hdistinct hs hsingle hfetch hown honce hu hlight
  have hlinked := hd.wellFormed.linked
  have hrow' : Row env t.engine.template (¬ Within t.engine.template t.node ·) p before after
      t.engine.deferred [] (t.node :: ids ++ []) e₁ := by rwa [List.append_nil]
  obtain ⟨hall, -⟩ := hrow'.branches_stay hdistinct hlinked h.single hlight hstays hnew hspells hwalk
  have hchildren : e'.template.children p = before ++ (t.node :: ids) ++ after := by
    simpa using hall.children
  refine ⟨t.node :: ids, u, by rw [List.length_cons, hlen], hu, hchildren,
    apart_of_children hall.runs.wellFormed hchildren, fun m hm f hf => ?_, fun i c hc => ?_⟩
  · refine hall.frame.spells hlinked hf fun a ha x hx => ?_
    rw [List.mem_singleton.1 ha] at hx
    exact hd.not_within_sibling hm hx
  · obtain ⟨front, back, hsplit, rfl⟩ : ∃ front back, t.node :: ids = front ++ c :: back ∧
        front.length = i := by
      obtain ⟨hi, rfl⟩ := List.getElem?_eq_some_iff.1 hc
      refine ⟨(t.node :: ids).take i, (t.node :: ids).drop (i + 1), ?_,
        List.length_take_of_le (Nat.le_of_lt hi)⟩
      rw [← List.drop_eq_getElem_cons hi, List.take_append_drop]
    rw [hsplit] at hwalk hrow hnew hspells hchildren ⊢
    obtain ⟨e₂, e₃, hfront, hone, hbefore, hc, hkept⟩ := Row.branch_stays hdistinct hlinked
      h.single hlight hstays hnew hspells hrow hwalk
    have hthere : e₂.template.children p = before ++ (front ++ c :: back) ++ after := by
      simpa using hbefore.children
    rw [hfuel] at hfront hone
    exact ⟨⟨fuel, { t.parent with multiBranch := some front.length }, c, e₂⟩, e₃,
      .branch hfuel hfaces hns hsplit hfront, rfl, rfl, hthere,
      apart_of_children hbefore.runs.wellFormed hthere, hc, hone, hkept⟩

/-- An element of the walk that declares `multi` once, with a count, and is not
fetched is replaced by that many branches: it and its copies, without the
directive, each walked in its place below the state of the parent with the number
of the branch. -/
theorem walk_replicated {e : Engine} (hdocs : 0 < e.env.docs.size)
    (htemplate : e.template.WellFormed) (hsources : e.env.sources.Distinct)
    (hreach : (Turn.first e).Reaches t) (hroot : t.node ≠ t.engine.template.root)
    (helement : t.engine.template.isElement t.node = true)
    (honce : (t.engine.template.attributes t.node).countP Directive.multi.names = 1)
    (hs : t.state = .ok s) (hown : s.declares .fetch = false) (hfetch : s.fetch = false) {k : Nat}
    (hmulti : s.multi = .count k) (hk : 1 < k) (hok : t.result = .ok e') :
    ∃ (p : NodeId) (before after ns : List NodeId) (u : Tree),
      t.engine.template.children p = before ++ t.node :: after ∧ ns.length = k ∧
        Spells t.engine.template [t.node] u.forest ∧ t.Replicated p before after ns u e' := by
  have hrun : e.RunsIn e.env := ⟨hdocs, (setTemplate_template hdocs).symm, htemplate⟩
  have hsound := Turn.sound_of_reaches hsources hrun hreach
  obtain ⟨p, before, after, hd⟩ := hsound.stands.resolve_left hroot
  obtain ⟨ns, u, hlen, hu, hreplicated⟩ := hsound.replicated hsources hd
    (isComment_of_isElement helement) hs hfetch hmulti hk hown honce hok
  exact ⟨p, before, after, ns, u, hd.children, hlen, hu, hreplicated⟩

/-- A template with an element that is repeated twice, between a comment and
another element, and inside it one that is repeated three times. -/
def threeInTwo : Engine where
  env :=
    { docs := #[.ofTree []
          { name := .plain "a", attributes := [declaration "sources" "s"] } none
          (.node (.comment "first") none .nil
            (.node (.element { name := .plain "b", attributes := [declaration "multi" "2"] }) none
              (.node (.element { name := .plain "c", attributes := [declaration "multi" "3"] })
                none .nil .nil)
              (.node (.element { name := .plain "d" }) none .nil .nil))),
        .ofTree [] { name := .plain "a" } none .nil]
      sources := [("s", .single 1)] }
where
  declaration (name value : String) : Attribute :=
    ⟨⟨some directivePrefix, some directiveNamespace, name⟩, value⟩

/-- The turn of the element that is repeated twice. -/
def threeInTwo.turn : Turn :=
  ⟨7, (Turn.first threeInTwo).state.toOption.getD .root, 2, threeInTwo⟩

theorem threeInTwo.reaches_turn : (Turn.first threeInTwo).Reaches threeInTwo.turn := by
  have hroot : (Turn.first threeInTwo).Faces threeInTwo.turn.parent (.ok (.stays threeInTwo)) :=
    ⟨by decide +kernel, eq_ok_getD (by decide +kernel) .root,
      prospect_plain (by decide +kernel) (by decide +kernel)
        (show threeInTwo.turn.parent.multi = .flag false by decide +kernel) (by decide +kernel)⟩
  have hkids : threeInTwo.template.children 0 = [1] ++ 2 :: [4] := by decide +kernel
  exact .single (.kid (by decide +kernel) hroot (by decide +kernel) hkids rfl)

theorem walk_replicated_threeInTwo :
    ∃ e', threeInTwo.turn.result = .ok e' ∧
      (e'.template.descendantElements 0).map (fun n => (e'.template.name? n).map (·.localName)) =
        [some "a", some "b", some "c", some "c", some "c", some "b", some "c", some "c", some "c",
          some "d"] ∧
      ∃ (p : NodeId) (before after ns : List NodeId) (u : Tree),
        threeInTwo.template.children p = before ++ 2 :: after ∧ ns.length = 2 ∧
          Spells threeInTwo.template [2] u.forest ∧
          threeInTwo.turn.Replicated p before after ns u e' := by
  have hrun : (threeInTwo.turn.result.toOption.any fun e' => decide
      ((e'.template.descendantElements 0).map (fun n => (e'.template.name? n).map (·.localName)) =
        [some "a", some "b", some "c", some "c", some "c", some "b", some "c", some "c", some "c",
          some "d"])) = true := by
    decide +kernel
  obtain ⟨e', he', hnames⟩ := (Option.any_eq_true _ _).1 hrun
  have hstate : (threeInTwo.turn.state.toOption.any fun s => decide
      (s.declares .fetch = false ∧ s.fetch = false ∧ s.multi = .count 2)) = true := by
    decide +kernel
  obtain ⟨s, hs, hall⟩ := (Option.any_eq_true _ _).1 hstate
  obtain ⟨hown, hfetch, hmulti⟩ := of_decide_eq_true hall
  have htemplate : threeInTwo.template.WellFormed :=
    wellFormed_ofTree (by simp [Forest.Proper, NodeKind.isElement, NodeKind.element?]) _
  have hdistinct : threeInTwo.env.sources.Distinct :=
    SourceMap.distinct_nil.bind (g := .single 1) (by decide) "s"
  have hok : threeInTwo.turn.result = .ok e' := toOption_eq_some.1 he'
  exact ⟨e', hok, of_decide_eq_true hnames, walk_replicated (by decide) htemplate hdistinct
    threeInTwo.reaches_turn (by decide +kernel) (by decide +kernel) (by decide +kernel)
    (toOption_eq_some.1 hs) hown hfetch hmulti (by decide) hok⟩

end Replicated

end Engine

end LabelTemplate
