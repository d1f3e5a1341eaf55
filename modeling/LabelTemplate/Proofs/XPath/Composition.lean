import LabelTemplate.Proofs.XPath.NodeSets

/-!
# Paths compose

Steps are taken from a set of nodes at once: what each node reaches is joined,
put in document order and rid of repetitions before the next step.  Here they
are taken from one node at a time.  `Passable` says that all the steps can be
evaluated at a node and at whatever they lead to, `Leads` that they lead from
one node to another.  `exists_takeSteps_iff` and `mem_takeSteps` are the
inductions over the steps: nothing that is done to a set between two steps
changes which nodes they lead to, or whether one of them fails.

So a path in two parts is the second part taken from each node that the first
part selects (`evaluate_append`).
-/

namespace LabelTemplate.XPath

open Xml Document

namespace Scope

/-- Each of the steps can be taken from the node and from what it leads to. -/
def Passable (s : Scope) : List Step → Handle → Prop
  | [], _ => True
  | step :: steps, h => ∃ reached, s.takeStep h step = .ok reached ∧
      ∀ m ∈ reached, s.Passable steps m

/-- The steps lead from `h` to `k`. -/
def Leads (s : Scope) : List Step → (h k : Handle) → Prop
  | [], h, k => k = h
  | step :: steps, h, k => ∃ reached, s.takeStep h step = .ok reached ∧
      ∃ m ∈ reached, s.Leads steps m k

variable {s : Scope}

/-! ## A set of nodes and each of them -/

theorem takeSteps_nil (hs : List Handle) : s.takeSteps hs [] = .ok hs := by
  rw [takeSteps]

theorem takeSteps_cons (hs : List Handle) (step : Step) (steps : List Step) :
    s.takeSteps hs (step :: steps) = hs.mapM (fun h => s.takeStep h step) >>= fun reached =>
      s.takeSteps (inDocumentOrder s.docs reached.flatten) steps := by
  rw [takeSteps]

theorem takeSteps_append (hs : List Handle) (first rest : List Step) :
    s.takeSteps hs (first ++ rest) = s.takeSteps hs first >>= fun ms => s.takeSteps ms rest := by
  induction first generalizing hs with
  | nil =>
    rw [takeSteps_nil]
    rfl
  | cons step first ih =>
    rw [List.cons_append, takeSteps_cons, takeSteps_cons, bind_assoc]
    exact bind_congr fun reached => ih _

/-- Between two steps stand the nodes that the first one reaches from one of
those before. -/
theorem mem_reached {hs : List Handle} {step : Step} {reached : List (List Handle)}
    (hok : hs.mapM (fun h => s.takeStep h step) = .ok reached) {m : Handle} :
    m ∈ inDocumentOrder s.docs reached.flatten ↔
      ∃ h ∈ hs, ∃ r, s.takeStep h step = .ok r ∧ m ∈ r := by
  rw [mem_inDocumentOrder, List.mem_flatten]
  constructor
  · rintro ⟨r, hr, hm⟩
    obtain ⟨h, hh, hstep⟩ := (Outcome.mem_of_mapM hok).1 hr
    exact ⟨h, hh, r, hstep, hm⟩
  · rintro ⟨h, hh, r, hstep, hm⟩
    exact ⟨r, (Outcome.mem_of_mapM hok).2 ⟨h, hh, hstep⟩, hm⟩

/-- A run of steps succeeds if each of the nodes can be passed, and only
then. -/
theorem exists_takeSteps_iff {hs : List Handle} {steps : List Step} :
    (∃ ks, s.takeSteps hs steps = .ok ks) ↔ ∀ h ∈ hs, s.Passable steps h := by
  induction steps generalizing hs with
  | nil => simp [takeSteps_nil, Passable]
  | cons step steps ih =>
    constructor
    · rintro ⟨ks, hok⟩ h hh
      rw [takeSteps_cons] at hok
      obtain ⟨reached, hreached, hok⟩ := Outcome.bind_eq_ok.1 hok
      obtain ⟨r, hstep⟩ := Outcome.exists_mapM_eq_ok_iff.1 ⟨reached, hreached⟩ h hh
      exact ⟨r, hstep, fun m hm =>
        ih.1 ⟨ks, hok⟩ m ((mem_reached hreached).2 ⟨h, hh, r, hstep, hm⟩)⟩
    · intro hpass
      obtain ⟨reached, hreached⟩ : ∃ reached, hs.mapM (fun h => s.takeStep h step) = .ok reached :=
        Outcome.exists_mapM_eq_ok_iff.2 fun h hh => (hpass h hh).imp fun r hr => hr.1
      obtain ⟨ks, hok⟩ := ih.2 fun m hm => by
        obtain ⟨h, hh, r, hstep, hmr⟩ := (mem_reached hreached).1 hm
        obtain ⟨r', hstep', hpass⟩ := hpass h hh
        rw [hstep] at hstep'
        cases hstep'
        exact hpass m hmr
      exact ⟨ks, by rw [takeSteps_cons, hreached]; exact hok⟩

/-- A run of steps gives what they lead to from one of the nodes. -/
theorem mem_takeSteps {hs ks : List Handle} {steps : List Step}
    (hok : s.takeSteps hs steps = .ok ks) {k : Handle} :
    k ∈ ks ↔ ∃ h ∈ hs, s.Leads steps h k := by
  induction steps generalizing hs with
  | nil =>
    rw [takeSteps_nil] at hok
    cases hok
    simp [Leads]
  | cons step steps ih =>
    rw [takeSteps_cons] at hok
    obtain ⟨reached, hreached, hok⟩ := Outcome.bind_eq_ok.1 hok
    rw [ih hok]
    constructor
    · rintro ⟨m, hm, hlead⟩
      obtain ⟨h, hh, r, hstep, hmr⟩ := (mem_reached hreached).1 hm
      exact ⟨h, hh, r, hstep, m, hmr, hlead⟩
    · rintro ⟨h, hh, r, hstep, m, hmr, hlead⟩
      exact ⟨m, (mem_reached hreached).2 ⟨h, hh, r, hstep, hmr⟩, hlead⟩

theorem exists_takeSteps_single_iff {h : Handle} {steps : List Step} :
    (∃ ks, s.takeSteps [h] steps = .ok ks) ↔ s.Passable steps h := by
  simp [exists_takeSteps_iff]

theorem mem_takeSteps_single {h : Handle} {ks : List Handle} {steps : List Step}
    (hok : s.takeSteps [h] steps = .ok ks) {k : Handle} : k ∈ ks ↔ s.Leads steps h k := by
  simp [mem_takeSteps hok]

/-! ## Paths -/

theorem evaluate_path {c : Handle} {steps : List Step} {v : Value} :
    s.evaluate (.path false steps) c = .ok v ↔
      ∃ ks, s.takeSteps [c] steps = .ok ks ∧ v = .nodes ks := by
  rw [evaluate, eval, Outcome.bind_eq_ok]
  refine exists_congr fun ks => and_congr_right fun _ => ?_
  constructor
  · intro h
    cases h
    rfl
  · rintro rfl
    rfl

/-- A relative path in two parts.  It can be evaluated at a node of the tree if
and only if the first part can, and the second part at each node that the first
one selects.  Then it selects what the second part selects from one of these
nodes, each node once and in document order.  The library may be any. -/
theorem evaluate_append {d : Document} (hd : d.WellFormed) {c : Handle}
    (hdoc : s.docs[c.doc]? = some d) (hc : c.node.IsIn d) (first rest : List Step) :
    ((∃ v, s.evaluate (.path false (first ++ rest)) c = .ok v) ↔
      ∃ ms, s.evaluate (.path false first) c = .ok (.nodes ms) ∧
        ∀ m ∈ ms, ∃ v, s.evaluate (.path false rest) m = .ok v) ∧
    ∀ ms v, s.evaluate (.path false first) c = .ok (.nodes ms) →
      s.evaluate (.path false (first ++ rest)) c = .ok v →
      ∃ ks, v = .nodes ks ∧
        (∀ k, k ∈ ks ↔
          ∃ m ∈ ms, ∃ ls, s.evaluate (.path false rest) m = .ok (.nodes ls) ∧ k ∈ ls) ∧
        ks.Nodup ∧ ks.Pairwise fun a b => Precedes d a.node b.node := by
  simp only [evaluate_path, takeSteps_append, Outcome.bind_eq_ok, Value.nodes.injEq]
  refine ⟨⟨?parts, ?whole⟩, ?union⟩
  case parts =>
    rintro ⟨v, ks, ⟨ms, hms, hks⟩, -⟩
    refine ⟨ms, ⟨ms, hms, rfl⟩, fun m hm => ?_⟩
    obtain ⟨ls, hls⟩ := exists_takeSteps_single_iff.2 (exists_takeSteps_iff.1 ⟨ks, hks⟩ m hm)
    exact ⟨.nodes ls, ls, hls, rfl⟩
  case whole =>
    rintro ⟨ms, ⟨_, hms, rfl⟩, hall⟩
    obtain ⟨ks, hks⟩ := exists_takeSteps_iff.2 fun m hm => by
      obtain ⟨v, ls, hls, -⟩ := hall m hm
      exact exists_takeSteps_single_iff.1 ⟨ls, hls⟩
    exact ⟨.nodes ks, ks, ⟨ms, hms, hks⟩, rfl⟩
  case union =>
    rintro ms v ⟨_, hms, rfl⟩ ⟨ks, ⟨ms', hms', hks⟩, rfl⟩
    rw [hms] at hms'
    cases hms'
    have hstart : InOrder d c.doc [c] := .single rfl hc
    have horder : InOrder d c.doc ks :=
      takeSteps_inOrder hd hdoc (takeSteps_inOrder hd hdoc hstart hms) hks
    refine ⟨ks, rfl, fun k => ?_, horder.nodup hd, horder.pairwise⟩
    rw [mem_takeSteps hks]
    refine exists_congr fun m => and_congr_right fun hm => ?_
    obtain ⟨ls, hls⟩ := exists_takeSteps_single_iff.2 (exists_takeSteps_iff.1 ⟨ks, hks⟩ m hm)
    constructor
    · intro hlead
      exact ⟨ls, ⟨ls, hls, rfl⟩, (mem_takeSteps_single hls).2 hlead⟩
    · rintro ⟨_, ⟨ls', hls', rfl⟩, hk⟩
      exact (mem_takeSteps_single hls').1 hk

/-- `preceding-sibling::b[boolean(@k)]` -/
def keyedInFront : Step :=
  .mk .precedingSibling (.name none "b")
    [.call none "boolean" [.path false [.mk .attribute (.name none "k") []]]]

/-- Two of the children have an element in front of them, and it is the same. -/
theorem evaluate_append_shelf :
    NodeRef.IsIn shelf (.element 0) ∧
      ∃ ms ks, evaluate { docs := #[shelf] } (.path false [.mk .child .node []])
          ⟨0, .element 0⟩ = .ok (.nodes ms) ∧
        ms = [⟨0, .element 3⟩, ⟨0, .element 1⟩, ⟨0, .comment 2⟩] ∧
        evaluate { docs := #[shelf] } (.path false ([.mk .child .node []] ++ [keyedInFront]))
          ⟨0, .element 0⟩ = .ok (.nodes ks) ∧
        ks = [⟨0, .element 3⟩, ⟨0, .element 1⟩] ∧
        ∀ k, k ∈ ks ↔ ∃ m ∈ ms, ∃ ls,
          evaluate { docs := #[shelf] } (.path false [keyedInFront]) m = .ok (.nodes ls) ∧
            k ∈ ls := by
  have hin : NodeRef.IsIn shelf (.element 0) := shelf_wellFormed.inTree_root
  have hfirst : evaluate { docs := #[shelf] } (.path false [.mk .child .node []])
      ⟨0, .element 0⟩ = .ok (.nodes [⟨0, .element 3⟩, ⟨0, .element 1⟩, ⟨0, .comment 2⟩]) := by
    cbv
  have hwhole : evaluate { docs := #[shelf] }
      (.path false ([.mk .child .node []] ++ [keyedInFront])) ⟨0, .element 0⟩ =
        .ok (.nodes [⟨0, .element 3⟩, ⟨0, .element 1⟩]) := by
    cbv
  obtain ⟨ks, hks, hunion, -⟩ :=
    (evaluate_append shelf_wellFormed rfl hin [.mk .child .node []] [keyedInFront]).2 _ _ hfirst
      hwhole
  cases hks
  exact ⟨hin, _, _, hfirst, rfl, hwhole, rfl, hunion⟩

end Scope

end LabelTemplate.XPath
