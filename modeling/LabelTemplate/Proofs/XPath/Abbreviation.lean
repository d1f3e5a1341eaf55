import LabelTemplate.Proofs.XPath.Composition
import LabelTemplate.Proofs.XPath.Proximity

/-!
# The double slash

`a//b` is written for a step to a node and all its descendants, and a step to
their children.  These two steps lead where the one step along the descendant
axis leads, wherever they stand in a path (`evaluate_doubleSlash`).

* What is below a node is a child of the node or of something below it
  (`mem_nodesBelow_succ`).  That takes one level more, but the axes look through
  all levels of a tree (`mem_descendant_iff`).
* A step without predicates asks its test of all candidates in turn, whichever
  of the nodes before they come from (`takeSteps_bare`).  Whether the prefix of
  the test is bound does not depend on the candidate, so two steps with the same
  candidates fail together (`related_filterM_passes`).
* What is left is put in document order, so only the set of nodes counts
  (`inDocumentOrder_congr`).
-/

namespace LabelTemplate.XPath

open Xml Document

/-! ## One level more -/

/-- What is below a node is a child of the node or of something below it. -/
theorem mem_nodesBelow_succ {d : Document} {fuel : Nat} {h c : Handle} :
    c ∈ nodesBelow d (fuel + 1) h ↔ ∃ p ∈ h :: nodesBelow d fuel h, c ∈ childNodes d p := by
  induction fuel generalizing h with
  | zero => simp [nodesBelow]
  | succ fuel ih =>
    rw [nodesBelow]
    simp only [List.mem_flatMap, List.mem_cons, ih]
    rw [nodesBelow]
    simp only [List.mem_flatMap, List.mem_cons]
    constructor
    · rintro ⟨b, hb, rfl | ⟨p, rfl | hp, hc⟩⟩
      · exact ⟨h, .inl rfl, hb⟩
      · exact ⟨p, .inr ⟨p, hb, .inl rfl⟩, hc⟩
      · exact ⟨p, .inr ⟨b, hb, .inr hp⟩, hc⟩
    · rintro ⟨p, rfl | ⟨b, hb, rfl | hp⟩, hc⟩
      · exact ⟨c, hc, .inl rfl⟩
      · exact ⟨p, hb, .inr ⟨p, .inl rfl, hc⟩⟩
      · exact ⟨b, hb, .inr ⟨p, .inr hp, hc⟩⟩

theorem nodeAbove?_add {d : Document} (i j : Nat) (h : Handle) :
    nodeAbove? d (i + j) h = (nodeAbove? d i h).bind (nodeAbove? d j) := by
  induction i generalizing h with
  | zero => simp [nodeAbove?]
  | succ i ih =>
    rw [Nat.succ_add, nodeAbove?_succ, nodeAbove?_succ, Option.bind_assoc]
    exact Option.bind_congr fun p _ => ih p

/-- A way up ends at the document node. -/
theorem le_of_nodeAbove? {d : Document} {key : DocKey} {j k : Nat} {h p : Handle}
    (htop : nodeAbove? d j h = some ⟨key, .document⟩) (hp : nodeAbove? d k h = some p) :
    k ≤ j := by
  by_contra hlt
  obtain ⟨m, rfl⟩ : ∃ m, k = j + (m + 1) := ⟨k - j - 1, by omega⟩
  rw [nodeAbove?_add, htop] at hp
  cases hp

theorem isAttribute_of_mem_childNodes {d : Document} {p c : Handle} (hc : c ∈ childNodes d p) :
    c.node.isAttribute = false := by
  obtain ⟨doc, node⟩ := p
  cases node with
  | document =>
    obtain rfl := List.mem_singleton.1 hc
    rfl
  | element id =>
    obtain ⟨rfl, -⟩ | ⟨n, -, rfl⟩ := mem_childNodes_element.1 hc
    · rfl
    · unfold treeNode
      split <;> rfl
  | _ => cases hc

section WellFormed

variable {d : Document} (hd : d.WellFormed) {key : DocKey} {h c : Handle}

include hd

/-- What is below a node of the tree can be reached, and is no attribute. -/
theorem reachable_of_mem_nodesBelow {fuel : Nat} (hin : h.node.IsIn d)
    (hc : c ∈ nodesBelow d fuel h) : Reachable d h.doc c ∧ c.node.isAttribute = false := by
  induction fuel generalizing h with
  | zero => cases hc
  | succ fuel ih =>
    obtain ⟨b, hb, hcb⟩ := List.mem_flatMap.1 hc
    have hpresent : h.node.IsPresent d := by
      obtain ⟨doc, node⟩ := h
      match node, hin with
      | .document, _ => trivial
      | .element _, hin => exact hin
      | .attribute _ _, _ | .text _, _ | .comment _, _ => cases hb
    obtain ⟨hdoc, hchild⟩ := isPresent_of_mem_childNodes hd hpresent hb
    rcases List.mem_cons.1 hcb with rfl | hcb
    · exact ⟨(reachable_iff hd).2 ⟨hdoc, hchild⟩, isAttribute_of_mem_childNodes hb⟩
    · exact hdoc ▸ ih hchild.isIn hcb

/-- What is on the descendant axis is a child of the node or of something on
that axis. -/
theorem mem_descendant_iff (hin : h.node.IsIn d) :
    c ∈ axisNodes d h .descendant ↔
      ∃ p ∈ axisNodes d h .descendantOrSelf, c ∈ axisNodes d p .child := by
  refine Iff.trans ?_ mem_nodesBelow_succ
  have hlevels : ∀ {fuel}, c ∈ nodesBelow d fuel h →
      ∃ k < levels d, nodeAbove? d (k + 1) c = some h := by
    intro fuel hc
    obtain ⟨hreach, hattribute⟩ := reachable_of_mem_nodesBelow hd hin hc
    obtain ⟨k, -, hk⟩ := (mem_nodesBelow_iff hd hreach hattribute).1 hc
    obtain ⟨j, hj, htop⟩ := exists_nodeAbove?_eq_document hd hreach
    have hle := le_of_nodeAbove? htop hk
    exact ⟨k, by omega, hk⟩
  have hmem : ∀ {fuel fuel'}, levels d ≤ fuel' → c ∈ nodesBelow d fuel h →
      c ∈ nodesBelow d fuel' h := by
    intro fuel fuel' hle hc
    obtain ⟨hreach, hattribute⟩ := reachable_of_mem_nodesBelow hd hin hc
    obtain ⟨k, hk, hup⟩ := hlevels hc
    exact (mem_nodesBelow_iff hd hreach hattribute).2 ⟨k, by omega, hup⟩
  exact ⟨hmem (Nat.le_succ _), hmem (Nat.le_refl _)⟩

end WellFormed

/-! ## Steps without predicates -/

namespace Scope

variable {s : Scope} {d : Document} {key : DocKey} {hs ks : List Handle}

theorem takeStep_bare {h : Handle} (hdoc : s.docs[h.doc]? = some d) (axis : Axis)
    (test : NodeTest) :
    s.takeStep h (.mk axis test []) = (axisNodes d h axis).filterM (s.passes d axis test) := by
  rw [takeStep, document, hdoc]
  change ((axisNodes d h axis).filterM (s.passes d axis test) >>= fun candidates =>
    s.applyPredicates candidates []) = _
  cases (axisNodes d h axis).filterM (s.passes d axis test) with
  | error e => rfl
  | ok candidates =>
    change s.applyPredicates candidates [] = _
    rw [applyPredicates]

/-- The candidates of all nodes are tested in turn. -/
theorem takeSteps_bare (hdoc : s.docs[key]? = some d) (hin : AllIn d key hs) (axis : Axis)
    (test : NodeTest) (steps : List Step) :
    s.takeSteps hs (.mk axis test [] :: steps) =
      (hs.flatMap fun h => axisNodes d h axis).filterM (s.passes d axis test) >>= fun ks =>
        s.takeSteps (inDocumentOrder s.docs ks) steps := by
  have hstep : hs.mapM (fun h => s.takeStep h (.mk axis test [])) =
      hs.mapM fun h => (axisNodes d h axis).filterM (s.passes d axis test) :=
    Outcome.mapM_congr fun h hh => takeStep_bare ((hin h hh).1 ▸ hdoc) axis test
  rw [takeSteps_cons, hstep]
  exact Outcome.mapM_filterM _ _ _ fun ks => s.takeSteps (inDocumentOrder s.docs ks) steps

/-- Whether a test fails does not depend on the node that it is asked of. -/
theorem passes_settled (s : Scope) (d : Document) (axis : Axis) (test : NodeTest) :
    (∃ keeps : Handle → Bool, ∀ h, s.passes d axis test h = .ok (keeps h)) ∨
      ∃ e, ∀ h, s.passes d axis test h = .error e := by
  cases test with
  | name pfx localName =>
    cases pfx with
    | none => exact .inl ⟨_, fun h => rfl⟩
    | some p =>
      simp only [passes]
      cases s.resolvePrefix p with
      | error e => exact .inr ⟨e, fun h => rfl⟩
      | ok uri => exact .inl ⟨_, fun h => rfl⟩
  | inNamespace p =>
    simp only [passes]
    cases s.resolvePrefix p with
    | error e => exact .inr ⟨e, fun h => rfl⟩
    | ok uri => exact .inl ⟨_, fun h => rfl⟩
  | _ => exact .inl ⟨_, fun h => rfl⟩

theorem passes_child (test : NodeTest) : s.passes d .child test = s.passes d .descendant test := by
  have hprincipal : isPrincipal .child = isPrincipal .descendant := by
    funext h
    obtain ⟨doc, node⟩ := h
    cases node <;> rfl
  funext h
  cases test <;> simp only [passes, hprincipal]

/-- The same candidates, in whatever order and number, fail a test alike or keep
the same nodes. -/
theorem related_filterM_passes (axis : Axis) (test : NodeTest) (h : ∀ k, k ∈ hs ↔ k ∈ ks) :
    Outcome.Related Eq (fun kept kept' => kept ⊆ hs ∧ ∀ k, k ∈ kept ↔ k ∈ kept')
      (hs.filterM (s.passes d axis test)) (ks.filterM (s.passes d axis test)) := by
  obtain ⟨keeps, hkeeps⟩ | ⟨e, he⟩ := s.passes_settled d axis test
  · rw [Outcome.filterM_of_ok hkeeps, Outcome.filterM_of_ok hkeeps]
    refine .ok ⟨List.filter_sublist.subset, fun k => ?_⟩
    rw [List.mem_filter, List.mem_filter, h]
  · have hnil : hs = [] ↔ ks = [] := by
      rw [List.eq_nil_iff_forall_not_mem, List.eq_nil_iff_forall_not_mem]
      exact forall_congr' fun k => not_congr (h k)
    rw [Outcome.filterM_of_error he, Outcome.filterM_of_error he]
    by_cases hempty : hs = []
    · rw [if_pos hempty, if_pos (hnil.1 hempty)]
      exact .ok ⟨List.nil_subset _, fun k => Iff.rfl⟩
    · rw [if_neg hempty, if_neg (mt hnil.2 hempty)]
      exact .error rfl

end Scope

/-- Nodes of one tree are put in order in one way. -/
theorem inDocumentOrder_congr {docs : Documents} {d : Document} (hd : d.WellFormed)
    {key : DocKey} (hdoc : docs[key]? = some d) {hs ks : List Handle} (hin : AllIn d key hs)
    (h : ∀ k, k ∈ hs ↔ k ∈ ks) : inDocumentOrder docs hs = inDocumentOrder docs ks := by
  have hin' : AllIn d key ks := hin.subset fun k hk => (h k).2 hk
  have : Std.Asymm fun a b : Handle => Precedes d a.node b.node :=
    ⟨fun _ _ hab => hab.asymm hd.linked⟩
  refine List.Pairwise.eq_of_mem_iff (pairwise_inDocumentOrder hd hdoc hin)
    (pairwise_inDocumentOrder hd hdoc hin') fun k => ?_
  rw [mem_inDocumentOrder, mem_inDocumentOrder, h]

/-! ## The double slash -/

namespace Scope

variable {s : Scope} {d : Document}

/-- From any nodes of a tree. -/
theorem takeSteps_doubleSlash (hd : d.WellFormed) {key : DocKey} (hdoc : s.docs[key]? = some d)
    {hs : List Handle} (hin : AllIn d key hs) (test : NodeTest) (steps : List Step) :
    s.takeSteps hs (.descendantOrSelf :: .mk .child test [] :: steps) =
      s.takeSteps hs (.mk .descendant test [] :: steps) := by
  let ps := hs.flatMap fun h => axisNodes d h .descendantOrSelf
  have hps : AllIn d key ps := allIn_flatMap fun h hh =>
    allIn_axisNodes hd (hin h hh).1 (hin h hh).2 _
  have hbelow : AllIn d key (hs.flatMap fun h => axisNodes d h .descendant) :=
    allIn_flatMap fun h hh => allIn_axisNodes hd (hin h hh).1 (hin h hh).2 _
  have hall : ps.filterM (s.passes d .descendantOrSelf .node) = .ok ps := by
    have hpass : ∀ h, s.passes d .descendantOrSelf .node h = .ok true := fun _ => rfl
    refine (Outcome.filterM_of_ok hpass ps).trans ?_
    rw [List.filter_true]
  have hsame : ∀ c, (c ∈ (inDocumentOrder s.docs ps).flatMap fun p => axisNodes d p .child) ↔
      c ∈ hs.flatMap fun h => axisNodes d h .descendant := by
    intro c
    simp only [List.mem_flatMap, mem_inDocumentOrder, ps]
    constructor
    · rintro ⟨p, ⟨h, hh, hp⟩, hc⟩
      exact ⟨h, hh, (mem_descendant_iff hd (hin h hh).2).2 ⟨p, hp, hc⟩⟩
    · rintro ⟨h, hh, hc⟩
      obtain ⟨p, hp, hc⟩ := (mem_descendant_iff hd (hin h hh).2).1 hc
      exact ⟨p, ⟨h, hh, hp⟩, hc⟩
  rw [Step.descendantOrSelf, takeSteps_bare hdoc hin, hall]
  change s.takeSteps (inDocumentOrder s.docs ps) _ = _
  rw [takeSteps_bare hdoc (hps.subset inDocumentOrder_subset), takeSteps_bare hdoc hin,
    passes_child]
  refine Outcome.Related.eq_iff.1
    ((related_filterM_passes .descendant test hsame).bind fun kept kept' h => ?_)
  have hkept : AllIn d key kept := hbelow.subset fun k hk => (hsame k).1 (h.1 hk)
  rw [Outcome.Related.eq_iff, inDocumentOrder_congr hd hdoc hkept h.2]

/-- A double slash anywhere in a path, absolute or not, is a step along the
descendant axis: from a node of the tree both paths give the same nodes, or fail
for the same reason.  Between the other steps stands the node test alone, which
may have a prefix that is not bound. -/
theorem evaluate_doubleSlash (hd : d.WellFormed) {h : Handle}
    (hdoc : s.docs[h.doc]? = some d) (hh : Reachable d h.doc h) (test : NodeTest)
    (absolute : Bool) (before after : List Step) :
    s.evaluate (.path absolute (before ++ .descendantOrSelf :: .mk .child test [] :: after)) h =
      s.evaluate (.path absolute (before ++ .mk .descendant test [] :: after)) h := by
  let start : Handle := if absolute then ⟨h.doc, .document⟩ else h
  have hstart : InOrder d h.doc [start] := by
    cases absolute with
    | true => exact .single rfl trivial
    | false => exact .single rfl ((reachable_iff hd).1 hh).2.isIn
  have hsteps : s.takeSteps [start] (before ++ .descendantOrSelf :: .mk .child test [] :: after) =
      s.takeSteps [start] (before ++ .mk .descendant test [] :: after) := by
    rw [takeSteps_append, takeSteps_append]
    cases hbefore : s.takeSteps [start] before with
    | error e => rfl
    | ok hs =>
      exact takeSteps_doubleSlash hd hdoc (takeSteps_inOrder hd hdoc hstart hbefore).allIn test
        after
  rw [evaluate, evaluate, eval, eval]
  exact congrArg (· >>= fun hs => Except.ok (Value.nodes hs)) hsteps

/-- `.//text()`, and `.//p:b` with a prefix that is not bound. -/
theorem evaluate_doubleSlash_shelf :
    Reachable shelf 0 ⟨0, .element 0⟩ ∧
      evaluate { docs := #[shelf] } (.path false [.descendantOrSelf, .mk .child .text []])
        ⟨0, .element 0⟩ = .ok (.nodes [⟨0, .text 1⟩]) ∧
      evaluate { docs := #[shelf] }
        (.path false [.descendantOrSelf, .mk .child (.name (some "p") "b") []])
        ⟨0, .element 0⟩ = .error (.evaluation (.undefinedPrefix "p")) := by
  have hroot : Reachable shelf 0 ⟨0, .element 0⟩ :=
    .child .document (List.mem_singleton.2 rfl)
  have hstep := fun test => evaluate_doubleSlash (s := { docs := #[shelf] })
    (h := ⟨0, .element 0⟩) shelf_wellFormed rfl hroot test false [] []
  refine ⟨hroot, (hstep _).trans ?_, (hstep _).trans ?_⟩
  · cbv
  · cbv

end Scope

end LabelTemplate.XPath
