import Mathlib.Data.Set.Card
import LabelTemplate.Proofs.XPath.Kinship
import LabelTemplate.Proofs.XPath.Order

/-!
# Axes come in proximity order

A forward axis leads away from a node in document order, a reverse axis
against it.  `Nearer` is this order; `pairwise_axisNodes` shows that the nodes
along an axis stand in it, with one lemma for each of the ways in which the
axes are produced: lists of stored children, the recursion downwards, the loop
upwards, and the numbered attributes.

So the position at which a predicate is asked about a node counts the nodes
that are nearer, also where a test or an earlier predicate has left nodes out
(`applyPredicates_eq_keepByNearness`).
-/

namespace LabelTemplate.XPath

open Xml Document

/-- `a` is nearer than `b` along an axis: before it on a forward axis, after it
on a reverse one. -/
def Nearer (d : Document) (axis : Axis) (a b : Handle) : Prop :=
  if axis.isReverse then Precedes d b.node a.node else Precedes d a.node b.node

variable {d : Document} {key : DocKey}

theorem Precedes.asymm (hd : d.Linked) {a b : NodeRef} (h : Precedes d a b) :
    ¬ Precedes d b a := by
  intro h'
  cases h with
  | document hne =>
    cases h' with
    | document => exact hne rfl
    | owners _ hb => cases hb
  | @owners _ _ m n ha hb hmn =>
    have happart : m ≠ n := hmn.ne hd
    cases h' with
    | document => cases hb
    | owners hb' ha' hnm =>
      rw [ha] at ha'
      rw [hb] at hb'
      cases ha'
      cases hb'
      exact hmn.asymm hd hnm
    | _ => exact happart ((Option.some.inj ha).symm.trans (Option.some.inj hb))
  | elementAttribute =>
    cases h' with
    | owners ha hb h => exact h.ne hd ((Option.some.inj ha).symm.trans (Option.some.inj hb))
  | elementText =>
    cases h' with
    | owners ha hb h => exact h.ne hd ((Option.some.inj ha).symm.trans (Option.some.inj hb))
  | attributes hij =>
    cases h' with
    | owners ha hb h => exact h.ne hd ((Option.some.inj ha).symm.trans (Option.some.inj hb))
    | attributes hji => omega
  | attributeText =>
    cases h' with
    | owners ha hb h => exact h.ne hd ((Option.some.inj ha).symm.trans (Option.some.inj hb))

theorem Nearer.asymm (hd : d.Linked) {axis : Axis} {a b : Handle} (h : Nearer d axis a b) :
    ¬ Nearer d axis b a := by
  unfold Nearer at *
  split at h
  · rw [if_pos ‹_›]
    exact h.asymm hd
  · rw [if_neg ‹_›]
    exact h.asymm hd

theorem Nearer.ne (hd : d.Linked) {axis : Axis} {a b : Handle} (h : Nearer d axis a b) :
    a ≠ b := by
  rintro rfl
  exact h.asymm hd h

theorem Precedes.attribute_of_element {a : NodeRef} {id : NodeId} (i : Nat)
    (h : Precedes d a (.element id)) : Precedes d a (.attribute id i) := by
  cases h with
  | document => exact .document (by simp)
  | owners ha hb h => exact .owners ha hb h

/-! ## Stored children -/

theorem owner?_treeNode (n : NodeId) : (treeNode d key n).node.owner? = some n := by
  unfold treeNode
  split <;> rfl

theorem pairwise_treeNodes {p : NodeId} {ns : List NodeId} (hns : ns.Sublist (d.children p)) :
    (ns.map (treeNode d key)).Pairwise fun a b => Precedes d a.node b.node :=
  List.pairwise_map.2 <| List.pairwise_iff_forall_sublist.2 fun hab =>
    .owners (owner?_treeNode _) (owner?_treeNode _)
      (.aside (hab.trans hns) (within_self d _) (within_self d _))

theorem pairwise_attributeNodes (h : Handle) :
    (attributeNodes d h).Pairwise fun a b => Precedes d a.node b.node := by
  obtain ⟨key, node⟩ := h
  cases node with
  | element id => exact List.pairwise_map.2 (List.pairwise_lt_range.imp .attributes)
  | _ => exact .nil

/-! ## Downwards -/

theorem childTexts_element (d : Document) (key : DocKey) (id : NodeId) :
    childTexts d ⟨key, .element id⟩ = [] ∨
      childTexts d ⟨key, .element id⟩ = [⟨key, .text id⟩] := by
  have hsplit := childNodes_element d key id
  unfold axisNodes childNodes at hsplit
  rw [← List.append_cancel_right hsplit]
  split
  · exact .inr rfl
  · exact .inl rfl

/-- What is below an element: its text, and each stored child with what is
below it. -/
theorem nodesBelow_element (fuel : Nat) (id : NodeId) :
    nodesBelow d (fuel + 1) ⟨key, .element id⟩ = childTexts d ⟨key, .element id⟩ ++
      (d.children id).flatMap fun n =>
        treeNode d key n :: nodesBelow d fuel (treeNode d key n) := by
  have hbelow : nodesBelow d fuel ⟨key, .text id⟩ = [] := by cases fuel <;> rfl
  have hsplit := childNodes_element d key id
  rw [axisNodes] at hsplit
  rw [nodesBelow, hsplit, List.flatMap_append, List.flatMap_map]
  congr 1
  rcases childTexts_element d key id with h | h <;> rw [h] <;> simp [hbelow]

section WellFormed

variable (hd : d.WellFormed)

include hd

/-- What is below a node belongs to the elements and comments within its own. -/
theorem owner?_of_mem_nodesBelow {fuel : Nat} {h c : Handle} {m : NodeId}
    (hm : h.node.owner? = some m) (hc : c ∈ nodesBelow d fuel h) :
    ∃ n, c.node.owner? = some n ∧ Within d m n := by
  induction fuel generalizing h m with
  | zero => cases hc
  | succ fuel ih =>
    obtain ⟨key, node⟩ := h
    cases node with
    | document => cases hm
    | element id =>
      obtain rfl : id = m := Option.some.inj hm
      have hstep : ∀ {b : Handle} {n : NodeId}, b.node.owner? = some n → Within d id n →
          c ∈ b :: nodesBelow d fuel b → ∃ k, c.node.owner? = some k ∧ Within d id k := by
        intro b n hn hw hcb
        rcases List.mem_cons.1 hcb with rfl | hcb
        · exact ⟨n, hn, hw⟩
        · obtain ⟨k, hk, hwk⟩ := ih hn hcb
          exact ⟨k, hk, hw.trans hwk⟩
      obtain ⟨b, hb, hcb⟩ := List.mem_flatMap.1 hc
      obtain ⟨rfl, -⟩ | ⟨n, hn, rfl⟩ := mem_childNodes_element.1 hb
      · exact hstep rfl (within_self d id) hcb
      · exact hstep (owner?_treeNode n) (.inr (.child ((hd.parent_iff_child id n).2 hn))) hcb
    | _ => cases hc

theorem owner?_of_mem_subtree {fuel : Nat} {n : NodeId} {c : Handle}
    (hc : c ∈ treeNode d key n :: nodesBelow d fuel (treeNode d key n)) :
    ∃ m, c.node.owner? = some m ∧ Within d n m := by
  rcases List.mem_cons.1 hc with rfl | hc
  · exact ⟨n, owner?_treeNode n, within_self d n⟩
  · exact owner?_of_mem_nodesBelow hd (owner?_treeNode n) hc

theorem precedes_of_mem_nodesBelow {fuel : Nat} {h c : Handle} (hc : c ∈ nodesBelow d fuel h) :
    Precedes d h.node c.node := by
  cases fuel with
  | zero => cases hc
  | succ fuel =>
    obtain ⟨key, node⟩ := h
    cases node with
    | document =>
      have hsub : c ∈ treeNode d key d.root :: nodesBelow d fuel (treeNode d key d.root) := by
        rw [treeNode_of_isElement hd.root_isElement]
        simpa [nodesBelow, childNodes] using hc
      obtain ⟨m, hm, -⟩ := owner?_of_mem_subtree hd hsub
      refine .document fun h => ?_
      rw [h] at hm
      cases hm
    | element id =>
      rw [nodesBelow_element, List.mem_append] at hc
      rcases hc with hc | hc
      · obtain h | h := childTexts_element d key id
        · rw [h] at hc
          cases hc
        · rw [h, List.mem_singleton] at hc
          subst hc
          exact .elementText
      · obtain ⟨n, hn, hc⟩ := List.mem_flatMap.1 hc
        obtain ⟨m, hm, hw⟩ := owner?_of_mem_subtree hd hc
        exact .owners rfl hm (.above (hw.below ((hd.parent_iff_child id n).2 hn)))
    | _ => cases hc

/-- The recursion downwards goes in document order. -/
theorem pairwise_nodesBelow (fuel : Nat) (h : Handle) :
    (nodesBelow d fuel h).Pairwise fun a b => Precedes d a.node b.node := by
  induction fuel generalizing h with
  | zero => exact .nil
  | succ fuel ih =>
    have hsubtree : ∀ c, (c :: nodesBelow d fuel c).Pairwise
        fun a b => Precedes d a.node b.node := fun c =>
      List.pairwise_cons.2 ⟨fun _ hb => precedes_of_mem_nodesBelow hd hb, ih c⟩
    obtain ⟨key, node⟩ := h
    cases node with
    | document => simpa [nodesBelow, childNodes] using hsubtree ⟨key, .element d.root⟩
    | element id =>
      rw [nodesBelow_element]
      refine List.pairwise_append.2 ⟨?texts, List.pairwise_flatMap.2 ⟨fun n _ => hsubtree _,
        List.pairwise_iff_forall_sublist.2 fun {m n} hmn a ha b hb => ?siblings⟩,
        fun a ha b hb => ?text⟩
      case texts =>
        obtain h | h := childTexts_element d key id <;> rw [h]
        · exact .nil
        · exact List.pairwise_singleton _ _
      case siblings =>
        obtain ⟨m', hm, hwm⟩ := owner?_of_mem_subtree hd ha
        obtain ⟨n', hn, hwn⟩ := owner?_of_mem_subtree hd hb
        exact .owners hm hn (.aside hmn hwm hwn)
      case text =>
        obtain ⟨n, hn, hb⟩ := List.mem_flatMap.1 hb
        obtain ⟨m, hm, hw⟩ := owner?_of_mem_subtree hd hb
        obtain h | h := childTexts_element d key id
        · rw [h] at ha
          cases ha
        · rw [h, List.mem_singleton] at ha
          subst ha
          exact .owners rfl hm (.above (hw.below ((hd.parent_iff_child id n).2 hn)))
    | _ => exact .nil

/-! ## Upwards -/

theorem precedes_of_mem_nodesAbove {fuel : Nat} {h p : Handle} (hh : Reachable d key h)
    (hp : p ∈ nodesAbove d fuel h) : Precedes d p.node h.node := by
  have hbelow : ∀ {fuel : Nat} {c : Handle}, Reachable d key c → c.node.isAttribute = false →
      p ∈ nodesAbove d fuel c → Precedes d p.node c.node := fun hc hattribute hpc =>
    precedes_of_mem_nodesBelow hd ((mem_nodesBelow_iff hd hc hattribute).2 (mem_nodesAbove_iff.1 hpc))
  cases hattribute : h.node.isAttribute with
  | false => exact hbelow hh hattribute hp
  | true =>
    obtain ⟨doc, node⟩ := h
    match node, hattribute with
    | .attribute id i, _ =>
      cases fuel with
      | zero => cases hp
      | succ fuel =>
        have hreach := (reachable_parentNode hd hh rfl).1
        rcases List.mem_cons.1 hp with rfl | hp
        · exact .elementAttribute
        · exact (hbelow hreach rfl hp).attribute_of_element i

/-- The loop upwards goes against document order. -/
theorem pairwise_nodesAbove (fuel : Nat) {h : Handle} (hh : Reachable d key h) :
    (nodesAbove d fuel h).Pairwise fun a b => Precedes d b.node a.node := by
  induction fuel generalizing h with
  | zero => exact .nil
  | succ fuel ih =>
    rw [nodesAbove]
    split
    · have hreach := (reachable_parentNode hd hh ‹_›).1
      exact List.pairwise_cons.2 ⟨fun _ hq => precedes_of_mem_nodesAbove hd hreach hq, ih hreach⟩
    · exact .nil

/-! ## All axes -/

theorem pairwise_siblings {h : Handle} (hh : Reachable d key h) (following : Bool) :
    (siblings d h following).Pairwise
      (Nearer d (if following then .followingSibling else .precedingSibling)) := by
  cases hh using Reachable.byKind hd with
  | tree n _ _ =>
    cases hp : d.parent? n with
    | none =>
      rw [siblings_treeNode_of_loose hp]
      exact .nil
    | some p =>
      obtain ⟨before, after, hsplit, hn⟩ :=
        List.eq_append_cons_of_mem ((hd.parent_iff_child p n).1 hp)
      rw [siblings_treeNode hp hsplit hn]
      have hpart : before.Sublist (d.children p) ∧ after.Sublist (d.children p) := by
        rw [hsplit]
        exact ⟨List.sublist_append_left _ _,
          (List.sublist_cons_self n after).trans (List.sublist_append_right _ _)⟩
      cases following with
      | false =>
        change (before.reverse.map (treeNode d key)).Pairwise _
        rw [List.map_reverse]
        exact List.pairwise_reverse.2 (pairwise_treeNodes hpart.1)
      | true => exact pairwise_treeNodes hpart.2
  | _ => exact .nil

/-- The nodes along an axis stand in its order. -/
theorem pairwise_axisNodes {h : Handle} (hh : Reachable d key h) (axis : Axis) :
    (axisNodes d h axis).Pairwise (Nearer d axis) := by
  match axis with
  | .child =>
    -- the children are what is one level below
    have hbelow := pairwise_nodesBelow hd 1 h
    simp only [nodesBelow, List.flatMap_singleton'] at hbelow
    exact hbelow
  | .descendant => exact pairwise_nodesBelow hd _ h
  | .descendantOrSelf =>
    exact List.pairwise_cons.2
      ⟨fun _ hb => precedes_of_mem_nodesBelow hd hb, pairwise_nodesBelow hd _ h⟩
  | .parent =>
    rw [axisNodes]
    cases parentNode? d h with
    | none => exact .nil
    | some p => exact List.pairwise_singleton _ _
  | .ancestor => exact pairwise_nodesAbove hd _ hh
  | .ancestorOrSelf =>
    exact List.pairwise_cons.2
      ⟨fun _ hb => precedes_of_mem_nodesAbove hd hh hb, pairwise_nodesAbove hd _ hh⟩
  | .followingSibling => exact pairwise_siblings hd hh true
  | .precedingSibling => exact pairwise_siblings hd hh false
  | .attribute => exact pairwise_attributeNodes h
  | .self => exact List.pairwise_singleton _ _

end WellFormed

/-! ## Positions -/

/-- The number of nodes of a list that are nearer than one of them. -/
noncomputable def countNearer (d : Document) (axis : Axis) (hs : List Handle) (h : Handle) : Nat :=
  {b | b ∈ hs ∧ Nearer d axis b h}.ncard

/-- In a list that stands in the order of the axis, the nodes in front of a
node are those that are nearer. -/
theorem countNearer_eq (hd : d.Linked) {axis : Axis} {hs : List Handle}
    (horder : hs.Pairwise (Nearer d axis)) {i : Nat} {h : Handle} (hi : hs[i]? = some h) :
    countNearer d axis hs h = i := by
  obtain ⟨before, after, rfl, rfl⟩ :
      ∃ before after, hs = before ++ h :: after ∧ before.length = i := by
    obtain ⟨hlt, rfl⟩ := List.getElem?_eq_some_iff.1 hi
    refine ⟨hs.take i, hs.drop (i + 1), ?_, List.length_take_of_le (Nat.le_of_lt hlt)⟩
    rw [List.cons_getElem_drop_succ, List.take_append_drop]
  obtain ⟨hbefore, hrest, hfirst⟩ := List.pairwise_append.1 horder
  have hafter := (List.pairwise_cons.1 hrest).1
  have hnearer : {b | b ∈ before ++ h :: after ∧ Nearer d axis b h} = ↑before.toFinset := by
    ext b
    simp only [Set.mem_ofPred_eq, List.mem_append, List.mem_cons, List.coe_toFinset]
    constructor
    · rintro ⟨hb | rfl | hb, hbh⟩
      · exact hb
      · exact absurd hbh (hbh.asymm hd)
      · exact absurd (hafter b hb) (hbh.asymm hd)
    · intro hb
      exact ⟨.inl hb, hfirst b hb h List.mem_cons_self⟩
  have hnodup : before.Nodup := hbefore.imp fun hab => hab.ne hd
  rw [countNearer, hnearer, Set.ncard_coe_finset, List.toFinset_card_of_nodup hnodup]

/-- A filter whose positions are those of a function. -/
theorem filterNodes_eq_filterM (size : Nat) (predicate : CallContext → Except Error Value)
    (place : Handle → Nat) {start : Nat} {hs : List Handle}
    (hplace : ∀ i h, hs[i]? = some h → place h = start + i) :
    Scope.filterNodes size predicate start hs =
      hs.filterM fun h => Scope.keeps (place h) <$> predicate ⟨h, place h, size⟩ := by
  induction hs generalizing start with
  | nil => rfl
  | cons h hs ih =>
    have hfirst : place h = start := hplace 0 h rfl
    have hrest := @ih (start + 1) fun i b hb => by
      rw [hplace (i + 1) b hb]
      omega
    rw [Scope.filterNodes, Outcome.filterM_cons, hrest, hfirst]
    cases predicate ⟨h, start, size⟩ with
    | error e => rfl
    | ok v => rfl

/-- Predicates are asked one after the other, each about the nodes that are
left.  The position of a node is the number of those left that are nearer,
counted from 1. -/
noncomputable def Scope.keepByNearness (s : Scope) (d : Document) (axis : Axis)
    (hs : List Handle) : List Expr → Except Error (List Handle)
  | [] => .ok hs
  | p :: ps => do
    let kept ← hs.filterM fun h =>
      let position := countNearer d axis hs h + 1
      Scope.keeps position <$> s.eval ⟨h, position, hs.length⟩ p
    s.keepByNearness d axis kept ps

theorem applyPredicates_eq_keepByNearness (hd : d.Linked) (s : Scope) {axis : Axis}
    {hs : List Handle} (horder : hs.Pairwise (Nearer d axis)) (predicates : List Expr) :
    s.applyPredicates hs predicates = s.keepByNearness d axis hs predicates := by
  induction predicates generalizing hs with
  | nil => rw [Scope.applyPredicates, Scope.keepByNearness]
  | cons p ps ih =>
    have hplace : ∀ i h, hs[i]? = some h → countNearer d axis hs h + 1 = 1 + i := by
      intro i h hi
      rw [countNearer_eq hd horder hi, Nat.add_comm]
    rw [Scope.applyPredicates, Scope.keepByNearness,
      filterNodes_eq_filterM hs.length (fun ctx => s.eval ctx p) _ hplace]
    cases hkept : hs.filterM fun h => Scope.keeps (countNearer d axis hs h + 1) <$>
        s.eval ⟨h, countNearer d axis hs h + 1, hs.length⟩ p with
    | error e => rfl
    | ok kept => exact ih (horder.sublist (Outcome.sublist_of_filterM hkept))

/-- The nodes along an axis are in document order on a forward axis and in its
reverse on the others, each once.  So of the nodes that the test of a step
keeps, and of those that its predicates leave one after the other, the position
of each is that among the nearest ones. -/
theorem axisNodes_inProximityOrder (hd : d.WellFormed) {h : Handle} (hh : Reachable d key h)
    (axis : Axis) :
    (axisNodes d h axis).Nodup ∧ (axisNodes d h axis).Pairwise (Nearer d axis) ∧
    ∀ (s : Scope) (test : NodeTest) (predicates : List Expr), s.docs[key]? = some d →
      s.takeStep h (.mk axis test predicates) =
        (axisNodes d h axis).filterM (s.passes d axis test) >>= fun candidates =>
          s.keepByNearness d axis candidates predicates := by
  have horder := pairwise_axisNodes hd hh axis
  refine ⟨horder.imp fun hab => hab.ne hd.linked, horder, ?_⟩
  intro s test predicates hdoc
  have hdocument : s.document h.doc = .ok d := by
    rw [((reachable_iff hd).1 hh).1, Scope.document, hdoc]
  rw [Scope.takeStep, hdocument]
  change ((axisNodes d h axis).filterM (s.passes d axis test) >>= fun candidates =>
    s.applyPredicates candidates predicates) = _
  cases hcandidates : (axisNodes d h axis).filterM (s.passes d axis test) with
  | error e => rfl
  | ok candidates =>
    have hsub := horder.sublist (Outcome.sublist_of_filterM hcandidates)
    exact applyPredicates_eq_keepByNearness hd.linked s hsub predicates

/-- `preceding-sibling::node()[position()]` from the last element. -/
theorem axisNodes_inProximityOrder_mixed :
    Reachable mixed 0 ⟨0, .element 3⟩ ∧
      axisNodes mixed ⟨0, .element 3⟩ .precedingSibling = [⟨0, .comment 2⟩, ⟨0, .element 1⟩] ∧
      Precedes mixed (.element 1) (.comment 2) ∧
      countNearer mixed .precedingSibling [⟨0, .comment 2⟩, ⟨0, .element 1⟩] ⟨0, .element 1⟩ = 1 ∧
      Scope.takeStep { docs := #[mixed] } ⟨0, .element 3⟩
          (.mk .precedingSibling .node [.call none "position" []]) =
        Scope.keepByNearness { docs := #[mixed] } mixed .precedingSibling
          [⟨0, .comment 2⟩, ⟨0, .element 1⟩] [.call none "position" []] := by
  have hnodes : axisNodes mixed ⟨0, .element 3⟩ .precedingSibling =
      [⟨0, .comment 2⟩, ⟨0, .element 1⟩] := by
    decide +kernel
  obtain ⟨-, horder, hstep⟩ :=
    axisNodes_inProximityOrder mixed_wellFormed reachable_mixed_last .precedingSibling
  have hpositions := hstep { docs := #[mixed] } .node [.call none "position" []] rfl
  rw [hnodes] at horder hpositions
  exact ⟨reachable_mixed_last, hnodes, (List.pairwise_cons.1 horder).1 _ List.mem_cons_self,
    countNearer_eq mixed_wellFormed.linked horder rfl, hpositions⟩

end LabelTemplate.XPath
