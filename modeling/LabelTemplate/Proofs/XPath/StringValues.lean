import LabelTemplate.Proofs.XPath.Abbreviation

/-!
# String-values and text nodes

The string-value of an element is read off the arena: the texts of all elements
that the traversal with a stack meets below it.  The text nodes below it are
found by the recursion along the descendant axis, where an empty text is no
node, and are then put in order.  Both give the same characters
(`stringValue_eq_join`), for the document node and for every element, also one
that is not attached.

`filter_isText_nodesBelow` is the induction over the tree.  The text nodes that
it finds stand in order already.  Those of a detached tree all have the same
place, so that sorting leaves them as they are (`inDocumentOrder_texts`).
-/

namespace LabelTemplate.Xml.Document

variable {d : Document}

/-- The element has a text node. -/
def hasText (d : Document) (n : NodeId) : Bool := (d.text? n).any (!·.isEmpty)

theorem text?_of_isElement_eq_false {n : NodeId} (h : d.isElement n = false) :
    d.text? n = none := by
  have hnone : d.element? n = none := Option.isSome_eq_false_iff.1 h |> Option.isNone_iff_eq_none.1
  rw [text?, hnone, Option.bind_none]

/-- Texts that are empty add nothing. -/
theorem join_texts (d : Document) (ns : List NodeId) :
    String.join ((ns.filter d.isElement).filterMap d.text?) =
      String.join ((ns.filter d.hasText).map fun n => (d.text? n).getD "") := by
  induction ns with
  | nil => rfl
  | cons n ns ih =>
    cases htext : d.text? n with
    | none =>
      have hnone : d.hasText n = false := by rw [hasText, htext]; rfl
      cases helement : d.isElement n <;> simp [helement, hnone, htext, ih]
    | some text =>
      have helement : d.isElement n = true := by
        by_contra h
        rw [text?_of_isElement_eq_false (Bool.eq_false_iff.2 h)] at htext
        cases htext
      by_cases hempty : text = ""
      · have hnone : d.hasText n = false := by rw [hasText, htext, hempty]; rfl
        simp [helement, hnone, htext, hempty, ih, String.join_cons]
      · have hsome : d.hasText n = true := by simp [hasText, htext, hempty]
        simp [helement, hsome, htext, ih, String.join_cons]

end LabelTemplate.Xml.Document

namespace LabelTemplate.XPath

open Xml Document

variable {d : Document} {key : DocKey}

/-! ## The texts below a node -/

theorem childTexts_eq (d : Document) (key : DocKey) (id : NodeId) :
    childTexts d ⟨key, .element id⟩ = if d.hasText id then [⟨key, .text id⟩] else [] := by
  have hsplit := childNodes_element d key id
  unfold axisNodes childNodes at hsplit
  exact (List.append_cancel_right hsplit).symm

/-- A node has its own text and those of the trees below it. -/
theorem filter_isText_subtree (hd : d.Linked) (fuel : Nat) {n : NodeId} (hn : n < d.size) :
    (treeNode d key n :: nodesBelow d (fuel + 1) (treeNode d key n)).filter (·.node.isText) =
      (if d.hasText n then [⟨key, .text n⟩] else []) ++
        ((d.children n).flatMap fun c =>
          treeNode d key c :: nodesBelow d fuel (treeNode d key c)).filter (·.node.isText) := by
  rw [List.filter_cons_of_neg (by simp [isText_treeNode])]
  cases hcomment : d.isComment n with
  | true =>
    have helement : d.isElement n = false := by
      by_contra h
      rw [isComment_of_isElement (Bool.not_eq_false _ ▸ h)] at hcomment
      cases hcomment
    have hchildren : d.children n = [] := List.eq_nil_iff_forall_not_mem.2 fun c hc => by
      rw [hd.isElement_of_child n c hc] at helement
      cases helement
    have htext : d.hasText n = false := by
      rw [hasText, text?_of_isElement_eq_false helement]
      rfl
    rw [treeNode_of_isComment hcomment, hchildren, htext]
    rfl
  | false =>
    rw [treeNode_of_isElement (isElement_of_isComment_eq_false hn hcomment), nodesBelow_element,
      List.filter_append, childTexts_eq]
    congr 1
    split <;> rfl

/-- The text nodes of the trees below `ns` are those of the elements that the
preorder of these trees lists. -/
theorem filter_isText_nodesBelow (hd : d.Linked) {ns ids : List NodeId} {f : Forest}
    (hf : Spells d ns f) (hids : Preorder d ns ids) {fuel : Nat} (hfuel : f.height ≤ fuel) :
    (ns.flatMap fun n => treeNode d key n :: nodesBelow d fuel (treeNode d key n)).filter
        (·.node.isText) =
      (ids.filter d.hasText).map fun n => ⟨key, .text n⟩ := by
  induction hf generalizing ids fuel with
  | nil =>
    cases hids
    rfl
  | @node n ns x kids rest hx hkids hrest ihk ihr =>
    cases hids with
    | @node _ _ below after hbelow hafter =>
      simp only [Forest.height] at hfuel
      obtain ⟨fuel, rfl⟩ : ∃ k, fuel = k + 1 := ⟨fuel - 1, by omega⟩
      rw [children_of_node? hx] at hbelow
      have hbelowHeight : kids.height ≤ fuel := by omega
      have hafterHeight : rest.height ≤ fuel + 1 := by omega
      rw [List.flatMap_cons, List.filter_append, ihr hafter hafterHeight,
        filter_isText_subtree hd fuel (lt_size_of_node? hx), children_of_node? hx,
        ihk hbelow hbelowHeight, List.filter_cons, List.filter_append]
      split <;> simp

/-- The elements whose texts a node has: all those below the root for the
document node. -/
def NodeRef.top? (d : Document) : NodeRef → Option NodeId
  | .document => some d.root
  | .element id => some id
  | _ => none

section WellFormed

variable (hd : d.WellFormed)

include hd

/-- The text nodes along the descendant axis. -/
theorem filter_isText_descendant {x : Handle} {n : NodeId} (hx : x.node.top? d = some n)
    (hn : d.isElement n = true) :
    (axisNodes d x .descendant).filter (·.node.isText) =
      ((d.descendants n).filter d.hasText).map fun m => ⟨x.doc, .text m⟩ := by
  have hlt : n < d.size := lt_size_of_isElement hn
  obtain ⟨f, hf, hheight⟩ := hd.exists_spells [n] fun m hm => List.mem_singleton.1 hm ▸ hlt
  have htree : ∀ {fuel}, d.size ≤ fuel →
      (treeNode d x.doc n :: nodesBelow d fuel (treeNode d x.doc n)).filter (·.node.isText) =
        ((d.descendants n).filter d.hasText).map fun m => ⟨x.doc, .text m⟩ := by
    intro fuel hfuel
    have h := @filter_isText_nodesBelow d x.doc hd.linked _ _ _ hf (hd.preorder_descendants hlt)
      fuel (hheight.trans hfuel)
    rwa [List.flatMap_singleton] at h
  obtain ⟨doc, node⟩ := x
  cases node with
  | document =>
    cases hx
    rw [treeNode_of_isElement hn] at htree
    -- the root element is the only child
    refine Eq.trans ?_ (htree (Nat.le_succ d.size))
    simp [axisNodes, levels, nodesBelow, childNodes]
  | element id =>
    cases hx
    rw [treeNode_of_isElement hn] at htree
    exact htree (Nat.le_add_right d.size 2)
  | _ => cases hx

/-- The texts of a tree stand in order, so sorting leaves them as they are. -/
theorem inDocumentOrder_texts {docs : Documents} (hdoc : docs[key]? = some d) {n : NodeId}
    (hn : n < d.size) :
    inDocumentOrder docs (((d.descendants n).filter d.hasText).map fun m => ⟨key, .text m⟩) =
      ((d.descendants n).filter d.hasText).map fun m => ⟨key, .text m⟩ := by
  let ids := (d.descendants n).filter d.hasText
  let texts : List Handle := ids.map fun m => ⟨key, .text m⟩
  have hwithin : ∀ m ∈ ids, Within d n m := fun m hm =>
    (hd.mem_descendants hn).1 (List.mem_filter.1 hm).1
  have hranks : ∀ m ∈ ids, (ranksFor docs texts).lookup key = some d.documentOrder :=
    fun m hm => lookup_ranksFor_of_mem (h := ⟨key, .text m⟩) (List.mem_map_of_mem hm) hdoc
  have horder : ids.Pairwise d.Earlier := (hd.pairwise_descendants hn).filter d.hasText
  refine inDocumentOrder_eq_self ?nodup (List.pairwise_map.2 (horder.imp_of_mem ?sorted))
  case nodup =>
    refine List.Nodup.map (fun a b hab => ?_) ((hd.nodup_descendants hn).filter _)
    cases hab
    rfl
  case sorted =>
    intro a b ha hb hab
    change (orderKey (((ranksFor docs texts).lookup key).getD #[]) ⟨key, .text a⟩).le
      (orderKey (((ranksFor docs texts).lookup key).getD #[]) ⟨key, .text b⟩) = true
    rw [hranks a ha, Option.getD_some]
    by_cases hroot : Within d d.root n
    · obtain ⟨r, s, hr, hs, hrs⟩ := hd.ranksBefore_of_earlier (hroot.trans (hwithin a ha))
        (hroot.trans (hwithin b hb)) hab
      rw [orderKey_of_owner (h := ⟨key, .text a⟩) rfl hr,
        orderKey_of_owner (h := ⟨key, .text b⟩) rfl hs, OrderKey.le_iff]
      exact .inr ⟨rfl, .inl (Nat.succ_lt_succ hrs)⟩
    · -- a detached tree has no ranks
      have hnone : ∀ m, Within d n m → d.rank? m = none := fun m hm =>
        rank?_of_not_mem fun hmem => by
          have hup := (hd.mem_descendants hd.root_lt_size).1 hmem
          rcases within_or_below hup hm with h | h
          · exact hroot h
          · obtain ⟨p, hp⟩ := h.exists_parent
            rw [hd.root_parent] at hp
            cases hp
      have hkey : ∀ m, Within d n m →
          orderKey d.documentOrder ⟨key, .text m⟩ = ⟨key, Number.wordMax, 2, 0⟩ := fun m hm => by
        have hm' : d.documentOrder.getD m none = none := hnone m hm
        simp only [orderKey, hm']
      rw [hkey a (hwithin a ha), hkey b (hwithin b hb)]
      exact OrderKey.le_refl _

/-- The string-value of the document node or of an element is made of the
string-values of the text nodes below it, in document order. -/
theorem stringValue_eq_join {s : Scope} {x : Handle} (hdoc : s.docs[x.doc]? = some d)
    (hx : x.node = .document ∨ ∃ id, d.isElement id = true ∧ x.node = .element id) :
    ∃ ts, s.evaluate (.path false [.mk .descendant .text []]) x = .ok (.nodes ts) ∧
      ts.Pairwise (fun a b => Precedes d a.node b.node) ∧
      stringValue s.docs x = String.join (ts.map (stringValue s.docs)) := by
  obtain ⟨n, htop, hn, hvalue⟩ : ∃ n, x.node.top? d = some n ∧ d.isElement n = true ∧
      stringValue s.docs x = elementText d n := by
    rcases hx with hx | ⟨id, hid, hx⟩
    · exact ⟨d.root, by rw [hx]; rfl, hd.root_isElement, by simp only [stringValue, hdoc, hx]⟩
    · exact ⟨id, by rw [hx]; rfl, hid, by simp only [stringValue, hdoc, hx]⟩
  have hlt : n < d.size := lt_size_of_isElement hn
  let ids := (d.descendants n).filter d.hasText
  refine ⟨ids.map fun m => ⟨x.doc, .text m⟩, Scope.evaluate_path.2 ⟨_, ?steps, rfl⟩, ?order, ?value⟩
  case steps =>
    have hstep : s.takeStep x (.mk .descendant .text []) =
        .ok (ids.map fun m => ⟨x.doc, .text m⟩) := by
      rw [Scope.takeStep_bare hdoc,
        Outcome.filterM_of_ok (p := s.passes d .descendant .text) fun _ => rfl]
      exact congrArg Except.ok (filter_isText_descendant hd htop hn)
    rw [Scope.takeSteps_cons, List.mapM_cons, List.mapM_nil, hstep]
    change s.takeSteps (inDocumentOrder s.docs [ids.map fun m => ⟨x.doc, .text m⟩].flatten) [] = _
    rw [List.flatten_singleton, inDocumentOrder_texts hd hdoc hlt, Scope.takeSteps_nil]
  case order =>
    have horder : ids.Pairwise d.Earlier := (hd.pairwise_descendants hlt).filter d.hasText
    exact List.pairwise_map.2 (horder.imp fun hab => Precedes.owners rfl rfl hab)
  case value =>
    have htext : ∀ m, stringValue s.docs ⟨x.doc, .text m⟩ = (d.text? m).getD "" := fun m => by
      simp only [stringValue, hdoc]
    rw [hvalue, elementText, descendantElements, join_texts, List.map_map]
    exact congrArg String.join (List.map_congr_left fun m _ => (htext m).symm)

end WellFormed

/-- `<a>1<!--c--><b>2<c/><b>3</b></b><b>4</b></a>`, with an empty text in `c`;
the first `b` was taken out of the tree. -/
def torn : Document :=
  (Document.ofTree [] { name := .plain "a", text := some "1" } none
    (.node (.comment "c") none .nil
      (.node (.element { name := .plain "b", text := some "2" }) none
        (.node (.element { name := .plain "c", text := some "" }) none .nil
          (.node (.element { name := .plain "b", text := some "3" }) none .nil .nil))
        (.node (.element { name := .plain "b", text := some "4" }) none .nil .nil)))).detach 2

theorem torn_wellFormed : torn.WellFormed :=
  (wellFormed_ofTree (by simp [Forest.Proper, NodeKind.isElement, NodeKind.element?]) _).detach 2

theorem stringValue_eq_join_torn :
    stringValue #[torn] ⟨0, .document⟩ = "14" ∧ stringValue #[torn] ⟨0, .element 2⟩ = "23" ∧
      ∃ ts, Scope.evaluate { docs := #[torn] } (.path false [.mk .descendant .text []])
          ⟨0, .element 2⟩ = .ok (.nodes ts) ∧
        ts = [⟨0, .text 2⟩, ⟨0, .text 4⟩] ∧
        ts.Pairwise (fun a b => Precedes torn a.node b.node) ∧
        "23" = String.join (ts.map (stringValue #[torn])) := by
  have hall : stringValue #[torn] ⟨0, .document⟩ = "14" := by decide +kernel
  have hloose : stringValue #[torn] ⟨0, .element 2⟩ = "23" := by decide +kernel
  have hfound : Scope.evaluate { docs := #[torn] } (.path false [.mk .descendant .text []])
      ⟨0, .element 2⟩ = .ok (.nodes [⟨0, .text 2⟩, ⟨0, .text 4⟩]) := by
    cbv
  obtain ⟨ts, hts, horder, hvalue⟩ := stringValue_eq_join (s := { docs := #[torn] })
    (x := ⟨0, .element 2⟩) torn_wellFormed rfl (.inr ⟨2, by decide +kernel, rfl⟩)
  have hsame : ts = [⟨0, .text 2⟩, ⟨0, .text 4⟩] := by
    rw [hfound] at hts
    cases hts
    rfl
  exact ⟨hall, hloose, ts, hts, hsame, horder, hloose.symm.trans hvalue⟩

end LabelTemplate.XPath
