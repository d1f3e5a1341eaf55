import LabelTemplate.Proofs.Arena.Ranks
import LabelTemplate.Proofs.XPath.Attached
import Mathlib.Data.List.SplitBy

/-!
# Node-sets are in document order

`Precedes` is the document order of all nodes of a tree: the document node
first, then element by element and comment by comment in preorder, and at an
element the element itself, its attributes, its text, and only then what is
below it.

The key by which nodes are sorted tells the nodes of a tree apart and puts
them in this order (`eq_or_precedes_of_le`), so what is sorted by it is
strictly ordered (`pairwise_inDocumentOrder`).  An expression that calls no
library function gets its nodes from steps and unions, which sort, and from
predicates, which leave out; `nodes_inOrder` is the induction over
expressions.
-/

namespace LabelTemplate.XPath

open Xml Document

/-- `a` stands before `b` in document order. -/
inductive Precedes (d : Document) : NodeRef → NodeRef → Prop where
  | document {b : NodeRef} (h : b ≠ .document) : Precedes d .document b
  /-- What belongs to an earlier element comes earlier. -/
  | owners {a b : NodeRef} {m n : NodeId} (ha : a.owner? = some m) (hb : b.owner? = some n)
      (h : Earlier d m n) : Precedes d a b
  | elementAttribute {id : NodeId} {i : Nat} : Precedes d (.element id) (.attribute id i)
  | elementText {id : NodeId} : Precedes d (.element id) (.text id)
  | attributes {id : NodeId} {i j : Nat} (h : i < j) :
      Precedes d (.attribute id i) (.attribute id j)
  | attributeText {id : NodeId} {i : Nat} : Precedes d (.attribute id i) (.text id)

theorem Precedes.ne {d : Document} (hd : d.Linked) {a b : NodeRef} (h : Precedes d a b) :
    a ≠ b := by
  rintro rfl
  cases h with
  | document h => exact h rfl
  | owners ha hb h =>
    rw [ha] at hb
    exact h.ne hd (Option.some.inj hb)
  | attributes h => exact Nat.lt_irrefl _ h

/-! ## Keys -/

namespace OrderKey

theorem le_iff {a b : OrderKey} :
    a.le b = true ↔ a.doc < b.doc ∨ a.doc = b.doc ∧ (a.rank < b.rank ∨ a.rank = b.rank ∧
      (a.kind < b.kind ∨ a.kind = b.kind ∧ a.index ≤ b.index)) := by
  simp [le]

theorem le_refl (a : OrderKey) : a.le a = true := by
  rw [le_iff]
  omega

theorem le_trans {a b c : OrderKey} (hab : a.le b = true) (hbc : b.le c = true) :
    a.le c = true := by
  rw [le_iff] at *
  omega

theorem le_total (a b : OrderKey) : (a.le b || b.le a) = true := by
  rw [Bool.or_eq_true, le_iff, le_iff]
  omega

theorem le_antisymm {a b : OrderKey} (hab : a.le b = true) (hba : b.le a = true) : a = b := by
  rw [le_iff] at *
  obtain ⟨doc, rank, kind, index⟩ := a
  obtain ⟨doc', rank', kind', index'⟩ := b
  simp only [mk.injEq]
  simp only at hab hba
  omega

end OrderKey

/-- The place of a node among those of one element: kind and number. -/
def NodeRef.place : NodeRef → Nat × Nat
  | .document | .element _ | .comment _ => (0, 0)
  | .attribute _ i => (1, i)
  | .text _ => (2, 0)

theorem orderKey_of_owner {ranks : Array (Option Nat)} {h : Handle} {n : NodeId} {r : Nat}
    (hn : h.node.owner? = some n) (hr : ranks.getD n none = some r) :
    orderKey ranks h = ⟨h.doc, r + 1, h.node.place.1, h.node.place.2⟩ := by
  obtain ⟨doc, node⟩ := h
  cases node <;> cases hn <;> simp only [orderKey, hr, NodeRef.place]

theorem exists_owner {d : Document} {a : NodeRef} (ha : a.IsIn d) (hne : a ≠ .document) :
    ∃ n, a.owner? = some n ∧ Within d d.root n := by
  match a, ha with
  | .document, _ => exact absurd rfl hne
  | .element _, ha | .attribute _ _, ha | .text _, ha | .comment _, ha => exact ⟨_, rfl, ha.1⟩

/-- The nodes of one element are told apart and ordered by kind and number. -/
theorem eq_or_precedes_of_place {d : Document} {a b : NodeRef} (ha : a.IsIn d) (hb : b.IsIn d)
    {n : NodeId} (hna : a.owner? = some n) (hnb : b.owner? = some n)
    (hle : a.place.1 < b.place.1 ∨ a.place.1 = b.place.1 ∧ a.place.2 ≤ b.place.2) :
    a = b ∨ a.place ≠ b.place ∧ Precedes d a b := by
  -- a comment has no other node beside it
  have hcomment : d.isElement n = true → d.isComment n ≠ true := fun h => by
    simp [isComment_of_isElement h]
  match a, b, ha, hb, hna, hnb with
  | .element _, .element _, _, _, rfl, rfl => exact .inl rfl
  | .element _, .attribute _ _, _, _, rfl, rfl =>
    exact .inr ⟨by simp [NodeRef.place], .elementAttribute⟩
  | .element _, .text _, _, _, rfl, rfl => exact .inr ⟨by simp [NodeRef.place], .elementText⟩
  | .attribute _ i, .attribute _ j, _, _, rfl, rfl =>
    rcases Nat.lt_or_ge i j with hij | hij
    · exact .inr ⟨by simp [NodeRef.place, Nat.ne_of_lt hij], .attributes hij⟩
    · obtain rfl : i = j := by
        simp only [NodeRef.place] at hle
        omega
      exact .inl rfl
  | .attribute _ _, .text _, _, _, rfl, rfl => exact .inr ⟨by simp [NodeRef.place], .attributeText⟩
  | .text _, .text _, _, _, rfl, rfl => exact .inl rfl
  | .comment _, .comment _, _, _, rfl, rfl => exact .inl rfl
  | .element _, .comment _, ha, hb, rfl, rfl | .attribute _ _, .comment _, ha, hb, rfl, rfl
  | .text _, .comment _, ha, hb, rfl, rfl => exact absurd hb.2 (hcomment ha.2)
  | .comment _, .element _, ha, hb, rfl, rfl | .comment _, .attribute _ _, ha, hb, rfl, rfl
  | .comment _, .text _, ha, hb, rfl, rfl => exact absurd ha.2 (hcomment hb.2)
  | .attribute _ _, .element _, _, _, rfl, rfl | .text _, .element _, _, _, rfl, rfl
  | .text _, .attribute _ _, _, _, rfl, rfl =>
    simp only [NodeRef.place] at hle
    omega

/-- The key tells the nodes of a tree apart and puts them in document
order. -/
theorem eq_or_precedes_of_le {d : Document} (hd : d.WellFormed) {a b : Handle}
    (hdoc : a.doc = b.doc) (ha : a.node.IsIn d) (hb : b.node.IsIn d)
    (hle : (orderKey d.documentOrder a).le (orderKey d.documentOrder b) = true) :
    a = b ∨ orderKey d.documentOrder a ≠ orderKey d.documentOrder b ∧
      Precedes d a.node b.node := by
  obtain ⟨doc, a⟩ := a
  obtain ⟨_, b⟩ := b
  obtain rfl : doc = _ := hdoc
  by_cases hdocB : b = .document
  · subst hdocB
    by_cases hdocA : a = .document
    · exact .inl (by rw [hdocA])
    obtain ⟨m, hm, hmRoot⟩ := exists_owner ha hdocA
    obtain ⟨r, hr⟩ := hd.exists_rank hmRoot
    rw [orderKey_of_owner (h := ⟨doc, a⟩) hm hr, OrderKey.le_iff] at hle
    simp [orderKey] at hle
  obtain ⟨n, hn, hnRoot⟩ := exists_owner hb hdocB
  obtain ⟨s, hs⟩ := hd.exists_rank hnRoot
  rw [orderKey_of_owner (h := ⟨doc, b⟩) hn hs] at hle ⊢
  by_cases hdocA : a = .document
  · subst hdocA
    exact .inr ⟨by simp [orderKey], .document hdocB⟩
  obtain ⟨m, hm, hmRoot⟩ := exists_owner ha hdocA
  obtain ⟨r, hr⟩ := hd.exists_rank hmRoot
  rw [orderKey_of_owner (h := ⟨doc, a⟩) hm hr] at hle ⊢
  rw [OrderKey.le_iff] at hle
  rcases Nat.lt_trichotomy r s with hrs | rfl | hrs
  · exact .inr ⟨by simp [Nat.ne_of_lt hrs], .owners hm hn (hd.earlier_of_rank hr hs hrs)⟩
  · obtain rfl : m = n := Option.some.inj
      ((hd.rank?_eq_some_iff.1 hr).symm.trans (hd.rank?_eq_some_iff.1 hs))
    refine (eq_or_precedes_of_place ha hb hm hn (by simpa using hle)).imp (by rintro rfl; rfl) ?_
    rintro ⟨hne, h⟩
    exact ⟨fun heq => hne (by simpa [Prod.ext_iff] using heq), h⟩
  · simp only at hle
    omega

/-! ## Sorting -/

/-- Groups of equal keys that follow each other in a sorted list have
different keys, also those that are not neighbours. -/
theorem pairwise_ne_of_isChain {gs : List (List (OrderKey × Handle))}
    (hsorted : gs.Pairwise fun g g' => ∀ a ∈ g, ∀ b ∈ g', a.1.le b.1 = true)
    (hsame : ∀ g ∈ gs, ∀ a ∈ g, ∀ b ∈ g, a.1 = b.1)
    (hchain : gs.IsChain fun g g' => ∃ a ∈ g, ∃ b ∈ g', a.1 ≠ b.1) :
    gs.Pairwise fun g g' => ∀ a ∈ g, ∀ b ∈ g', a.1 ≠ b.1 := by
  induction gs with
  | nil => exact .nil
  | cons g gs ih =>
    cases gs with
    | nil => exact List.pairwise_singleton _ _
    | cons next gs =>
      obtain ⟨hfirst, hsorted⟩ := List.pairwise_cons.1 hsorted
      obtain ⟨⟨x, hx, y, hy, hxy⟩, hchain⟩ := List.isChain_cons_cons.1 hchain
      refine List.pairwise_cons.2 ⟨fun g' hg' a ha b hb hab => ?_,
        ih hsorted (fun g' hg' => hsame g' (List.mem_cons_of_mem _ hg')) hchain⟩
      have hax : a.1 = x.1 := hsame g List.mem_cons_self a ha x hx
      rcases List.mem_cons.1 hg' with rfl | hg'
      · exact hxy (hax ▸ hab.trans (hsame g' (by simp) b hb y hy))
      · -- the key of the next group lies between two equal keys
        have hyb : y.1.le b.1 = true := (List.pairwise_cons.1 hsorted).1 g' hg' y hy b hb
        have hay : a.1.le y.1 = true := hfirst next List.mem_cons_self a ha y hy
        exact hxy (hax ▸ OrderKey.le_antisymm hay (hab ▸ hyb))

theorem eq_head_of_isChain {x : OrderKey × Handle} {g : List (OrderKey × Handle)}
    (h : (x :: g).IsChain fun a b => (a.1 == b.1) = true) : ∀ a ∈ x :: g, a.1 = x.1 := by
  induction g generalizing x with
  | nil => simp
  | cons y g ih =>
    obtain ⟨hxy, hchain⟩ := List.isChain_cons_cons.1 h
    intro a ha
    rcases List.mem_cons.1 ha with rfl | ha
    · rfl
    · exact (ih hchain a ha).trans (eq_of_beq hxy).symm

/-- All keys of a group are equal. -/
theorem eq_of_isChain {g : List (OrderKey × Handle)}
    (h : g.IsChain fun a b => (a.1 == b.1) = true) : ∀ a ∈ g, ∀ b ∈ g, a.1 = b.1 := by
  cases g with
  | nil => simp
  | cons x g =>
    intro a ha b hb
    rw [eq_head_of_isChain h a ha, eq_head_of_isChain h b hb]

theorem eraseDups_eq_self {α : Type} [BEq α] [LawfulBEq α] {l : List α} (h : l.Nodup) :
    l.eraseDups = l := by
  induction l with
  | nil => rfl
  | cons a l ih =>
    obtain ⟨ha, hl⟩ := List.nodup_cons.1 h
    rw [List.eraseDups_cons, List.filter_eq_self.2, ih hl]
    intro b hb
    simp only [Bool.not_eq_true', beq_eq_false_iff_ne]
    rintro rfl
    exact ha hb

theorem pairwise_eraseDups {hs : List Handle} (h : ∀ a ∈ hs, ∀ b ∈ hs, a = b)
    (r : Handle → Handle → Prop) : hs.eraseDups.Pairwise r := by
  cases hs with
  | nil => exact .nil
  | cons a hs =>
    have hnone : hs.filter (fun b => !b == a) = [] := by
      rw [List.filter_eq_nil_iff]
      intro b hb
      simp [h b (List.mem_cons_of_mem _ hb) a List.mem_cons_self]
    rw [List.eraseDups_cons, hnone]
    exact List.pairwise_singleton _ _

/-- A sorted list whose keys tell its nodes apart, one node of each key. -/
theorem pairwise_places {r : Handle → Handle → Prop} {sorted : List (OrderKey × Handle)}
    (hsorted : sorted.Pairwise fun a b => a.1.le b.1 = true)
    (hr : ∀ a ∈ sorted, ∀ b ∈ sorted, a.1.le b.1 = true →
      a = b ∨ a.1 ≠ b.1 ∧ r a.2 b.2) :
    ((sorted.splitBy fun a b => a.1 == b.1).flatMap
      fun place => (place.map (·.2)).eraseDups).Pairwise r := by
  have hmem : ∀ place ∈ sorted.splitBy (fun a b => a.1 == b.1), ∀ a ∈ place, a ∈ sorted :=
    fun place hplace a ha => by
      have hflat := List.mem_flatten.2 ⟨place, hplace, ha⟩
      rwa [List.flatten_splitBy] at hflat
  have hsame : ∀ place ∈ sorted.splitBy (fun a b => a.1 == b.1),
      ∀ a ∈ place, ∀ b ∈ place, a.1 = b.1 := fun place hplace =>
    eq_of_isChain (List.isChain_of_mem_splitBy hplace)
  rw [← List.flatten_splitBy (fun a b => a.1 == b.1) sorted, List.pairwise_flatten] at hsorted
  have happart := pairwise_ne_of_isChain hsorted.2 hsame
    ((List.isChain_getLast_head_splitBy _ sorted).imp fun g g' ⟨hg, hg', hne⟩ =>
      ⟨_, List.getLast_mem hg, _, List.head_mem hg', by simpa using hne⟩)
  refine List.pairwise_flatMap.2 ⟨fun place hplace => pairwise_eraseDups ?_ r, ?_⟩
  · rintro _ hma _ hmb
    obtain ⟨a, ha, rfl⟩ := List.mem_map.1 hma
    obtain ⟨b, hb, rfl⟩ := List.mem_map.1 hmb
    have hkey := hsame place hplace a ha b hb
    rcases hr a (hmem place hplace a ha) b (hmem place hplace b hb)
      (hkey ▸ OrderKey.le_refl a.1) with rfl | ⟨hne, -⟩
    · rfl
    · exact absurd hkey hne
  · refine (hsorted.2.and happart).imp_of_mem fun {g g'} hg hg' ⟨hle, hne⟩ => ?_
    rintro _ hma _ hmb
    obtain ⟨a, ha, rfl⟩ := List.mem_map.1 (List.mem_eraseDups.1 hma)
    obtain ⟨b, hb, rfl⟩ := List.mem_map.1 (List.mem_eraseDups.1 hmb)
    rcases hr a (hmem g hg a ha) b (hmem g' hg' b hb) (hle a ha b hb) with rfl | ⟨-, h⟩
    · exact absurd rfl (hne a ha a hb)
    · exact h

theorem mem_places {sorted : List (OrderKey × Handle)} {h : Handle} :
    h ∈ ((sorted.splitBy fun a b => a.1 == b.1).flatMap
      fun place => (place.map (·.2)).eraseDups) ↔ ∃ p ∈ sorted, p.2 = h := by
  have hflat : ∀ p, p ∈ sorted ↔ ∃ place ∈ sorted.splitBy (fun a b => a.1 == b.1), p ∈ place := by
    intro p
    rw [← List.mem_flatten, List.flatten_splitBy]
  simp only [List.mem_flatMap, List.mem_eraseDups, List.mem_map, hflat]
  constructor
  · rintro ⟨place, hplace, p, hp, rfl⟩
    exact ⟨p, ⟨place, hplace, hp⟩, rfl⟩
  · rintro ⟨p, ⟨place, hplace, hp⟩, rfl⟩
    exact ⟨place, hplace, p, hp, rfl⟩

section InDocumentOrder

variable {docs : Documents} {hs : List Handle}

/-- Putting nodes in order loses none of them and adds none. -/
theorem mem_inDocumentOrder {h : Handle} : h ∈ inDocumentOrder docs hs ↔ h ∈ hs := by
  unfold inDocumentOrder
  split
  · rfl
  · rw [mem_places]
    simp [(List.mergeSort_perm _ _).mem_iff]

theorem inDocumentOrder_subset : inDocumentOrder docs hs ⊆ hs := fun _ => mem_inDocumentOrder.1

theorem lookup_ranksFor_of_mem {d : Document} {h : Handle} (hh : h ∈ hs)
    (hdoc : docs[h.doc]? = some d) : (ranksFor docs hs).lookup h.doc = some d.documentOrder := by
  have hmem : h.doc ∈ (hs.map (·.doc)).eraseDups :=
    List.mem_eraseDups.2 (List.mem_map.2 ⟨h, hh, rfl⟩)
  rw [ranksFor, List.lookup_graph _ hmem, hdoc]

/-- Nodes of one tree are put into strict document order. -/
theorem pairwise_inDocumentOrder {d : Document} (hd : d.WellFormed) {key : DocKey}
    (hdoc : docs[key]? = some d) (hin : AllIn d key hs) :
    (inDocumentOrder docs hs).Pairwise fun a b => Precedes d a.node b.node := by
  have hranks : ∀ h ∈ hs, (ranksFor docs hs).lookup h.doc = some d.documentOrder := fun h hh =>
    lookup_ranksFor_of_mem hh ((hin h hh).1 ▸ hdoc)
  unfold inDocumentOrder
  split
  · match hs with
    | [] => exact .nil
    | [h] => exact List.pairwise_singleton _ _
  simp only
  have hkeyed : ∀ p ∈ (hs.map fun h =>
      (orderKey (((ranksFor docs hs).lookup h.doc).getD #[]) h, h)).mergeSort
        fun a b => a.1.le b.1,
      p.1 = orderKey d.documentOrder p.2 ∧ p.2.doc = key ∧ p.2.node.IsIn d := by
    intro p hp
    rw [(List.mergeSort_perm _ _).mem_iff] at hp
    obtain ⟨h, hh, rfl⟩ := List.mem_map.1 hp
    exact ⟨by rw [hranks h hh, Option.getD_some], hin h hh⟩
  refine pairwise_places ?_ fun a ha b hb hle => ?_
  · refine List.pairwise_mergeSort ?_ ?_ _
    · exact fun _ _ _ => OrderKey.le_trans
    · exact fun a b => OrderKey.le_total a.1 b.1
  obtain ⟨hka, hdocA, hinA⟩ := hkeyed a ha
  obtain ⟨hkb, hdocB, hinB⟩ := hkeyed b hb
  rw [hka, hkb] at hle ⊢
  refine (eq_or_precedes_of_le hd (hdocA.trans hdocB.symm) hinA hinB hle).imp_left fun hab => ?_
  exact Prod.ext (by rw [hka, hkb, hab]) hab

/-- Nodes that stand in order, each once, stay as they are. -/
theorem inDocumentOrder_eq_self (hnodup : hs.Nodup)
    (hsorted : hs.Pairwise fun a b =>
      (orderKey (((ranksFor docs hs).lookup a.doc).getD #[]) a).le
        (orderKey (((ranksFor docs hs).lookup b.doc).getD #[]) b) = true) :
    inDocumentOrder docs hs = hs := by
  unfold inDocumentOrder
  split
  · rfl
  simp only
  generalize hkeyed : (hs.map fun h =>
    (orderKey (((ranksFor docs hs).lookup h.doc).getD #[]) h, h)) = keyed
  have hnodes : keyed.map (·.2) = hs := by
    rw [← hkeyed, List.map_map]
    exact List.map_id hs
  have hpairwise : keyed.Pairwise fun a b => a.1.le b.1 = true := by
    rw [← hkeyed, List.pairwise_map]
    exact hsorted
  have hplaces : (keyed.splitBy fun a b => a.1 == b.1).flatten = keyed := List.flatten_splitBy _ _
  have hplace : ∀ place ∈ keyed.splitBy fun a b => a.1 == b.1,
      (place.map (·.2)).eraseDups = place.map (·.2) := fun place hplace => by
    refine eraseDups_eq_self (List.Nodup.sublist ?_ hnodup)
    rw [← hnodes]
    refine List.Sublist.map _ ?_
    rw [← hplaces]
    exact List.sublist_flatten_of_mem hplace
  rw [List.mergeSort_of_pairwise hpairwise, List.flatMap_congr hplace, List.flatMap_def,
    ← List.map_flatten, hplaces, hnodes]

end InDocumentOrder

end LabelTemplate.XPath
