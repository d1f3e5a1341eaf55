import LabelTemplate.Proofs.Arena.Preorder
import LabelTemplate.Proofs.Walk.Drafted

/-!
# Drafts with the ids of their nodes

The export goes along its queue, not along the tree: it takes an item and
changes the one node that the item is about.  `Numbered` is a draft in which
every node has its id, so that this change is the replacement of one node
(`Replaced`).  The ids of a part of an arena are distinct (`nodup_ids`), so a
replacement in the arena is one in the draft (`Replaced.in`), and what is open
besides stays open (`Replaced.collect`).
-/

namespace LabelTemplate

open Xml Document

inductive Numbered where
  | nil
  | node (id : NodeId) (kind : NodeKind) (line : Option Nat) (pending : Pending)
      (kids rest : Numbered)

namespace Numbered

def append : Numbered → Numbered → Numbered
  | nil, τ => τ
  | node id kind line pending kids rest, τ => node id kind line pending kids (rest.append τ)

instance : Append Numbered := ⟨append⟩

/-- The draft without the ids. -/
def draft : Numbered → Draft
  | nil => .nil
  | node _ kind line pending kids rest => .node kind line pending kids.draft rest.draft

/-- The ids of the roots. -/
def tops : Numbered → List NodeId
  | nil => []
  | node id _ _ _ _ rest => id :: rest.tops

/-- What is picked of each node, in document order. -/
def collect {α : Type} (pick : NodeId → Pending → Option α) : Numbered → List α
  | nil => []
  | node id _ _ pending kids rest =>
    (pick id pending).toList ++ kids.collect pick ++ rest.collect pick

/-- All ids, in document order. -/
def ids (τ : Numbered) : List NodeId := τ.collect fun id _ => some id

/-- The open decisions of one kind, each with the node it is about. -/
def items {α : Type} (pick : Pending → Option α) (τ : Numbered) : List (NodeId × α) :=
  τ.collect fun id pending => (pick pending).map (id, ·)

/-- The nodes are those of an arena. -/
def In (d : Document) : Numbered → Prop
  | nil => True
  | node id kind line _ kids rest =>
    (∃ x, d.node? id = some x ∧ x.kind = kind ∧ x.line = line ∧ x.children = kids.tops) ∧
      kids.In d ∧ rest.In d

section Append

variable {α : Type} {pick : NodeId → Pending → Option α} {d : Document} (τ υ : Numbered)

@[simp] theorem nil_append : nil ++ τ = τ := rfl

@[simp] theorem node_append (id : NodeId) (kind : NodeKind) (line : Option Nat)
    (pending : Pending) (kids rest : Numbered) :
    node id kind line pending kids rest ++ τ = node id kind line pending kids (rest ++ τ) := rfl

@[simp] theorem draft_append : (τ ++ υ).draft = τ.draft ++ υ.draft := by
  induction τ with
  | nil => rfl
  | node id kind line pending kids rest _ ih =>
    rw [node_append, draft, draft, ih, Draft.node_append]

@[simp] theorem tops_append : (τ ++ υ).tops = τ.tops ++ υ.tops := by
  induction τ with
  | nil => rfl
  | node id kind line pending kids rest _ ih => rw [node_append, tops, tops, ih, List.cons_append]

@[simp] theorem collect_append : (τ ++ υ).collect pick = τ.collect pick ++ υ.collect pick := by
  induction τ with
  | nil => rfl
  | node id kind line pending kids rest _ ih =>
    rw [node_append, collect, collect, ih]
    simp only [List.append_assoc]

theorem in_append : (τ ++ υ).In d ↔ τ.In d ∧ υ.In d := by
  induction τ with
  | nil => exact (and_iff_right trivial).symm
  | node id kind line pending kids rest _ ih =>
    rw [node_append, In, In, ih]
    simp only [and_assoc]

end Append

variable {d e : Document} {τ υ : Numbered}

theorem mem_ids_of_mem_tops {n : NodeId} (h : n ∈ τ.tops) : n ∈ τ.ids := by
  induction τ with
  | nil => cases h
  | node id kind line pending kids rest _ ih =>
    rcases List.mem_cons.1 h with rfl | h
    · simp [ids, collect]
    · exact List.mem_append_right _ (ih h)

theorem ids_node (id : NodeId) (kind : NodeKind) (line : Option Nat) (pending : Pending)
    (kids rest : Numbered) :
    (node id kind line pending kids rest).ids = id :: (kids.ids ++ rest.ids) := rfl

section Items

variable {α : Type} {pick : Pending → Option α} {id : NodeId} {kind : NodeKind}
  {line : Option Nat} {pending : Pending} {kids rest : Numbered}

theorem mem_items_node {v : NodeId × α} :
    v ∈ (node id kind line pending kids rest).items pick ↔
      (id = v.1 ∧ pick pending = some v.2) ∨ v ∈ kids.items pick ∨ v ∈ rest.items pick := by
  obtain ⟨n, a⟩ := v
  simp only [items, collect, List.mem_append, Option.mem_toList, Option.map_eq_some_iff,
    Prod.mk.injEq, or_assoc]
  refine or_congr_left ⟨?_, fun ⟨hid, ha⟩ => ⟨a, ha, hid, rfl⟩⟩
  rintro ⟨_, ha, hid, rfl⟩
  exact ⟨hid, ha⟩

theorem items_node_eq_nil :
    (node id kind line pending kids rest).items pick = [] ↔
      pick pending = none ∧ kids.items pick = [] ∧ rest.items pick = [] := by
  simp only [items, collect, List.append_eq_nil_iff, Option.toList_eq_nil_iff,
    Option.map_eq_none_iff, and_assoc]

end Items

theorem mem_ids_of_mem_items {α : Type} {pick : Pending → Option α} {v : NodeId × α}
    (h : v ∈ τ.items pick) : v.1 ∈ τ.ids := by
  induction τ with
  | nil => cases h
  | node id kind line pending kids rest ihkids ihrest =>
    rw [ids_node, List.mem_cons, List.mem_append]
    rcases mem_items_node.1 h with ⟨rfl, -⟩ | h | h
    · exact .inl rfl
    · exact .inr (.inl (ihkids h))
    · exact .inr (.inr (ihrest h))

theorem In.spells (h : τ.In d) : Spells d τ.tops τ.draft.forest := by
  induction τ with
  | nil => exact .nil
  | node id kind line pending kids rest ihkids ihrest =>
    obtain ⟨⟨x, hx, rfl, rfl, hchildren⟩, hkids, hrest⟩ := h
    refine .node hx ?_ (ihrest hrest)
    rw [hchildren]
    exact ihkids hkids

/-- A draft in an arena with its ids. -/
theorem exists_numbered {δ : Draft} {ns : List NodeId} (h : Spells d ns δ.forest) :
    ∃ τ : Numbered, τ.draft = δ ∧ τ.tops = ns ∧ τ.In d ∧
      ∀ {α : Type} (pick : Pending → Option α), τ.items pick = δ.items pick d ns := by
  induction δ generalizing ns with
  | nil =>
    cases h
    exact ⟨.nil, rfl, rfl, trivial, fun _ => rfl⟩
  | node kind line pending kids rest ihkids ihrest =>
    cases h with
    | @node n ns x _ _ hx hkids hrest =>
      obtain ⟨κ, rfl, htops, hin, hitems⟩ := ihkids hkids
      obtain ⟨ρ, rfl, rfl, hin', hitems'⟩ := ihrest hrest
      refine ⟨.node n x.kind x.line pending κ ρ, rfl, rfl, ⟨⟨x, hx, rfl, rfl, htops.symm⟩, hin, hin'⟩,
        fun pick => ?_⟩
      rw [Draft.items_node, children_of_node? hx, ← hitems, ← hitems']
      rfl

theorem within_of_mem_ids (hd : d.Linked) (h : τ.In d) {m : NodeId} (hm : m ∈ τ.ids) :
    ∃ n ∈ τ.tops, Within d n m := by
  induction τ with
  | nil => cases hm
  | node id kind line pending kids rest ihkids ihrest =>
    obtain ⟨⟨x, hx, -, -, hchildren⟩, hkids, hrest⟩ := h
    rw [ids_node, List.mem_cons, List.mem_append] at hm
    rcases hm with rfl | hm | hm
    · exact ⟨m, List.mem_cons_self, within_self d m⟩
    · obtain ⟨c, hc, hw⟩ := ihkids hkids hm
      rw [← hchildren, ← children_of_node? hx, ← hd.parent_iff_child] at hc
      exact ⟨id, List.mem_cons_self, (within_of_parent? hc (within_self d id)).trans hw⟩
    · obtain ⟨c, hc, hw⟩ := ihrest hrest hm
      exact ⟨c, List.mem_cons_of_mem _ hc, hw⟩

/-- Siblings and what hangs below them are distinct nodes. -/
theorem nodup_ids (hd : d.Linked) (h : τ.In d) (hnodup : τ.tops.Nodup) (q : Option NodeId)
    (hq : ∀ n ∈ τ.tops, d.parent? n = q) : τ.ids.Nodup := by
  induction τ generalizing q with
  | nil => exact .nil
  | node id kind line pending kids rest ihkids ihrest =>
    obtain ⟨⟨x, hx, -, -, hchildren⟩, hkids, hrest⟩ := h
    have hkid : ∀ c ∈ kids.tops, d.parent? c = some id := fun c hc => by
      rwa [hd.parent_iff_child, children_of_node? hx, hchildren]
    have hbelow : ∀ m ∈ kids.ids, Below d id m := fun m hm => by
      obtain ⟨c, hc, hw⟩ := within_of_mem_ids hd hkids hm
      exact hw.below (hkid c hc)
    have hbeside : ∀ m ∈ rest.ids, ¬ Within d id m := fun m hm hw => by
      obtain ⟨c, hc, hwc⟩ := within_of_mem_ids hd hrest hm
      have hsame : id = c := hd.not_within_siblings
        ((hq id List.mem_cons_self).trans (hq c (List.mem_cons_of_mem _ hc)).symm) hw hwc
      exact (List.nodup_cons.1 hnodup).1 (hsame ▸ hc)
    rw [ids_node, List.nodup_cons, List.nodup_append, List.mem_append, not_or]
    refine ⟨⟨fun hm => hd.acyclic id (hbelow id hm), fun hm => hbeside id hm (within_self d id)⟩,
      ihkids hkids ?_ _ hkid, ihrest hrest (List.nodup_cons.1 hnodup).2 q
        fun n hn => hq n (List.mem_cons_of_mem _ hn), ?_⟩
    · rw [← hchildren, ← children_of_node? hx]
      exact hd.children_nodup id
    · rintro m hm m' hm' rfl
      exact hbeside m hm' (.inr (hbelow m hm))

/-! ## Replacing a node -/

/-- In one draft a node stands where the other has `υ`. -/
inductive Replaced (id : NodeId) (kind : NodeKind) (line : Option Nat) (pending : Pending)
    (kids υ : Numbered) : Numbered → Numbered → Prop
  | here (rest : Numbered) :
    Replaced id kind line pending kids υ (.node id kind line pending kids rest) (υ ++ rest)
  | inside {m : NodeId} {k : NodeKind} {l : Option Nat} {p : Pending} {τ τ' : Numbered}
      (rest : Numbered) (h : Replaced id kind line pending kids υ τ τ') :
    Replaced id kind line pending kids υ (.node m k l p τ rest) (.node m k l p τ' rest)
  | beside {m : NodeId} {k : NodeKind} {l : Option Nat} {p : Pending} {τ τ' : Numbered}
      (below : Numbered) (h : Replaced id kind line pending kids υ τ τ') :
    Replaced id kind line pending kids υ (.node m k l p below τ) (.node m k l p below τ')

/-- A node of which something is open can be replaced. -/
theorem exists_replaced {α : Type} {pick : Pending → Option α} {n : NodeId} {a : α}
    (h : (n, a) ∈ τ.items pick) :
    ∃ kind line pending kids, pick pending = some a ∧
      ∀ υ, ∃ τ', Replaced n kind line pending kids υ τ τ' := by
  induction τ with
  | nil => cases h
  | node id kind line pending kids rest ihkids ihrest =>
    rcases mem_items_node.1 h with ⟨rfl, ha⟩ | h | h
    · exact ⟨kind, line, pending, kids, ha, fun υ => ⟨_, .here rest⟩⟩
    · obtain ⟨k, l, p, κ, hp, hreplace⟩ := ihkids h
      exact ⟨k, l, p, κ, hp, fun υ => (hreplace υ).imp' _ fun _ => .inside rest⟩
    · obtain ⟨k, l, p, κ, hp, hreplace⟩ := ihrest h
      exact ⟨k, l, p, κ, hp, fun υ => (hreplace υ).imp' _ fun _ => .beside kids⟩

namespace Replaced

variable {n : NodeId} {kind : NodeKind} {line : Option Nat} {pending : Pending}
  {kids τ' : Numbered}

/-- What is picked elsewhere is the same. -/
theorem collect {α : Type} (h : Replaced n kind line pending kids υ τ τ')
    (pick : NodeId → Pending → Option α) :
    ∃ before after,
      τ.collect pick = before ++ ((pick n pending).toList ++ kids.collect pick) ++ after ∧
      τ'.collect pick = before ++ υ.collect pick ++ after := by
  induction h with
  | here rest => exact ⟨[], rest.collect pick, rfl, collect_append υ rest⟩
  | @inside m k l p τ τ' rest _ ih =>
    obtain ⟨before, after, hτ, hτ'⟩ := ih
    refine ⟨(pick m p).toList ++ before, after ++ rest.collect pick, ?_, ?_⟩
    · rw [Numbered.collect, hτ]
      simp only [List.append_assoc]
    · rw [Numbered.collect, hτ']
      simp only [List.append_assoc]
  | @beside m k l p τ τ' below _ ih =>
    obtain ⟨before, after, hτ, hτ'⟩ := ih
    refine ⟨(pick m p).toList ++ below.collect pick ++ before, after, ?_, ?_⟩
    · rw [Numbered.collect, hτ]
      simp only [List.append_assoc]
    · rw [Numbered.collect, hτ']
      simp only [List.append_assoc]

theorem mem_ids (h : Replaced n kind line pending kids υ τ τ') : n ∈ τ.ids := by
  obtain ⟨before, after, hτ, -⟩ := h.collect fun id _ => some id
  rw [ids, hτ]
  simp

theorem not_mem_kids (h : Replaced n kind line pending kids υ τ τ') (hnodup : τ.ids.Nodup) :
    n ∉ kids.ids := by
  obtain ⟨before, after, hτ, -⟩ := h.collect fun id _ => some id
  rw [ids, hτ, List.append_assoc, List.nodup_append, List.nodup_append] at hnodup
  exact (List.nodup_cons.1 hnodup.2.1.1).1

/-- The node itself is one of the arena. -/
theorem in_node (h : Replaced n kind line pending kids υ τ τ') (hτ : τ.In d) :
    (node n kind line pending kids .nil).In d := by
  induction h with
  | here rest => exact ⟨hτ.1, hτ.2.1, trivial⟩
  | inside rest _ ih => exact ih hτ.2.1
  | beside below _ ih => exact ih hτ.2.2

/-- The children of a node after the replacement. -/
def replace (n : NodeId) (left : List NodeId) (ns : List NodeId) : List NodeId :=
  ns.flatMap fun c => if c = n then left else [c]

theorem replace_cons_self (n : NodeId) (left ns : List NodeId) :
    replace n left (n :: ns) = left ++ replace n left ns := by
  rw [replace, List.flatMap_cons, if_pos rfl, replace]

theorem replace_cons_of_ne {c : NodeId} (h : c ≠ n) (left ns : List NodeId) :
    replace n left (c :: ns) = c :: replace n left ns := by
  rw [replace, List.flatMap_cons, if_neg h, replace, List.singleton_append]

theorem replace_of_not_mem {ns : List NodeId} (left : List NodeId) (h : n ∉ ns) :
    replace n left ns = ns := by
  induction ns with
  | nil => rfl
  | cons c ns ih =>
    rw [List.mem_cons, not_or] at h
    rw [replace_cons_of_ne (Ne.symm h.1), ih h.2]

@[simp] theorem replace_self (n : NodeId) (ns : List NodeId) : replace n [n] ns = ns := by
  induction ns with
  | nil => rfl
  | cons c ns ih =>
    by_cases h : c = n
    · rw [h, replace_cons_self, ih, List.singleton_append]
    · rw [replace_cons_of_ne h, ih]

/-- With nothing in its place the node is left out. -/
theorem replace_nil {ns : List NodeId} (h : ns.Nodup) : replace n [] ns = ns.erase n := by
  induction ns with
  | nil => rfl
  | cons c ns ih =>
    rw [List.nodup_cons] at h
    by_cases hcn : c = n
    · rw [hcn, replace_cons_self, List.erase_cons_head, replace_of_not_mem _ (hcn ▸ h.1)]
      rfl
    · rw [replace_cons_of_ne hcn, ih h.2, List.erase_cons_tail (by simpa using hcn)]

theorem tops (h : Replaced n kind line pending kids υ τ τ') (hnodup : τ.ids.Nodup) :
    τ'.tops = replace n υ.tops τ.tops := by
  induction h with
  | here rest =>
    rw [ids_node, List.nodup_cons, List.mem_append, not_or] at hnodup
    rw [tops_append, Numbered.tops, replace_cons_self,
      replace_of_not_mem _ fun hm => hnodup.1.2 (mem_ids_of_mem_tops hm)]
  | @inside m k l p τ τ' rest h _ =>
    rw [ids_node, List.nodup_cons, List.mem_append, not_or, List.nodup_append] at hnodup
    obtain ⟨⟨hm, -⟩, -, -, hapart⟩ := hnodup
    rw [Numbered.tops, Numbered.tops, replace_cons_of_ne fun hmn : m = n => hm (hmn ▸ h.mem_ids),
      replace_of_not_mem _ fun hn => hapart n h.mem_ids n (mem_ids_of_mem_tops hn) rfl]
  | @beside m k l p τ τ' below h ih =>
    rw [ids_node, List.nodup_cons, List.mem_append, not_or, List.nodup_append] at hnodup
    obtain ⟨⟨-, hm⟩, -, hrest, -⟩ := hnodup
    rw [Numbered.tops, Numbered.tops, replace_cons_of_ne fun hmn : m = n => hm (hmn ▸ h.mem_ids), ih hrest]

end Replaced

/-- A change of an arena that puts some nodes in the place of one. -/
def Exchanged (d : Document) (n : NodeId) (left : List NodeId) (e : Document) : Prop :=
  ∀ m x, m ≠ n → d.node? m = some x → ∃ y, e.node? m = some y ∧ y.kind = x.kind ∧
    y.line = x.line ∧ y.children = Replaced.replace n left x.children

theorem In.exchanged {n : NodeId} {left : List NodeId} (h : τ.In d) (hde : Exchanged d n left e)
    (hn : n ∉ τ.ids) : τ.In e := by
  induction τ with
  | nil => trivial
  | node id kind line pending kids rest ihkids ihrest =>
    rw [ids_node, List.mem_cons, List.mem_append, not_or, not_or] at hn
    obtain ⟨⟨x, hx, rfl, rfl, hchildren⟩, hkids, hrest⟩ := h
    obtain ⟨y, hy, hkind, hline, hy'⟩ := hde id x (Ne.symm hn.1) hx
    refine ⟨⟨y, hy, hkind, hline, ?_⟩, ihkids hkids hn.2.1, ihrest hrest hn.2.2⟩
    rw [hy', hchildren, Replaced.replace_of_not_mem _ fun hm => hn.2.1 (mem_ids_of_mem_tops hm)]

/-- A node that is exchanged in the arena is replaced in the draft. -/
theorem Replaced.in {n : NodeId} {kind : NodeKind} {line : Option Nat} {pending : Pending}
    {kids τ' : Numbered} (h : Replaced n kind line pending kids υ τ τ') (hτ : τ.In d)
    (hnodup : τ.ids.Nodup) (hde : Exchanged d n υ.tops e) (hυ : υ.In e) : τ'.In e := by
  induction h with
  | here rest =>
    rw [ids_node, List.nodup_cons, List.mem_append, not_or] at hnodup
    exact (in_append υ rest).2 ⟨hυ, hτ.2.2.exchanged hde hnodup.1.2⟩
  | @inside m k l p τ τ' rest h ih =>
    rw [ids_node, List.nodup_cons, List.mem_append, not_or, List.nodup_append] at hnodup
    obtain ⟨⟨hm, -⟩, hinner, -, hapart⟩ := hnodup
    obtain ⟨⟨x, hx, rfl, rfl, hchildren⟩, hτ, hrest⟩ := hτ
    obtain ⟨y, hy, hkind, hline, hy'⟩ := hde m x (fun hmn => hm (hmn ▸ h.mem_ids)) hx
    refine ⟨⟨y, hy, hkind, hline, ?_⟩, ih hτ hinner, hrest.exchanged hde fun hn =>
      hapart n h.mem_ids n hn rfl⟩
    rw [hy', hchildren, h.tops hinner]
  | @beside m k l p τ τ' below h ih =>
    rw [ids_node, List.nodup_cons, List.mem_append, not_or, List.nodup_append] at hnodup
    obtain ⟨⟨-, hm⟩, -, hinner, hapart⟩ := hnodup
    obtain ⟨⟨x, hx, rfl, rfl, hchildren⟩, hbelow, hτ⟩ := hτ
    have hn : n ∉ below.ids := fun hn => hapart n hn n h.mem_ids rfl
    obtain ⟨y, hy, hkind, hline, hy'⟩ := hde m x (fun hmn => hm (hmn ▸ h.mem_ids)) hx
    refine ⟨⟨y, hy, hkind, hline, ?_⟩, hbelow.exchanged hde hn, ih hτ hinner⟩
    rw [hy', hchildren, replace_of_not_mem _ fun hn' => hn (mem_ids_of_mem_tops hn')]

end Numbered

end LabelTemplate
