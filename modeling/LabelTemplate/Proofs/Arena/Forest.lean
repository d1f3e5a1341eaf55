import LabelTemplate.Proofs.Arena.Links

/-!
# Forests

A forest is the value of a list of nodes: their kinds, their lines and what
is below them, without any ids.  It is a list of trees, written as one
inductive type, so that one induction goes through the levels and along the
siblings.

* `Spells d ns f` says that the nodes `ns` of `d` and what hangs below them
  are the forest `f`.
* `graft` puts a forest into an arena, every node with the next free id, in
  preorder.  Reading a document and copying a subtree both build this arena.
-/

namespace LabelTemplate.Xml

inductive Forest where
  | nil
  /-- A node, the forest of its children, and the trees after it. -/
  | node (kind : NodeKind) (line : Option Nat) (kids rest : Forest)
  deriving DecidableEq, Repr, Inhabited

namespace Forest

/-- The number of nodes. -/
def size : Forest → Nat
  | nil => 0
  | node _ _ kids rest => kids.size + 1 + rest.size

/-- The number of levels. -/
def height : Forest → Nat
  | nil => 0
  | node _ _ kids rest => max (kids.height + 1) rest.height

/-- The trees of one forest, then those of another. -/
def append : Forest → Forest → Forest
  | nil, g => g
  | node k l kids rest, g => node k l kids (rest.append g)

instance : Append Forest := ⟨append⟩

@[simp] theorem nil_append (g : Forest) : nil ++ g = g := rfl

@[simp] theorem node_append (k : NodeKind) (l : Option Nat) (kids rest g : Forest) :
    node k l kids rest ++ g = node k l kids (rest ++ g) := rfl

@[simp] theorem append_nil (f : Forest) : f ++ nil = f := by
  induction f with
  | nil => rfl
  | node k l kids rest _ ih => rw [node_append, ih]

theorem append_eq_nil_iff {f g : Forest} : f ++ g = nil ↔ f = nil ∧ g = nil := by
  cases f <;> simp

theorem append_assoc (f g h : Forest) : f ++ g ++ h = f ++ (g ++ h) := by
  induction f with
  | nil => rfl
  | node k l kids rest _ ih => rw [node_append, node_append, node_append, ih]

@[simp] theorem size_append (f g : Forest) : (f ++ g).size = f.size + g.size := by
  induction f with
  | nil => simp [size]
  | node k l kids rest _ ih =>
    simp only [node_append, size, ih]
    omega

/-- Only elements have children. -/
def Proper : Forest → Prop
  | nil => True
  | node k _ kids rest => (kids ≠ nil → k.isElement = true) ∧ kids.Proper ∧ rest.Proper

/-- The ids that the roots get when the first free id is `base`. -/
def roots : Forest → (base : Nat) → List NodeId
  | nil, _ => []
  | node _ _ kids rest, base => base :: rest.roots (base + 1 + kids.size)

theorem roots_eq_nil_iff {f : Forest} {base : Nat} : f.roots base = [] ↔ f = nil := by
  cases f <;> simp [roots]

end Forest

namespace Document

/-! ## Adding a node -/

/-- Adds a node with the next free id as last child of `par`, or detached. -/
def sprout (d : Document) (par : Option NodeId) (kind : NodeKind) (line : Option Nat) :
    Document :=
  let d' : Document := { d with nodes := d.nodes.push { kind, parent := par, line } }
  match par with
  | none => d'
  | some p => d'.updateNode p fun node => { node with children := node.children ++ [d.size] }

section Sprout

variable (d : Document) (par : Option NodeId) (kind : NodeKind) (line : Option Nat)

@[simp] theorem root_sprout : (d.sprout par kind line).root = d.root := by
  cases par <;> rfl

@[simp] theorem size_sprout : (d.sprout par kind line).size = d.size + 1 := by
  cases par with
  | none => simp [sprout, size]
  | some p =>
    rw [sprout, size_updateNode]
    simp [size]

/-- What the new node is, and which node got a new child. -/
theorem node?_sprout (hpar : ∀ p, par = some p → p < d.size) (m : NodeId) :
    (d.sprout par kind line).node? m =
      if m = d.size then some { kind, parent := par, line }
      else if par = some m then
        (d.node? m).map fun node => { node with children := node.children ++ [d.size] }
      else d.node? m := by
  have hpush : ({ d with nodes := d.nodes.push { kind, parent := par, line } } :
      Document).node? m = if m = d.size then some { kind, parent := par, line }
        else d.node? m := node?_push d _ m
  cases par with
  | none =>
    rw [sprout, hpush]
    simp
  | some p =>
    have hp : p < d.size := hpar p rfl
    rw [sprout, node?_updateNode, hpush]
    by_cases hm : m = d.size
    · have hne : p ≠ m := hm ▸ Nat.ne_of_lt hp
      rw [if_pos hm, if_neg hne, if_pos hm]
    · simp only [if_neg hm, Option.some.injEq]

variable (hpar : ∀ p, par = some p → p < d.size)

include hpar

theorem kind?_sprout (m : NodeId) :
    (d.sprout par kind line).kind? m = if m = d.size then some kind else d.kind? m := by
  simp only [kind?, node?_sprout d par kind line hpar]
  split_ifs <;> cases d.node? m <;> rfl

theorem parent?_sprout (m : NodeId) :
    (d.sprout par kind line).parent? m = if m = d.size then par else d.parent? m := by
  simp only [parent?, node?_sprout d par kind line hpar]
  split_ifs <;> cases d.node? m <;> rfl

theorem children_sprout (m : NodeId) :
    (d.sprout par kind line).children m =
      if par = some m then d.children m ++ [d.size] else d.children m := by
  simp only [children, node?_sprout d par kind line hpar]
  by_cases hm : m = d.size
  · subst hm
    have hne : par ≠ some d.size := fun h => Nat.lt_irrefl _ (hpar _ h)
    have hnone : d.node? d.size = none := node?_eq_none_iff.2 (Nat.le_refl _)
    rw [if_pos rfl, if_neg hne, hnone]
  · rw [if_neg hm]
    by_cases hp : par = some m
    · obtain ⟨x, hx⟩ := exists_node? (hpar m hp)
      simp [hp, hx]
    · simp [hp]

end Sprout

/-- A new leaf keeps the links, also below an element. -/
theorem Linked.sprout {d : Document} (hd : d.Linked) {par : Option NodeId}
    (hpar : ∀ p, par = some p → d.isElement p = true) (kind : NodeKind) (line : Option Nat) :
    (d.sprout par kind line).Linked := by
  have hlt : ∀ p, par = some p → p < d.size := fun p h => lt_size_of_isElement (hpar p h)
  have hparent := parent?_sprout d par kind line hlt
  have hchildren := children_sprout d par kind line hlt
  have hfresh : ∀ m, d.size ∉ d.children m := fun m h =>
    Nat.lt_irrefl _ (hd.child_lt_size h)
  have hold : ∀ {a n}, Below (d.sprout par kind line) a n → n < d.size → Below d a n := by
    intro a n h
    induction h with
    | child h =>
      intro hn
      rw [hparent, if_neg (Nat.ne_of_lt hn)] at h
      exact .child h
    | step h _ ih =>
      intro hn
      rw [hparent, if_neg (Nat.ne_of_lt hn)] at h
      exact .step h (ih (hd.parent_lt_size h))
  refine ⟨fun p c => ?_, fun p => ?_, fun p c hc => ?_, fun n hn => ?_⟩
  · rw [hparent, hchildren]
    by_cases hc : c = d.size
    · subst hc
      by_cases hp : par = some p <;> simp [hp, hfresh]
    · rw [if_neg hc, hd.parent_iff_child]
      split
      · simp [hc]
      · rfl
  · rw [hchildren]
    split
    · exact List.nodup_append.2 ⟨hd.children_nodup p, by simp, fun a ha b hb hab => by
        rw [List.mem_singleton.1 hb] at hab
        exact hfresh p (hab ▸ ha)⟩
    · exact hd.children_nodup p
  · have hp : d.isElement p = true := by
      rw [hchildren] at hc
      split at hc
      · exact hpar p ‹_›
      · exact hd.isElement_of_child p c hc
    have hne : p ≠ d.size := Nat.ne_of_lt (lt_size_of_isElement hp)
    rw [isElement_congr (e := d) (by rw [kind?_sprout d par kind line hlt, if_neg hne])]
    exact hp
  · -- the new node has no children, so a way back to a node is a way in `d`
    have hup : ∀ m p, (d.sprout par kind line).parent? m = some p → p < d.size := by
      intro m p h
      rw [hparent] at h
      split at h
      · exact hlt p h
      · exact hd.parent_lt_size h
    have htop : ∀ {a m}, Below (d.sprout par kind line) a m → a < d.size := by
      intro a m h
      induction h with
      | child h => exact hup _ _ h
      | step _ _ ih => exact ih
    exact hd.acyclic n (hold hn (htop hn))

/-! ## Adding a forest -/

/-- Adds a forest as last children of `par`, or detached. -/
def graft (d : Document) (par : Option NodeId) : Forest → Document
  | .nil => d
  | .node kind line kids rest =>
    ((d.sprout par kind line).graft (some d.size) kids).graft par rest

section Graft

variable (d : Document) (par : Option NodeId)

@[simp] theorem graft_nil : d.graft par .nil = d := rfl

theorem graft_node (kind : NodeKind) (line : Option Nat) (kids rest : Forest) :
    d.graft par (.node kind line kids rest) =
      ((d.sprout par kind line).graft (some d.size) kids).graft par rest := rfl

theorem graft_append (f g : Forest) : d.graft par (f ++ g) = (d.graft par f).graft par g := by
  induction f generalizing d with
  | nil => rfl
  | node k l kids rest _ ih => rw [Forest.node_append, graft_node, graft_node, ih]

@[simp] theorem root_graft (f : Forest) : (d.graft par f).root = d.root := by
  induction f generalizing d par with
  | nil => rfl
  | node k l kids rest ihk ihr => rw [graft_node, ihr, ihk, root_sprout]

@[simp] theorem prolog_graft (f : Forest) : (d.graft par f).prolog = d.prolog := by
  induction f generalizing d par with
  | nil => rfl
  | node kind line kids rest ihk ihr =>
    rw [graft_node, ihr, ihk]
    cases par <;> rfl

@[simp] theorem url_graft (f : Forest) : (d.graft par f).url = d.url := by
  induction f generalizing d par with
  | nil => rfl
  | node kind line kids rest ihk ihr =>
    rw [graft_node, ihr, ihk]
    cases par <;> rfl

@[simp] theorem size_graft (f : Forest) : (d.graft par f).size = d.size + f.size := by
  induction f generalizing d par with
  | nil => rfl
  | node k l kids rest ihk ihr =>
    rw [graft_node, ihr, ihk, size_sprout, Forest.size]
    omega

/-- The nodes that were there before keep all but the new children of
`par`. -/
theorem node?_graft (hpar : ∀ p, par = some p → p < d.size) (f : Forest) {m : NodeId}
    (hm : m < d.size) :
    (d.graft par f).node? m =
      if par = some m then
        (d.node? m).map fun node => { node with children := node.children ++ f.roots d.size }
      else d.node? m := by
  induction f generalizing d par with
  | nil =>
    cases h : d.node? m <;> simp [Forest.roots, h]
  | node k l kids rest ihk ihr =>
    have hsprout := node?_sprout d par k l hpar m
    rw [if_neg (Nat.ne_of_lt hm)] at hsprout
    have hms : m < (d.sprout par k l).size := by
      rw [size_sprout]
      exact Nat.lt_succ_of_lt hm
    have hmk : m < ((d.sprout par k l).graft (some d.size) kids).size := by
      rw [size_graft]
      exact Nat.lt_add_right _ hms
    have hpark : ∀ p, par = some p → p < ((d.sprout par k l).graft (some d.size) kids).size := by
      intro p hp
      rw [size_graft, size_sprout]
      exact Nat.lt_add_right _ (Nat.lt_succ_of_lt (hpar p hp))
    have hkids := ihk (d.sprout par k l) (some d.size) (by simp) hms
    have hne : some d.size ≠ some m := fun h => Nat.ne_of_lt hm (Option.some.inj h).symm
    rw [if_neg hne, hsprout] at hkids
    rw [graft_node, ihr _ _ hpark hmk, hkids]
    by_cases hp : par = some m
    · cases h : d.node? m <;> simp [hp, Forest.roots]
    · simp [hp]

variable {d par}

theorem kind?_graft (hpar : ∀ p, par = some p → p < d.size) (f : Forest) {m : NodeId}
    (hm : m < d.size) : (d.graft par f).kind? m = d.kind? m := by
  simp only [kind?, node?_graft d par hpar f hm]
  split_ifs <;> cases d.node? m <;> rfl

theorem parent?_graft (hpar : ∀ p, par = some p → p < d.size) (f : Forest) {m : NodeId}
    (hm : m < d.size) : (d.graft par f).parent? m = d.parent? m := by
  simp only [parent?, node?_graft d par hpar f hm]
  split_ifs <;> cases d.node? m <;> rfl

theorem children_graft (hpar : ∀ p, par = some p → p < d.size) (f : Forest) {m : NodeId}
    (hm : m < d.size) :
    (d.graft par f).children m =
      if par = some m then d.children m ++ f.roots d.size else d.children m := by
  obtain ⟨x, hx⟩ := exists_node? hm
  simp only [children, node?_graft d par hpar f hm, hx]
  split_ifs <;> rfl

end Graft

/-- A proper forest keeps the links, also below an element. -/
theorem Linked.graft {d : Document} (hd : d.Linked) {par : Option NodeId}
    (hpar : ∀ p, par = some p → d.isElement p = true) {f : Forest} (hf : f.Proper) :
    (d.graft par f).Linked := by
  induction f generalizing d par with
  | nil => exact hd
  | node k l kids rest ihk ihr =>
    obtain ⟨hk, hkids, hrest⟩ := hf
    have hlt : ∀ p, par = some p → p < d.size := fun p h => lt_size_of_isElement (hpar p h)
    have hs : (d.sprout par k l).Linked := hd.sprout hpar k l
    have hnew : kids ≠ .nil → (d.sprout par k l).isElement d.size = true := by
      intro hne
      rw [isElement_eq, kind?_sprout d par k l hlt, if_pos rfl]
      exact hk hne
    have hkidsLinked : ((d.sprout par k l).graft (some d.size) kids).Linked := by
      by_cases hne : kids = .nil
      · rw [hne]
        exact hs
      · exact ihk hs (fun p hp => by cases hp; exact hnew hne) hkids
    refine ihr hkidsLinked (fun p hp => ?_) hrest
    have hps : p < (d.sprout par k l).size := by
      rw [size_sprout]
      exact Nat.lt_succ_of_lt (hlt p hp)
    rw [isElement_congr (e := d.sprout par k l) (kind?_graft (by simp) kids hps),
      isElement_congr (e := d) (by
        rw [kind?_sprout d par k l hlt, if_neg (Nat.ne_of_lt (hlt p hp))])]
    exact hpar p hp

/-! ## The forest of a list of nodes -/

/-- The nodes `ns` and what hangs below them are a forest. -/
inductive Spells (d : Document) : List NodeId → Forest → Prop where
  | nil : Spells d [] .nil
  | node {n : NodeId} {ns : List NodeId} {x : Node} {kids rest : Forest}
      (hx : d.node? n = some x) (hkids : Spells d x.children kids) (hrest : Spells d ns rest) :
      Spells d (n :: ns) (.node x.kind x.line kids rest)

namespace Spells

variable {d : Document}

theorem unique {ns : List NodeId} {f g : Forest} (hf : Spells d ns f) (hg : Spells d ns g) :
    f = g := by
  induction hf generalizing g with
  | nil =>
    cases hg
    rfl
  | node hx _ _ ihk ihr =>
    cases hg with
    | node hy hk hr =>
      cases hx.symm.trans hy
      rw [ihk hk, ihr hr]

theorem append {ns ms : List NodeId} {f g : Forest} (hf : Spells d ns f) (hg : Spells d ms g) :
    Spells d (ns ++ ms) (f ++ g) := by
  induction hf with
  | nil => exact hg
  | node hx hk _ _ ih => exact .node hx hk ih

/-- Nodes among which the arenas agree spell the same forest. -/
theorem congr {e : Document} {ns : List NodeId} {f : Forest} (S : NodeId → Prop)
    (hdown : ∀ n x, S n → d.node? n = some x → ∀ c ∈ x.children, S c)
    (hsame : ∀ n x, S n → d.node? n = some x →
      ∃ y, e.node? n = some y ∧ y.kind = x.kind ∧ y.line = x.line ∧ y.children = x.children)
    (hf : Spells d ns f) (hns : ∀ n ∈ ns, S n) : Spells e ns f := by
  induction hf with
  | nil => exact .nil
  | @node n ns x kids rest hx _ _ ihk ihr =>
    have hn : S n := hns n List.mem_cons_self
    obtain ⟨y, hy, hkind, hline, hchildren⟩ := hsame n x hn hx
    rw [← hkind, ← hline]
    exact .node hy (hchildren ▸ ihk (hdown n x hn hx))
      (ihr fun m hm => hns m (List.mem_cons_of_mem _ hm))

/-- What a well-linked arena spells is proper. -/
theorem proper (hd : d.Linked) {ns : List NodeId} {f : Forest} (hf : Spells d ns f) :
    f.Proper := by
  induction hf with
  | nil => trivial
  | @node n ns x kids rest hx hkids _ ihk ihr =>
    refine ⟨fun hne => ?_, ihk, ihr⟩
    cases hc : x.children with
    | nil =>
      rw [hc] at hkids
      cases hkids
      exact absurd rfl hne
    | cons c cs =>
      have hmem : c ∈ d.children n := by
        rw [children_of_node? hx, hc]
        exact List.mem_cons_self
      have helem := hd.isElement_of_child n c hmem
      rw [isElement_eq, kind?_of_node? hx] at helem
      exact helem

end Spells

/-- Nodes with fewer than `fuel` levels below them spell a forest of at most
`fuel` levels. -/
theorem exists_spells {d : Document} (hd : d.Linked) (fuel : Nat) (ns : List NodeId)
    (hns : ∀ n ∈ ns, n < d.size ∧ ∀ m k, d.ancestor? k m = some n → k < fuel) :
    ∃ f, Spells d ns f ∧ f.height ≤ fuel := by
  induction fuel generalizing ns with
  | zero =>
    cases ns with
    | nil => exact ⟨.nil, .nil, Nat.le_refl _⟩
    | cons n ns => exact absurd ((hns n List.mem_cons_self).2 n 0 rfl) (Nat.lt_irrefl _)
  | succ fuel ihf =>
    induction ns with
    | nil => exact ⟨.nil, .nil, Nat.zero_le _⟩
    | cons n ns ihn =>
      obtain ⟨rest, hrest, hrestHeight⟩ := ihn fun m hm => hns m (List.mem_cons_of_mem _ hm)
      obtain ⟨hn, hlevels⟩ := hns n List.mem_cons_self
      obtain ⟨x, hx⟩ := exists_node? hn
      have hchild : ∀ c ∈ x.children, d.parent? c = some n := fun c hc =>
        (hd.parent_iff_child n c).2 (children_of_node? hx ▸ hc)
      obtain ⟨kids, hkids, hkidsHeight⟩ := ihf x.children fun c hc =>
        ⟨lt_size_of_parent? (hchild c hc), fun m k hk =>
          Nat.lt_of_succ_lt_succ (hlevels m (k + 1) (ancestor?_succ_of hk (hchild c hc)))⟩
      refine ⟨_, .node hx hkids hrest, ?_⟩
      simp only [Forest.height]
      omega

/-- The nodes of a well-formed document spell a forest, and the fuel of its
traversals is enough for it. -/
theorem WellFormed.exists_spells {d : Document} (hd : d.WellFormed) (ns : List NodeId)
    (hns : ∀ n ∈ ns, n < d.size) : ∃ f, Spells d ns f ∧ f.height ≤ d.size :=
  Document.exists_spells hd.linked d.size ns fun n hn =>
    ⟨hns n hn, fun _ _ hk => hd.lt_size_of_ancestor? hk⟩

/-- The nodes of `e` from `base` on are the forest in preorder, with `par` above
its trees. -/
def Planted (e : Document) : (par : Option NodeId) → (base : NodeId) → Forest → Prop
  | _, _, .nil => True
  | par, base, .node kind line kids rest =>
    e.node? base = some { kind, parent := par, line, children := kids.roots (base + 1) } ∧
      e.Planted (some base) (base + 1) kids ∧ e.Planted par (base + 1 + kids.size) rest

theorem Planted.spells {e : Document} {par : Option NodeId} {base : NodeId} {f : Forest}
    (h : e.Planted par base f) : Spells e (f.roots base) f := by
  induction f generalizing par base with
  | nil => exact .nil
  | node kind line kids rest ihk ihr =>
    obtain ⟨hroot, hkids, hrest⟩ := h
    exact .node hroot (ihk hkids) (ihr hrest)

/-- An arena that agrees on the new ids with a graft has there what was
grafted. -/
theorem planted_of_agree {d e : Document} {par : Option NodeId}
    (hpar : ∀ p, par = some p → p < d.size) {f : Forest}
    (hagree : ∀ m : Nat, d.size ≤ m → m < d.size + f.size →
      e.node? m = (d.graft par f).node? m) :
    e.Planted par d.size f := by
  induction f generalizing d par with
  | nil => trivial
  | node k l kids rest ihk ihr =>
    have hsize : (d.sprout par k l).size = d.size + 1 := size_sprout d par k l
    have hsize₁ : ((d.sprout par k l).graft (some d.size) kids).size = d.size + 1 + kids.size := by
      rw [size_graft, hsize]
    have hpar₁ : ∀ p, par = some p → p < ((d.sprout par k l).graft (some d.size) kids).size := by
      intro p hp
      rw [hsize₁]
      exact Nat.lt_add_right _ (Nat.lt_succ_of_lt (hpar p hp))
    -- the trees after this one leave its nodes alone
    have hfirst : ∀ m : Nat, d.size ≤ m → m < d.size + 1 + kids.size →
        e.node? m = ((d.sprout par k l).graft (some d.size) kids).node? m := by
      intro m hm hlt
      have hne : par ≠ some m := fun h => Nat.not_le.2 (hpar m h) hm
      rw [hagree m hm (by simp only [Forest.size]; omega), graft_node,
        node?_graft _ _ hpar₁ rest (by rw [hsize₁]; exact hlt), if_neg hne]
    refine ⟨?first, ?below, ?after⟩
    case first =>
      rw [hfirst d.size (Nat.le_refl _) (by omega),
        node?_graft _ _ (by simp) kids (by rw [hsize]; exact Nat.lt_succ_self _), if_pos rfl,
        node?_sprout d par k l hpar, if_pos rfl, hsize]
      rfl
    case below =>
      rw [← hsize]
      refine @ihk (d.sprout par k l) (some d.size) (by simp) fun m hm hlt => ?_
      rw [hsize] at hm hlt
      exact hfirst m (Nat.le_of_succ_le hm) hlt
    case after =>
      rw [← hsize₁]
      refine ihr hpar₁ fun m hm hlt => ?_
      rw [hsize₁] at hm hlt
      exact hagree m (by omega) (by simp only [Forest.size]; omega)

/-- An arena that agrees on the new ids with a graft spells what was
grafted. -/
theorem spells_of_agree {d e : Document} {par : Option NodeId}
    (hpar : ∀ p, par = some p → p < d.size) {f : Forest}
    (hagree : ∀ m : Nat, d.size ≤ m → m < d.size + f.size →
      e.node? m = (d.graft par f).node? m) :
    Spells e (f.roots d.size) f :=
  (planted_of_agree hpar hagree).spells

/-- A grafted forest can be read back. -/
theorem spells_graft {d : Document} {par : Option NodeId}
    (hpar : ∀ p, par = some p → p < d.size) (f : Forest) :
    Spells (d.graft par f) (f.roots d.size) f :=
  spells_of_agree hpar fun _ _ _ => rfl

end Document

end LabelTemplate.Xml
