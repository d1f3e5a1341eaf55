import LabelTemplate.Proofs.Arena.Forest

/-!
# Copies of a subtree

`deepClone` pushes a copy of a node, then copies its children one by one and
hangs each copy below the node's copy.  `deepClone_eq_graft` says what comes
of it: the arena with the forest of the node grafted on, detached.  All that
is said of copies elsewhere follows from this equation and from the lemmas
on `graft`.

At the end is what stays of a node while its links change (`shell?`).
-/

namespace LabelTemplate.Xml.Document

/-- Documents are equal when their nodes are. -/
theorem ext_node? {d e : Document} (hroot : d.root = e.root) (hprolog : d.prolog = e.prolog)
    (hurl : d.url = e.url) (hnodes : ∀ m, d.node? m = e.node? m) : d = e := by
  have hn : d.nodes = e.nodes := Array.ext_getElem? hnodes
  cases d
  cases e
  simp_all

/-! ## Hanging a node below another -/

@[simp] theorem size_hang (d : Document) (t c : NodeId) : (d.hang t c).size = d.size := by
  simp [hang]

theorem node?_hang (d : Document) (t c m : NodeId) :
    (d.hang t c).node? m =
      ((d.node? m).map fun node => if c = m then { node with parent := some t } else node).map
        fun node => if t = m then { node with children := node.children ++ [c] } else node := by
  simp only [hang, node?_updateNode]
  split_ifs <;> cases d.node? m <;> simp

/-- A detached new node that is hung up is a new child. -/
theorem hang_sprout (d : Document) {t : NodeId} (ht : t < d.size) (kind : NodeKind)
    (line : Option Nat) :
    (d.sprout none kind line).hang t d.size = d.sprout (some t) kind line := by
  refine ext_node? rfl rfl rfl fun m => ?_
  rw [node?_hang, node?_sprout d none kind line (by simp),
    node?_sprout d (some t) kind line (fun p hp => Option.some.inj hp ▸ ht)]
  by_cases hm : m = d.size
  · have hne : t ≠ m := hm ▸ Nat.ne_of_lt ht
    simp [hm, hm ▸ hne]
  · by_cases htm : t = m
    · simp [hm, htm, Ne.symm hm]
    · simp [hm, htm, Ne.symm hm]

theorem sprout_hang (d : Document) {t c p : NodeId} (ht : t < d.size) (hc : c < d.size)
    (hp : p < d.size) (htp : t ≠ p) (kind : NodeKind) (line : Option Nat) :
    (d.hang t c).sprout (some p) kind line = (d.sprout (some p) kind line).hang t c := by
  have hlt : ∀ q, some p = some q → q < d.size := fun q hq => Option.some.inj hq ▸ hp
  refine ext_node? rfl rfl rfl fun m => ?_
  rw [node?_hang, node?_sprout d (some p) kind line hlt,
    node?_sprout (d.hang t c) (some p) kind line (by simpa using hp), node?_hang, size_hang]
  by_cases hm : m = d.size
  · have htm : t ≠ m := hm ▸ Nat.ne_of_lt ht
    have hcm : c ≠ m := hm ▸ Nat.ne_of_lt hc
    simp [hm, hm ▸ htm, hm ▸ hcm]
  · by_cases hpm : p = m
    · subst hpm
      cases d.node? p <;> simp [hm, htp]
      split <;> rfl
    · simp [hm, hpm]

/-- Hanging a node and grafting below another node can be exchanged. -/
theorem graft_hang (d : Document) {t c p : NodeId} (ht : t < d.size) (hc : c < d.size)
    (hp : p < d.size) (htp : t ≠ p) (f : Forest) :
    (d.hang t c).graft (some p) f = (d.graft (some p) f).hang t c := by
  induction f generalizing d p with
  | nil => rfl
  | node k l kids rest ihk ihr =>
    have hs : ∀ {m}, m < d.size → m < (d.sprout (some p) k l).size := fun h => by
      rw [size_sprout]
      exact Nat.lt_succ_of_lt h
    have hk : ∀ {m}, m < d.size →
        m < ((d.sprout (some p) k l).graft (some d.size) kids).size := fun h => by
      rw [size_graft]
      exact Nat.lt_add_right _ (hs h)
    rw [graft_node, graft_node, sprout_hang d ht hc hp htp, size_hang,
      ihk _ (hs ht) (hs hc) (by simp) (Nat.ne_of_lt ht), ihr _ (hk ht) (hk hc) (hk hp) htp]

/-! ## The copy -/

section Copy

variable {d₀ : Document}

/-- One child copied and hung up. -/
theorem hang_graft_tree (d : Document) {t : NodeId} (ht : t < d.size) (kind : NodeKind)
    (line : Option Nat) (kids : Forest) :
    (d.graft none (.node kind line kids .nil)).hang t d.size =
      d.graft (some t) (.node kind line kids .nil) := by
  have hs : ∀ {m}, m < d.size → m < (d.sprout none kind line).size := fun h => by
    rw [size_sprout]
    exact Nat.lt_succ_of_lt h
  rw [graft_node, graft_node, graft_nil, graft_nil,
    ← graft_hang _ (hs ht) (by simp) (by simp) (Nat.ne_of_lt ht), hang_sprout d ht]

/-- All children copied and hung up, given what copying one of them does. -/
theorem foldl_hang_copy {fuel : Nat}
    (hcopy : ∀ (d : Document) (n : NodeId) (f : Forest), d₀.size ≤ d.size →
      (∀ m, m < d₀.size → d.node? m = d₀.node? m) → Spells d₀ [n] f → f.height ≤ fuel →
      copyBelow fuel d n = (d.size, d.graft none f))
    {ns : List NodeId} {f : Forest} (hf : Spells d₀ ns f) (hheight : f.height ≤ fuel)
    {d : Document} {t : NodeId} (hold : d₀.size ≤ t) (ht : t < d.size)
    (hagree : ∀ m, m < d₀.size → d.node? m = d₀.node? m) :
    ns.foldl (fun d c => (copyBelow fuel d c).2.hang t (copyBelow fuel d c).1) d =
      d.graft (some t) f := by
  induction hf generalizing d with
  | nil => rfl
  | @node n ns x kids rest hx hkids _ _ ih =>
    simp only [Forest.height] at hheight
    have hsize : d₀.size ≤ d.size := Nat.le_of_lt (Nat.lt_of_le_of_lt hold ht)
    have hone := hcopy d n _ hsize hagree (.node hx hkids .nil) (by
      simp only [Forest.height]
      omega)
    have hpar : ∀ p, some t = some p → p < d.size := fun p hp => Option.some.inj hp ▸ ht
    rw [List.foldl_cons, hone, hang_graft_tree d ht,
      ih (by omega) (by rw [size_graft]; exact Nat.lt_add_right _ ht)]
    · rfl
    · intro m hm
      have hne : some t ≠ some m := fun h =>
        Nat.not_le.2 hm (Option.some.inj h ▸ hold)
      rw [node?_graft d _ hpar _ (Nat.lt_of_lt_of_le hm hsize), if_neg hne]
      exact hagree m hm

/-- Copying with enough fuel grafts the forest of the node. -/
theorem copyBelow_eq_graft (fuel : Nat) (d : Document) (n : NodeId) (f : Forest)
    (hsize : d₀.size ≤ d.size) (hagree : ∀ m, m < d₀.size → d.node? m = d₀.node? m)
    (hf : Spells d₀ [n] f) (hheight : f.height ≤ fuel) :
    copyBelow fuel d n = (d.size, d.graft none f) := by
  induction fuel generalizing d n f with
  | zero =>
    cases hf
    simp [Forest.height] at hheight
  | succ fuel ih =>
    cases hf with
    | @node _ _ x kids _ hx hkids hrest =>
      cases hrest
      simp only [Forest.height] at hheight
      have hn : d.node? n = some x := by rw [hagree n (lt_size_of_node? hx), hx]
      have hchildren := foldl_hang_copy ih hkids (by omega) (d := d.sprout none x.kind x.line)
        (t := d.size) hsize (by simp) fun m hm => by
          rw [node?_sprout d none _ _ (by simp),
            if_neg (Nat.ne_of_lt (Nat.lt_of_lt_of_le hm hsize))]
          exact hagree m hm
      simp only [copyBelow, hn]
      rw [graft_node, graft_nil]
      exact Prod.ext rfl hchildren

end Copy

/-- A copy is the forest of the node under fresh ids; all else stays as it
is. -/
theorem deepClone_eq_graft {d : Document} (hd : d.WellFormed) {n : NodeId} {f : Forest}
    (hf : Spells d [n] f) : d.deepClone n = (d.size, d.graft none f) := by
  have hn : n < d.size := by
    cases hf with
    | node hx _ _ => exact lt_size_of_node? hx
  obtain ⟨g, hg, hheight⟩ := hd.exists_spells [n] (by simpa using hn)
  exact copyBelow_eq_graft d.size d n f (Nat.le_refl _) (fun _ _ => rfl) hf
    (hf.unique hg ▸ hheight)

theorem WellFormed.graft {d : Document} (hd : d.WellFormed) {f : Forest} (hf : f.Proper) :
    (d.graft none f).WellFormed := by
  have hlt := hd.root_lt_size
  refine (hd.linked.graft (by simp) hf).wellFormed ?_ ?_
  · rw [root_graft, isElement_congr (e := d) (kind?_graft (by simp) f hlt)]
    exact hd.root_isElement
  · rw [root_graft, parent?_graft (by simp) f hlt]
    exact hd.root_parent

/-! ## A node without its links -/

/-- What a node is, apart from its links. -/
def shell? (d : Document) (n : NodeId) : Option Node :=
  (d.node? n).map ({ · with parent := none, children := [] })

theorem kind?_of_shell? {d e : Document} {n : NodeId} (h : e.shell? n = d.shell? n) :
    e.kind? n = d.kind? n := by
  have := congrArg (Option.map (·.kind)) h
  simpa [shell?, kind?, Option.map_map, Function.comp_def] using this

@[simp] theorem shell?_detach (d : Document) (n m : NodeId) :
    (d.detach n).shell? m = d.shell? m := by
  unfold detach
  split
  · rfl
  · simp only [shell?, node?_updateNode]
    split_ifs <;> cases d.node? m <;> rfl

@[simp] theorem shell?_insertChild (d : Document) (p i c m : NodeId) :
    (d.insertChild p i c).shell? m = d.shell? m := by
  rw [← shell?_detach d c m]
  simp only [insertChild, shell?, node?_updateNode]
  split_ifs <;> cases (d.detach c).node? m <;> rfl

theorem shell?_updateElement (d : Document) {n m : NodeId} (h : m ≠ n) (f : Element → Element) :
    (d.updateElement n f).shell? m = d.shell? m := by
  simp only [updateElement, shell?, node?_updateNode, if_neg h.symm]

theorem shell?_graft (d : Document) (f : Forest) {m : NodeId} (hm : m < d.size) :
    (d.graft none f).shell? m = d.shell? m := by
  rw [shell?, shell?, node?_graft d none (by simp) f hm]
  simp

/-- What nodes spell depends on the nodes below them, apart from their parents. -/
theorem Spells.of_shells {d e : Document} (hd : d.Linked) {ns : List NodeId} {f : Forest}
    (hf : Spells d ns f)
    (hsame : ∀ n ∈ ns, ∀ m, Within d n m → ∀ x, d.node? m = some x →
      e.shell? m = d.shell? m ∧ e.children m = d.children m) : Spells e ns f := by
  refine hf.congr (fun m => ∃ n ∈ ns, Within d n m) ?_ ?_ fun n hn => ⟨n, hn, within_self d n⟩
  · rintro m x ⟨n, hn, hw⟩ hx c hc
    have hp : d.parent? c = some m :=
      (hd.parent_iff_child m c).2 (by rwa [children_of_node? hx])
    exact ⟨n, hn, hw.trans (.inr (.child hp))⟩
  · rintro m x ⟨n, hn, hw⟩ hx
    obtain ⟨hshell, hchildren⟩ := hsame n hn m hw x hx
    rw [shell?, shell?, hx, Option.map_some] at hshell
    obtain ⟨y, hy, hxy⟩ := Option.map_eq_some_iff.1 hshell
    rw [children_of_node? hx, children_of_node? hy] at hchildren
    rw [Node.mk.injEq] at hxy
    exact ⟨y, hy, hxy.1, hxy.2.2.2, hchildren⟩

end LabelTemplate.Xml.Document
