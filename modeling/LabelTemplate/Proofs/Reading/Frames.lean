import LabelTemplate.Proofs.Arena.Clone
import LabelTemplate.Xml.Reader

/-!
# The tree that reading builds

At every moment of reading there are open elements, the finished nodes
before each of them, and the finished children of the innermost one.
`Frame`s hold the first two; `plug` closes all open elements where they are
and gives the forest read so far.

`Represents` says that the arena of a `PartialTree` is this forest, grafted
into an empty arena.  The lemmas below it say what each piece of a text does
to the frames, so nothing later looks at the arena while it is built.
-/

namespace LabelTemplate.Xml

/-- An open element. -/
structure Frame where
  /-- The finished siblings before it. -/
  before : Forest
  element : Element
  line : Option Nat

/-- The forest in which the open elements, innermost first, are closed and
`f` stands inside the innermost. -/
def plug : List Frame → Forest → Forest
  | [], f => f
  | fr :: outer, f => plug outer (fr.before ++ .node (.element fr.element) fr.line f .nil)

/-- The id of the first node inside the innermost open element. -/
def firstId : List Frame → Nat
  | [] => 0
  | fr :: outer => firstId outer + fr.before.size + 1

/-- The ids of the open elements, innermost first. -/
def openIds : List Frame → List NodeId
  | [] => []
  | fr :: outer => (firstId outer + fr.before.size) :: openIds outer

namespace Document

/-- The arena with one forest and nothing else. -/
def ofForest (f : Forest) : Document :=
  ({ nodes := #[], root := 0 } : Document).graft none f

@[simp] theorem size_ofForest (f : Forest) : (ofForest f).size = f.size := by
  rw [ofForest, size_graft]
  simp [size]

@[simp] theorem root_ofForest (f : Forest) : (ofForest f).root = 0 := by
  rw [ofForest, root_graft]

/-- The arena of a tree holds this tree. -/
theorem spells_ofForest (kind : NodeKind) (line : Option Nat) (kids : Forest)
    (prolog : List Misc) :
    Spells { ofForest (.node kind line kids .nil) with prolog } [0] (.node kind line kids .nil) :=
  @spells_of_agree { nodes := #[], root := 0 } _ none (by simp) (.node kind line kids .nil)
    fun _ _ _ => rfl

/-! ## Changes inside a context -/

/-- Replaces the kind of a node. -/
def setKind (d : Document) (n : NodeId) (kind : NodeKind) : Document :=
  d.updateNode n fun node => { node with kind }

/-- Grafting what stands inside open elements is grafting into the arena of
these elements. -/
theorem exists_graft_plug (frames : List Frame) (d : Document) {par : Option NodeId}
    (hpar : ∀ p, par = some p → p < d.size) :
    ∃ (d' : Document) (par' : Option NodeId), d'.size = d.size + firstId frames ∧
      (∀ p, par' = some p → p < d'.size) ∧
      ∀ f, d.graft par (plug frames f) = d'.graft par' f := by
  induction frames with
  | nil => exact ⟨d, par, rfl, hpar, fun _ => rfl⟩
  | cons fr outer ih =>
    obtain ⟨d₁, par₁, hsize, hpar₁, hplug⟩ := ih
    refine ⟨(d₁.graft par₁ fr.before).sprout par₁ (.element fr.element) fr.line,
      some (d₁.graft par₁ fr.before).size, ?_, by simp, fun f => ?_⟩
    · rw [size_sprout, size_graft, hsize, firstId]
      omega
    · rw [plug, hplug, graft_append, graft_node, graft_nil]

/-- The same for the whole arena that reading builds. -/
theorem exists_ofForest_plug (frames : List Frame) :
    ∃ (d : Document) (par : Option NodeId), d.size = firstId frames ∧
      (∀ p, par = some p → p < d.size) ∧ ∀ f, ofForest (plug frames f) = d.graft par f := by
  obtain ⟨d, par, hsize, hpar, h⟩ :=
    @exists_graft_plug frames { nodes := #[], root := 0 } none (by simp)
  exact ⟨d, par, by simpa [size] using hsize, hpar, h⟩

/-- The kind of a new leaf replaced at once. -/
theorem setKind_sprout (d : Document) {par : Option NodeId}
    (hpar : ∀ p, par = some p → p < d.size) (k kind : NodeKind) (line : Option Nat) :
    (d.sprout par k line).setKind d.size kind = d.sprout par kind line := by
  refine ext_node? (by simp [setKind]) (by cases par <;> rfl) (by cases par <;> rfl) fun m => ?_
  rw [setKind, node?_updateNode, node?_sprout d par k line hpar,
    node?_sprout d par kind line hpar]
  by_cases hm : m = d.size
  · simp [hm]
  · rw [if_neg (Ne.symm hm), if_neg hm, if_neg hm]

theorem sprout_setKind (d : Document) {n p : NodeId} (hn : n < d.size) (hp : p < d.size)
    (k kind : NodeKind) (line : Option Nat) :
    (d.setKind n k).sprout (some p) kind line = (d.sprout (some p) kind line).setKind n k := by
  have hlt : ∀ q, some p = some q → q < d.size := fun q hq => Option.some.inj hq ▸ hp
  refine ext_node? rfl rfl rfl fun m => ?_
  have hset : ∀ (e : Document), (e.setKind n k).node? m =
      if n = m then (e.node? m).map fun node => { node with kind := k } else e.node? m :=
    fun e => node?_updateNode e n m _
  have hsize : (d.setKind n k).size = d.size := size_updateNode d n _
  rw [hset, node?_sprout d _ _ _ hlt, node?_sprout _ _ _ _ (by rw [hsize]; exact hlt), hset, hsize]
  by_cases hm : m = d.size
  · have hne : n ≠ m := hm ▸ Nat.ne_of_lt hn
    simp [hm, hm ▸ hne]
  · rw [if_neg hm, if_neg hm]
    split_ifs <;> cases d.node? m <;> rfl

theorem graft_setKind (d : Document) {n p : NodeId} (hn : n < d.size) (hp : p < d.size)
    (k : NodeKind) (f : Forest) :
    (d.setKind n k).graft (some p) f = (d.graft (some p) f).setKind n k := by
  induction f generalizing d p with
  | nil => rfl
  | node kind line kids rest ihk ihr =>
    have hs : ∀ {m}, m < d.size → m < (d.sprout (some p) kind line).size := fun h => by
      rw [size_sprout]
      exact Nat.lt_succ_of_lt h
    have hk : ∀ {m}, m < d.size →
        m < ((d.sprout (some p) kind line).graft (some d.size) kids).size := fun h => by
      rw [size_graft]
      exact Nat.lt_add_right _ (hs h)
    rw [graft_node, graft_node, sprout_setKind d hn hp,
      show (d.setKind n k).size = d.size from size_updateNode d n _, ihk _ (hs hn) (by simp),
      ihr _ (hk hn) (hk hp)]

/-- What the innermost open element is, and what its arena becomes by a leaf
more or by another element in its place. -/
theorem ofForest_plug_open (fr : Frame) (outer : List Frame) (f : Forest) :
    (∃ x, (ofForest (plug (fr :: outer) f)).node? (firstId outer + fr.before.size) = some x ∧
      x.kind = .element fr.element ∧ (x.children = [] ↔ f = .nil)) ∧
    (∀ kind line, ofForest (plug (fr :: outer) (f ++ .node kind line .nil .nil)) =
      (ofForest (plug (fr :: outer) f)).sprout (some (firstId outer + fr.before.size)) kind
        line) ∧
    ∀ e, ofForest (plug ({ fr with element := e } :: outer) f) =
      (ofForest (plug (fr :: outer) f)).setKind (firstId outer + fr.before.size)
        (.element e) := by
  obtain ⟨d, par, hsize, hpar, hplug⟩ := exists_ofForest_plug outer
  have hlt : ∀ p, par = some p → p < (d.graft par fr.before).size := fun p hp => by
    rw [size_graft]
    exact Nat.lt_add_right _ (hpar p hp)
  have hid : (d.graft par fr.before).size = firstId outer + fr.before.size := by
    rw [size_graft, hsize]
  simp only [plug, hplug, graft_append, graft_node, graft_nil, ← hid]
  refine ⟨?_, fun _ _ => trivial, fun e => ?_⟩
  · rw [node?_graft _ _ (by simp) f (by simp), if_pos rfl, node?_sprout _ _ _ _ hlt, if_pos rfl]
    exact ⟨_, rfl, rfl, by simp [Forest.roots_eq_nil_iff]⟩
  · rw [← setKind_sprout _ hlt (.element fr.element), graft_setKind _ (by simp) (by simp)]

/-- A leaf more after all that was read. -/
theorem ofForest_plug_leaf (frames : List Frame) (f : Forest) (kind : NodeKind)
    (line : Option Nat) :
    ofForest (plug frames (f ++ .node kind line .nil .nil)) =
      (ofForest (plug frames f)).sprout (openIds frames).head? kind line := by
  cases frames with
  | nil =>
    rw [plug, plug, ofForest, ofForest, graft_append]
    rfl
  | cons fr outer => exact (ofForest_plug_open fr outer f).2.1 kind line

end Document

theorem size_plug (frames : List Frame) (f : Forest) :
    (plug frames f).size = firstId frames + f.size := by
  induction frames generalizing f with
  | nil => simp [plug, firstId]
  | cons fr outer ih =>
    rw [plug, ih, firstId, Forest.size_append, Forest.size]
    simp only [Forest.size]
    omega

theorem plug_ne_nil (fr : Frame) (outer : List Frame) (f : Forest) :
    plug (fr :: outer) f ≠ .nil := by
  intro h
  have hsize := size_plug (fr :: outer) f
  rw [h, firstId] at hsize
  simp only [Forest.size] at hsize
  omega

/-! ## What a partial tree stands for -/

/-- The text of an element with these children once it is closed. -/
def Element.closedOver (e : Element) (kids : Forest) : Element :=
  if kids = .nil then e else { e with text := e.text.filter (!Text.isBlankText ·) }

/-- Character data added to an element with these children. -/
def Element.withData (e : Element) (kids : Forest) (data : String) : Element :=
  if kids = .nil then { e with text := some (e.text.getD "" ++ data) } else e

@[simp] theorem Element.namespaces_withData (e : Element) (kids : Forest) (data : String) :
    (e.withData kids data).namespaces = e.namespaces := by
  unfold withData
  split <;> rfl

namespace PartialTree

def arena (t : PartialTree) : Document := { nodes := t.nodes, root := 0 }

/-- The arena of a partial tree is the forest of its frames. -/
structure Represents (t : PartialTree) (frames : List Frame) (f : Forest) : Prop where
  arena : t.arena = .ofForest (plug frames f)
  opened : t.opened = openIds frames
  scopes : t.scopes = frames.map (·.element.namespaces)
  root : t.root = if plug frames f = .nil then none else some 0

theorem represents_start (lines : LineTracker) : Represents { lines } [] .nil :=
  ⟨rfl, rfl, rfl, rfl⟩

variable {t : PartialTree} {fr : Frame} {frames outer : List Frame} {f : Forest}

theorem arena_addNode (t : PartialTree) (kind : NodeKind) (line : Nat) :
    (t.addNode kind line).arena = t.arena.sprout t.opened.head? kind (some line) := by
  unfold addNode arena Document.sprout Document.updateNode Document.size
  cases t.opened <;> rfl

section AddNode

variable (t : PartialTree) (kind : NodeKind) (line : Nat)

@[simp] theorem opened_addNode : (t.addNode kind line).opened = t.opened := by
  unfold addNode
  split <;> rfl

@[simp] theorem scopes_addNode : (t.addNode kind line).scopes = t.scopes := by
  unfold addNode
  split <;> rfl

@[simp] theorem root_addNode : (t.addNode kind line).root = t.root := by
  unfold addNode
  split <;> rfl

@[simp] theorem prolog_addNode : (t.addNode kind line).prolog = t.prolog := by
  unfold addNode
  split <;> rfl

end AddNode

theorem Represents.arena_addNode (h : t.Represents frames f) (kind : NodeKind) (line : Nat) :
    (t.addNode kind line).arena =
      .ofForest (plug frames (f ++ .node kind (some line) .nil .nil)) := by
  rw [PartialTree.arena_addNode, h.arena, h.opened, Document.ofForest_plug_leaf]

theorem Represents.size_nodes (h : t.Represents frames f) :
    t.nodes.size = firstId frames + f.size := by
  have hsize := congrArg Document.size h.arena
  rwa [Document.size_ofForest, size_plug] at hsize

/-- Another element in place of the innermost open one. -/
theorem Represents.modify (h : t.Represents (fr :: outer) f) {change : Node → Node} {e : Element}
    (hchange : ∀ x : Node, x.kind = .element fr.element → (x.children = [] ↔ f = .nil) →
      change x = { x with kind := .element e }) :
    ({ nodes := t.nodes.modify (firstId outer + fr.before.size) change, root := 0 } : Document) =
      .ofForest (plug ({ fr with element := e } :: outer) f) := by
  obtain ⟨⟨x, hx, hkind, hchildren⟩, -, helement⟩ := Document.ofForest_plug_open fr outer f
  rw [helement e, ← h.arena]
  rw [← h.arena] at hx
  refine Document.ext_node? rfl rfl rfl fun m => ?_
  have hupdate := Document.node?_updateNode t.arena (firstId outer + fr.before.size) m change
  rw [Document.setKind, Document.node?_updateNode]
  refine Eq.trans hupdate ?_
  split
  · rename_i hm
    rw [← hm, hx, Option.map_some, Option.map_some, hchange x hkind hchildren]
  · rfl

/-- A start tag opens an element with no children yet. -/
theorem Represents.openElement (h : t.Represents frames f) {offset : Nat} {content : List Char}
    {e : Element} (he : readElement t.scopes content = .ok e)
    (hone : frames = [] → f = .nil) :
    ∃ t' line, t.openElement offset content = .ok t' ∧ t'.prolog = t.prolog ∧
      t'.Represents (⟨f, e, some line⟩ :: frames) .nil := by
  have hguard : ¬ (t.opened.isEmpty = true ∧ t.root.isSome = true) := by
    rintro ⟨hempty, hsome⟩
    cases frames with
    | nil => simp [h.root, plug, hone rfl] at hsome
    | cons fr outer => simp [h.opened, openIds] at hempty
  let line := (t.lines.advanceTo offset).2.line
  let t₁ : PartialTree :=
    ({ t with lines := (t.lines.advanceTo offset).1 } : PartialTree).addNode (.element e) line
  let t' : PartialTree :=
    { t₁ with
      opened := t.nodes.size :: t₁.opened
      scopes := e.namespaces :: t₁.scopes
      root := if t.opened.isEmpty then some t.nodes.size else t.root }
  have hopen : t.openElement offset content = .ok t' := by
    unfold PartialTree.openElement
    rw [if_neg hguard, he]
  have harena : t₁.arena = .ofForest (plug frames (f ++ .node (.element e) (some line) .nil .nil)) :=
    Represents.arena_addNode (t := { t with lines := (t.lines.advanceTo offset).1 })
      ⟨h.arena, h.opened, h.scopes, h.root⟩ _ _
  refine ⟨t', line, hopen, prolog_addNode _ _ _, harena, ?_, ?_, ?_⟩
  · simp only [t', t₁, opened_addNode, h.opened, openIds, h.size_nodes]
  · simp only [t', t₁, scopes_addNode, h.scopes, List.map_cons]
  · rw [if_neg (plug_ne_nil _ _ _)]
    cases frames with
    | nil => simp [t', h.opened, openIds, h.size_nodes, firstId, hone rfl, Forest.size]
    | cons fr outer => simp [t', h.opened, openIds, h.root, plug_ne_nil]

/-- An end tag makes the innermost open element a finished sibling. -/
theorem Represents.closeElement (h : t.Represents (fr :: outer) f) :
    t.closeElement.Represents outer
        (fr.before ++ .node (.element (fr.element.closedOver f)) fr.line f .nil) ∧
      t.closeElement.prolog = t.prolog := by
  have hopened : t.opened = (firstId outer + fr.before.size) :: openIds outer := h.opened
  unfold PartialTree.closeElement
  rw [hopened]
  refine ⟨⟨?_, rfl, ?_, ?_⟩, rfl⟩
  · refine h.modify (e := fr.element.closedOver f) fun x hkind hchildren => ?_
    unfold dropBlankText Element.closedOver
    by_cases hf : f = .nil
    · rw [if_pos (List.isEmpty_iff.2 (hchildren.2 hf)), if_pos hf, ← hkind]
    · rw [if_neg (mt List.isEmpty_iff.1 (mt hchildren.1 hf)), if_neg hf, hkind]
      rfl
  · simp [h.scopes]
  · have hroot := h.root
    rw [if_neg (plug_ne_nil _ _ _)] at hroot
    rw [if_neg]
    · exact hroot
    · intro hnil
      have hsize := congrArg Forest.size hnil
      rw [size_plug, Forest.size_append] at hsize
      simp [Forest.size] at hsize

/-- Character data goes to the innermost open element while it has no
child. -/
theorem Represents.addText (h : t.Represents (fr :: outer) f) (data : List Char) :
    (t.addText data).Represents
        ({ fr with element := fr.element.withData f (String.ofList data) } :: outer) f ∧
      (t.addText data).prolog = t.prolog := by
  have hopened : t.opened = (firstId outer + fr.before.size) :: openIds outer := h.opened
  unfold PartialTree.addText
  rw [hopened]
  refine ⟨⟨?_, ?_, ?_, ?_⟩, rfl⟩
  · refine h.modify (e := fr.element.withData f (String.ofList data)) fun x hkind hchildren => ?_
    unfold addTextTo Element.withData
    by_cases hf : f = .nil
    · rw [if_pos (List.isEmpty_iff.2 (hchildren.2 hf)), if_pos hf, hkind]
      rfl
    · rw [if_neg (mt List.isEmpty_iff.1 (mt hchildren.1 hf)), if_neg hf, ← hkind]
  · rfl
  · simp [h.scopes]
  · rw [if_neg (plug_ne_nil _ _ _), ← if_neg (c := plug (fr :: outer) f = .nil) (t := none)
      (e := some 0) (plug_ne_nil _ _ _)]
    exact h.root

theorem addText_nil (h : t.Represents [] f) (data : List Char) : t.addText data = t := by
  unfold addText
  rw [h.opened]
  rfl

/-- A comment inside the root is a finished leaf. -/
theorem Represents.addComment (h : t.Represents (fr :: outer) f) (offset : Nat)
    (text : List Char) :
    ∃ line, (t.addComment offset text).Represents (fr :: outer)
        (f ++ .node (.comment (String.ofList text)) (some line) .nil .nil) ∧
      (t.addComment offset text).prolog = t.prolog := by
  let line := (t.lines.advanceTo offset).2.line
  let t₁ : PartialTree := { t with lines := (t.lines.advanceTo offset).1 }
  have hcomment : t.addComment offset text =
      t₁.addNode (.comment (String.ofList text)) line := by
    unfold PartialTree.addComment
    rw [if_neg (by simp [h.opened, openIds])]
  have harena := Represents.arena_addNode (t := t₁) ⟨h.arena, h.opened, h.scopes, h.root⟩
    (.comment (String.ofList text)) line
  rw [hcomment]
  refine ⟨line, ⟨harena, (opened_addNode _ _ _).trans h.opened,
    (scopes_addNode _ _ _).trans h.scopes, (root_addNode _ _ _).trans ?_⟩, prolog_addNode _ _ _⟩
  rw [h.root, if_neg (plug_ne_nil _ _ _), if_neg (plug_ne_nil _ _ _)]

end PartialTree

end LabelTemplate.Xml
