import LabelTemplate.Proofs.Arena.Clone
import LabelTemplate.Proofs.Reading.Frames

/-!
# Documents without lines

`bare` forgets on which line each node was read, and takes an empty text for
none.  Ids, names, attributes, declarations, comments and links stay.
`undeclared` forgets the declarations as well: names are in their namespaces,
whatever declares these.

Both are a `relabel`, which changes what the nodes are, forgets their lines and
leaves ids and links.  A forest grafted into an arena is relabelled when both
are, so documents that were read are compared by their forests.
-/

namespace LabelTemplate.Xml

/-- The element, where an empty text counts as none. -/
def Element.bare (e : Element) : Element := { e with text := e.text.filter (!·.isEmpty) }

/-- The element without its declarations, where an empty text counts as none. -/
def Element.undeclared (e : Element) : Element := { e.bare with namespaces := [] }

theorem Element.undeclared_congr {e e' : Element} (hname : e'.name = e.name)
    (hattributes : e'.attributes = e.attributes)
    (htext : e'.text.filter (!·.isEmpty) = e.text.filter (!·.isEmpty)) :
    e'.undeclared = e.undeclared := by
  simp only [undeclared, bare, hname, hattributes, htext]

/-- What is bare already loses only its declarations. -/
theorem NodeKind.undeclared_bare (k : NodeKind) :
    (k.mapElement .bare).mapElement .undeclared = k.mapElement .undeclared := by
  cases k with
  | comment text => rfl
  | element e => simp [mapElement, Element.undeclared, Element.bare, Option.filter_filter]

def Node.bare (x : Node) : Node := { x with kind := x.kind.mapElement .bare, line := none }

def Document.bare (d : Document) : Document := { d with nodes := d.nodes.map .bare }

/-- The node with another content and no line. -/
def Node.relabel (φ : NodeKind → NodeKind) (x : Node) : Node :=
  { x with kind := φ x.kind, line := none }

def Document.relabel (φ : NodeKind → NodeKind) (d : Document) : Document :=
  { d with nodes := d.nodes.map (.relabel φ) }

/-- What a document holds besides lines and declarations. -/
def Document.undeclared (d : Document) : Document := d.relabel (·.mapElement .undeclared)

namespace Forest

def relabel (φ : NodeKind → NodeKind) : Forest → Forest
  | nil => nil
  | node kind _ kids rest => node (φ kind) none (kids.relabel φ) (rest.relabel φ)

def bare : Forest → Forest
  | nil => nil
  | node kind _ kids rest => node (kind.mapElement .bare) none kids.bare rest.bare

def undeclared (f : Forest) : Forest := f.relabel (·.mapElement .undeclared)

@[simp] theorem undeclared_node (kind : NodeKind) (line : Option Nat) (kids rest : Forest) :
    (node kind line kids rest).undeclared =
      node (kind.mapElement .undeclared) none kids.undeclared rest.undeclared :=
  rfl

theorem relabel_bare (f : Forest) : f.relabel (·.mapElement .bare) = f.bare := by
  induction f with
  | nil => rfl
  | node kind line kids rest ihk ihr => rw [relabel, bare, ihk, ihr]

@[simp] theorem bare_append (f g : Forest) : (f ++ g).bare = f.bare ++ g.bare := by
  induction f with
  | nil => rfl
  | node kind line kids rest _ ih => rw [node_append, bare, ih, bare, node_append]

theorem bare_eq_nil_iff {f : Forest} : f.bare = nil ↔ f = nil := by
  cases f <;> simp [bare]

end Forest

namespace Document

theorem node?_bare (d : Document) (n : NodeId) : d.bare.node? n = (d.node? n).map .bare := by
  simp [bare, node?]

@[simp] theorem size_bare (d : Document) : d.bare.size = d.size := by
  simp [bare, size]

section Relabel

variable (φ : NodeKind → NodeKind)

theorem node?_relabel (d : Document) (n : NodeId) :
    (d.relabel φ).node? n = (d.node? n).map (.relabel φ) := by
  simp [relabel, node?]

@[simp] theorem size_relabel (d : Document) : (d.relabel φ).size = d.size := by
  simp [relabel, size]

theorem relabel_sprout (d : Document) {par : Option NodeId}
    (hpar : ∀ p, par = some p → p < d.size) (kind : NodeKind) (line : Option Nat) :
    (d.sprout par kind line).relabel φ = (d.relabel φ).sprout par (φ kind) none := by
  have hpar' : ∀ p, par = some p → p < (d.relabel φ).size := by simpa using hpar
  refine ext_node? (by cases par <;> rfl) (by cases par <;> rfl) (by cases par <;> rfl) fun m => ?_
  rw [node?_relabel, node?_sprout d par kind line hpar, node?_sprout (d.relabel φ) par _ _ hpar',
    node?_relabel, size_relabel]
  split_ifs
  · rfl
  · cases d.node? m <;> rfl
  · rfl

/-- A grafted forest is relabelled when it is grafted relabelled. -/
theorem relabel_graft (d : Document) {par : Option NodeId} (hpar : ∀ p, par = some p → p < d.size)
    (f : Forest) : (d.graft par f).relabel φ = (d.relabel φ).graft par (f.relabel φ) := by
  induction f generalizing d par with
  | nil => rfl
  | node kind line kids rest ihk ihr =>
    rw [graft_node, Forest.relabel, graft_node, ihr _ fun p hp => ?_, ihk _ (by simp),
      relabel_sprout φ d hpar, size_relabel]
    rw [size_graft, size_sprout]
    exact Nat.lt_add_right _ (Nat.lt_succ_of_lt (hpar p hp))

theorem relabel_ofForest {f g : Forest} (h : f.relabel φ = g.relabel φ) :
    (ofForest f).relabel φ = (ofForest g).relabel φ := by
  rw [ofForest, ofForest, relabel_graft φ _ (by simp), relabel_graft φ _ (by simp), h]

end Relabel

theorem bare_ofForest {f g : Forest} (h : f.bare = g.bare) :
    (ofForest f).bare = (ofForest g).bare :=
  relabel_ofForest _ (by rw [Forest.relabel_bare, Forest.relabel_bare, h])

theorem undeclared_ofForest {f g : Forest} (h : f.undeclared = g.undeclared) :
    (ofForest f).undeclared = (ofForest g).undeclared :=
  relabel_ofForest _ h

theorem undeclared_bare (d : Document) : d.bare.undeclared = d.undeclared := by
  refine ext_node? rfl rfl rfl fun n => ?_
  rw [undeclared, undeclared, node?_relabel, node?_relabel, node?_bare, Option.map_map]
  refine congrFun (congrArg Option.map (funext fun x => ?_)) _
  exact congrArg (fun kind => { x with kind, line := none }) (NodeKind.undeclared_bare x.kind)

end Document

end LabelTemplate.Xml
