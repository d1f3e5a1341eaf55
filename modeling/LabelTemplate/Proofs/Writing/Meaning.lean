import LabelTemplate.Proofs.Arena.Preorder
import LabelTemplate.Proofs.Walk.Copies
import LabelTemplate.Proofs.Writing.Prefixes
import LabelTemplate.Proofs.Writing.ReadBack

/-!
# What a written document means

A document that was made from others need not be read back as it is, since
the writer adds declarations.  What must come back are its elements in
document order, with their expanded names and attributes
(`Document.meanings`).  This is so exactly if every element is unambiguous
(`parse_toXml_means`).
-/

namespace LabelTemplate.Xml

/-- What is known of the content of nodes that were read, filled or fetched. -/
def NodeKind.Sayable : NodeKind → Prop
  | .element e => e.Resolved ∧ e.XmlNames
  | .comment text => Markup.CommentText text.toList

theorem Element.Sayable.fewer {e : Element} (h : (NodeKind.element e).Sayable)
    {kept : List Attribute} (hkept : kept.Sublist e.attributes) {decls : List NamespaceDecl}
    (hdecls : decls.Sublist e.namespaces) (text : Option String) :
    (NodeKind.element { e with attributes := kept, namespaces := decls, text }).Sayable := by
  obtain ⟨hresolved, hname, hattributes, hprefixes⟩ := h
  refine ⟨⟨fun q hq => ?_, fun a ha => hresolved.plain a (hkept.subset ha),
    fun a ha => hresolved.undeclared a (hkept.subset ha), hresolved.distinct.sublist (hkept.map _),
    hresolved.prefixes.sublist (hdecls.map _)⟩, hname, fun a ha => hattributes a (hkept.subset ha),
    fun decl hdecl => hprefixes decl (hdecls.subset hdecl)⟩
  rcases List.mem_cons.1 hq with rfl | hq
  · exact hresolved.names _ List.mem_cons_self
  · obtain ⟨a, ha, rfl⟩ := List.mem_map.1 hq
    exact hresolved.names _ (List.mem_cons_of_mem _ (List.mem_map_of_mem (hkept.subset ha)))

theorem Forest.Legible.sayable {scopes : List (List NamespaceDecl)} {f : Forest}
    (hf : f.Legible scopes)
    (hnames : f.AllKinds fun k => ∀ e, k.element? = some e → e.XmlNames) :
    f.AllKinds NodeKind.Sayable := by
  induction f generalizing scopes with
  | nil => trivial
  | node kind line kids rest ihk ihr =>
    obtain ⟨hkind, hkidsNames, hrestNames⟩ := hnames
    cases kind with
    | comment text =>
      obtain ⟨⟨rfl, htext⟩, hrest⟩ := hf
      exact ⟨htext, trivial, ihr hrest hrestNames⟩
    | element e =>
      obtain ⟨⟨hread, -, hkids⟩, hrest⟩ := hf
      exact ⟨⟨hread.resolved, hkind e rfl⟩, ihk hkids hkidsNames, ihr hrest hrestNames⟩

namespace Forest

theorem writable_of_sayable {f : Forest} (hf : f.AllKinds NodeKind.Sayable) (hproper : f.Proper) :
    f.Writable := by
  induction f with
  | nil => trivial
  | node kind line kids rest ihk ihr =>
    obtain ⟨hkind, hkids, hrest⟩ := hf
    obtain ⟨hleaf, hkidsProper, hrestProper⟩ := hproper
    cases kind with
    | comment text =>
      refine ⟨?_, hkind, ihr hrest hrestProper⟩
      by_contra hne
      cases hleaf hne
    | element e =>
      exact ⟨hkind.2.writable hkind.1.undeclared, ihk hkids hkidsProper, ihr hrest hrestProper⟩

theorem length_elements_reread {f g : Forest} {scopes : List (List NamespaceDecl)}
    {scope : PrefixBindings} (hf : f.Writable) (h : f.reread scopes scope = some g) :
    g.elements.length = f.elements.length := by
  induction f generalizing scopes scope g with
  | nil =>
    cases h
    rfl
  | node kind line kids rest ihk ihr =>
    cases kind with
    | comment text =>
      obtain ⟨rfl, -, hrest⟩ := hf
      obtain ⟨rest', hrest', rfl⟩ := Option.map_eq_some_iff.1 h
      have hlength := ihr hrest hrest'
      simpa [elements] using hlength
    | element e =>
      obtain ⟨-, hkids, hrest⟩ := hf
      obtain ⟨r, -, h⟩ := Option.bind_eq_some_iff.1 h
      obtain ⟨kids', hkids', h⟩ := Option.bind_eq_some_iff.1 h
      obtain ⟨rest', hrest', h⟩ := Option.bind_eq_some_iff.1 h
      cases h
      simp only [elements, List.length_cons, List.length_append, ihk hkids hkids', ihr hrest hrest']

/-- A written forest is read back with the same meaning exactly if its elements
are unambiguous. -/
theorem reread_means {f : Forest} (hf : f.AllKinds NodeKind.Sayable) (hwritable : f.Writable)
    {scopes : List (List NamespaceDecl)} {scope : PrefixBindings} (hmirrors : Mirrors scope scopes) :
    (∃ g, f.reread scopes scope = some g ∧
      g.elements.map (·.meaning) = f.elements.map (·.meaning)) ↔
        ∀ e ∈ f.elements, e.Unambiguous := by
  induction f generalizing scopes scope with
  | nil => exact ⟨fun _ => by simp [elements], fun _ => ⟨.nil, rfl, rfl⟩⟩
  | node kind line kids rest ihk ihr =>
    obtain ⟨hkind, hkids, hrest⟩ := hf
    cases kind with
    | comment text =>
      obtain ⟨rfl, -, hrestWritable⟩ := hwritable
      have hsame := ihr hrest hrestWritable hmirrors
      rw [show (node (.comment text) line nil rest).elements = rest.elements from rfl, ← hsame]
      constructor
      · rintro ⟨g, hg, hmeans⟩
        obtain ⟨rest', hrest', rfl⟩ := Option.map_eq_some_iff.1 hg
        exact ⟨rest', hrest', hmeans⟩
      · rintro ⟨rest', hrest', hmeans⟩
        exact ⟨.node (.comment text) none .nil rest', by rw [reread, hrest', Option.map_some], hmeans⟩
    | element e =>
      obtain ⟨he, hkidsWritable, hrestWritable⟩ := hwritable
      rw [elements]
      constructor
      · rintro ⟨g, hg, hmeans⟩
        obtain ⟨r, hr, hg⟩ := Option.bind_eq_some_iff.1 hg
        obtain ⟨kids', hkids', hg⟩ := Option.bind_eq_some_iff.1 hg
        obtain ⟨rest', hrest', hg⟩ := Option.bind_eq_some_iff.1 hg
        cases hg
        have hkidsLength := length_elements_reread hkidsWritable hkids'
        simp only [elements, List.map_cons, List.map_append, List.cons.injEq] at hmeans
        obtain ⟨hkidsMeans, hrestMeans⟩ := List.append_inj hmeans.2 (by simp [hkidsLength])
        have hone : e.Unambiguous :=
          unambiguous_of_readElement hkind.1 he (Outcome.toOption_eq_some.1 hr) hmeans.1
        have hinner := hmirrors.bind (hone.nodup_shownDecls hkind.1 scope)
        intro x hx
        rcases List.mem_cons.1 hx with rfl | hx
        · exact hone
        · rcases List.mem_append.1 hx with hx | hx
          · exact (ihk hkids hkidsWritable hinner).1 ⟨kids', hkids', hkidsMeans⟩ x hx
          · exact (ihr hrest hrestWritable hmirrors).1 ⟨rest', hrest', hrestMeans⟩ x hx
      · intro hall
        have hone := hall e List.mem_cons_self
        have hread := readElement_of_unambiguous hmirrors hkind.1 he hone
        have hinner := hmirrors.bind (hone.nodup_shownDecls hkind.1 scope)
        obtain ⟨kids', hkids', hkidsMeans⟩ := (ihk hkids hkidsWritable hinner).2 fun x hx =>
          hall x (List.mem_cons_of_mem _ (List.mem_append_left _ hx))
        obtain ⟨rest', hrest', hrestMeans⟩ := (ihr hrest hrestWritable hmirrors).2 fun x hx =>
          hall x (List.mem_cons_of_mem _ (List.mem_append_right _ hx))
        refine ⟨.node (.element { e with
          namespaces := e.shownDecls scope, text := e.finalText kids }) none kids' rest', ?_, ?_⟩
        · rw [reread, hread, hkids', hrest']
          rfl
        · simp only [elements, List.map_cons, List.map_append, hkidsMeans, hrestMeans]
          rfl

end Forest

namespace Document

/-- What the elements of a document say, in document order. -/
def meanings (d : Document) :
    List ((Option String × String) × List ((Option String × String) × String)) :=
  d.elements.map (·.meaning)

/-- Lines and empty texts have no part in what a document says. -/
theorem meanings_bare (d : Document) : d.bare.meanings = d.meanings := by
  have hchildren : ∀ n, d.bare.children n = d.children n := fun n => by
    rw [children, children, node?_bare]
    cases d.node? n <;> rfl
  have hvisit : ∀ fuel stack, d.bare.visit fuel stack = d.visit fuel stack := by
    intro fuel
    induction fuel with
    | zero => exact fun _ => rfl
    | succ fuel ih =>
      intro stack
      cases stack with
      | nil => rfl
      | cons n rest => rw [visit, visit, ih, hchildren]
  have helement : ∀ n, d.bare.element? n = (d.element? n).map .bare := fun n => by
    rw [element?, element?, kind?, kind?, node?_bare]
    cases hx : d.node? n with
    | none => rfl
    | some x => cases hkind : x.kind <;> simp [Node.bare, NodeKind.mapElement, NodeKind.element?, hkind]
  have helements : d.bare.elements = d.elements.map .bare := by
    have hisElement : d.bare.isElement = d.isElement := by
      funext n
      rw [isElement, isElement, helement, Option.isSome_map]
    rw [elements, elements, descendantElements, descendantElements, descendants, descendants,
      size_bare, hvisit, hisElement, List.map_filterMap]
    congr 1
    funext n
    exact helement n
  rw [meanings, meanings, helements, List.map_map]
  rfl

/-- The root spells one tree, with an element at its top. -/
theorem WellFormed.exists_root_tree {d : Document} (hd : d.WellFormed) {f : Forest}
    (hf : Spells d [d.root] f) : ∃ e line kids, f = .node (.element e) line kids .nil := by
  cases hf with
  | @node _ _ x _ _ hx _ hrest =>
    cases hrest
    have helement := hd.root_isElement
    rw [isElement_eq, kind?_of_node? hx] at helement
    cases hkind : x.kind with
    | element e => exact ⟨e, _, _, rfl⟩
    | comment text => simp [hkind, NodeKind.isElement, NodeKind.element?] at helement

/-- A written document is read back with the same meaning exactly if none of
its elements wants or declares a prefix for two namespaces. -/
theorem parse_toXml_means {d : Document} (hd : d.WellFormed)
    (hkinds : d.AllKinds NodeKind.Sayable) (hprolog : ∀ m ∈ d.prolog, m.Legible) :
    (∃ d', parse d.toXml = .ok d' ∧ d'.meanings = d.meanings) ↔
      ∀ e ∈ d.elements, e.Unambiguous := by
  obtain ⟨f, hf, hheight⟩ := hd.exists_spells [d.root] (by simpa using hd.root_lt_size)
  have hsayable := hf.allKinds hkinds
  have hwritable := Forest.writable_of_sayable hsayable (hf.proper hd.linked)
  rw [elements_eq hf (hf.size_le hd.linked), ← Forest.reread_means hsayable hwritable mirrors_fixed,
    meanings, elements_eq hf (hf.size_le hd.linked)]
  obtain ⟨e, line, kids, rfl⟩ := hd.exists_root_tree hf
  obtain ⟨hsome, hnone⟩ := parse_toXml hf hheight hprolog hwritable.1 hwritable.2.1
  have hmeanings : ∀ g, (Forest.node (.element e) line kids .nil).reread [] .fixed = some g →
      ∃ d', parse d.toXml = .ok d' ∧ d'.meanings = g.elements.map (·.meaning) := by
    intro g hg
    obtain ⟨d', hparse, hbare⟩ := hsome g hg
    refine ⟨d', hparse, ?_⟩
    rw [← meanings_bare, hbare, meanings_bare, meanings]
    rw [Forest.reread_element] at hg
    obtain ⟨r, -, hg⟩ := Option.bind_eq_some_iff.1 hg
    obtain ⟨kids', -, rfl⟩ := Option.map_eq_some_iff.1 hg
    have hroot : ({ ofForest (.node (.element { r with text := e.finalText kids }) none kids' .nil)
        with prolog := d.prolog } : Document).root = 0 := root_ofForest _
    rw [elements_eq (f := .node (.element { r with text := e.finalText kids }) none kids' .nil)]
    · rw [hroot]
      exact spells_ofForest _ none kids' d.prolog
    · exact Nat.le_of_eq (size_ofForest _).symm
  constructor
  · rintro ⟨d', hparse, hmeans⟩
    cases hg : (Forest.node (.element e) line kids .nil).reread [] .fixed with
    | none =>
      obtain ⟨err, herr⟩ := hnone hg
      rw [hparse] at herr
      cases herr
    | some g =>
      obtain ⟨d'', hparse', hmeans'⟩ := hmeanings g hg
      obtain rfl : d' = d'' := Except.ok.inj (hparse.symm.trans hparse')
      exact ⟨g, rfl, hmeans'.symm.trans hmeans⟩
  · rintro ⟨g, hg, hmeans⟩
    obtain ⟨d', hparse, hmeans'⟩ := hmeanings g hg
    exact ⟨d', hparse, hmeans'.trans hmeans⟩

end Document

end LabelTemplate.Xml
