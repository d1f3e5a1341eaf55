import LabelTemplate.Proofs.Walk.Copies
import LabelTemplate.Proofs.Writing.ReadBack

/-!
# Reading undoes writing

A document that was read is written so that reading it again gives the same
document, apart from the lines of its nodes and empty texts
(`parse_toXml_of_parse`).  Its names must be names in XML, and no declaration
may bind the prefix `xml` to another namespace, which the reader would not
refuse.
-/

namespace LabelTemplate.Xml

/-- No declaration of the element binds `xml` to another namespace. -/
def Element.KeepsXml (e : Element) : Prop :=
  ∀ decl ∈ e.namespaces, decl.pfx = some "xml" → decl.uri = xmlNamespace

/-- What the elements of a document have to satisfy to be read back. -/
def NodeKind.Nameable (k : NodeKind) : Prop :=
  ∀ e, k.element? = some e → e.XmlNames ∧ e.KeepsXml

namespace Element

theorem uri?_xml {e : Element} (h : e.KeepsXml) (hnodup : (e.namespaces.map (·.pfx)).Nodup)
    {scope : PrefixBindings} (hxml : scope.uri? (some "xml") = some xmlNamespace) :
    (e.namespaces.foldl .bind scope).uri? (some "xml") = some xmlNamespace := by
  rw [PrefixBindings.uri?_foldl_bind hnodup]
  split
  · rename_i decl hdecl
    rw [h decl (List.mem_of_find?_eq_some hdecl) (by simpa using List.find?_some hdecl)]
  · exact hxml

/-- The text of an element that was read stays what it was. -/
theorem bare_finalText {e : Element} {kids : Forest} (h : e.TextStays kids) :
    (e.finalText kids).filter (!·.isEmpty) = e.text.filter (!·.isEmpty) := by
  unfold finalText shownText
  by_cases hkids : kids = .nil
  · rw [if_pos hkids, Option.filter_filter]
    simp
  · rw [if_neg hkids]
    cases htext : e.text with
    | none => rfl
    | some s =>
      have hblank := h hkids s htext
      by_cases hempty : s.isEmpty = true <;> simp [Option.filter, hempty, hblank]

end Element

namespace Forest

theorem Legible.writable {scopes : List (List NamespaceDecl)} {f : Forest} (hf : f.Legible scopes)
    (hnames : f.AllKinds NodeKind.Nameable) : f.Writable := by
  induction f generalizing scopes with
  | nil => trivial
  | node kind line kids rest ihk ihr =>
    obtain ⟨hkind, hkidsNames, hrestNames⟩ := hnames
    cases kind with
    | comment text => exact ⟨hf.1.1, hf.1.2, ihr hf.2 hrestNames⟩
    | element e =>
      obtain ⟨⟨hread, -, hkids⟩, hrest⟩ := hf
      exact ⟨(hkind e rfl).1.writable hread.plain, ihk hkids hkidsNames, ihr hrest hrestNames⟩

/-- A forest that was read is read again as it is. -/
theorem Legible.reread {scopes : List (List NamespaceDecl)} {f : Forest} (hf : f.Legible scopes)
    (hnames : f.AllKinds NodeKind.Nameable) {scope : PrefixBindings}
    (hmirrors : Mirrors scope scopes) (hxml : scope.uri? (some "xml") = some xmlNamespace) :
    ∃ g, f.reread scopes scope = some g ∧ g.bare = f.bare := by
  induction f generalizing scopes scope with
  | nil => exact ⟨.nil, rfl, rfl⟩
  | node kind line kids rest ihk ihr =>
    obtain ⟨hkind, hkidsNames, hrestNames⟩ := hnames
    cases kind with
    | comment text =>
      obtain ⟨⟨rfl, -⟩, hrest⟩ := hf
      obtain ⟨rest', hrest', hbare⟩ := ihr hrest hrestNames hmirrors hxml
      refine ⟨.node (.comment text) none .nil rest', ?_, ?_⟩
      · simp only [Forest.reread, hrest', Option.map_some]
      · simp only [bare, hbare]
    | element e =>
      obtain ⟨⟨hread, htext, hkids⟩, hrest⟩ := hf
      obtain ⟨hxmlNames, hkeeps⟩ := hkind e rfl
      have hnodup : (e.namespaces.map (·.pfx)).Nodup :=
        nodup_prefixes (List.nodup_append.1 hread.keys).1
      have hinner := hmirrors.bind hnodup
      have hinnerXml := Element.uri?_xml hkeeps hnodup hxml
      have hdecls : e.shownDecls scope = e.namespaces := by
        rw [Element.shownDecls, missingDecls_eq_nil hread hinner hinnerXml, List.append_nil]
      have hwritable := hxmlNames.writable hread.plain
      have helement : PartialTree.readElement scopes (e.head e.namespaces) =
          .ok { e with text := none } :=
        (PartialTree.readElement_head hwritable hwritable.prefixes scopes _).2
          ⟨hread.keys, Element.reread_eq_ok hread.name hread.attributes⟩
      obtain ⟨kids', hkids', hkidsBare⟩ := ihk hkids hkidsNames hinner hinnerXml
      obtain ⟨rest', hrest', hrestBare⟩ := ihr hrest hrestNames hmirrors hxml
      refine ⟨.node (.element { e with text := e.finalText kids }) none kids' rest', ?_, ?_⟩
      · simp only [Forest.reread, hdecls, helement, hkids', hrest', Except.toOption]
        rfl
      · simp only [bare, NodeKind.mapElement, Element.bare, hkidsBare, hrestBare,
          Element.bare_finalText htext]

end Forest

namespace Document

/-- Reading undoes writing, for a document that was read. -/
theorem parse_toXml_of_parse {input : String} {d : Document} (h : parse input = .ok d)
    (hnames : ∀ n e, d.element? n = some e → e.XmlNames)
    (hxml : ∀ n e, d.element? n = some e →
      ∀ decl ∈ e.namespaces, decl.pfx = some "xml" → decl.uri = xmlNamespace) :
    ∃ d', parse d.toXml = .ok d' ∧ d'.bare = d.bare := by
  obtain ⟨prolog, e, line, kids, hprolog, htree, rfl⟩ := legible_of_parse h
  have hspells : Spells (ofTree prolog e line kids) [(ofTree prolog e line kids).root]
      (.node (.element e) line kids .nil) := by
    rw [(root_ofTree prolog e line kids).1]
    exact spells_ofForest (.element e) line kids prolog
  have hnameable : (ofTree prolog e line kids).AllKinds NodeKind.Nameable :=
    allKinds_iff.2 fun n e he => ⟨hnames n e he, hxml n e he⟩
  have hall := hspells.allKinds hnameable
  have hwritable := htree.writable hall
  obtain ⟨f, hf, hheight⟩ :=
    (wellFormed_ofTree htree.proper prolog).exists_spells [(ofTree prolog e line kids).root]
      (by simpa using (wellFormed_ofTree htree.proper prolog).root_lt_size)
  rw [hf.unique hspells] at hheight
  obtain ⟨g, hg, hbare⟩ := htree.reread hall mirrors_fixed (by decide)
  obtain ⟨d', hparse, hd'⟩ :=
    (parse_toXml hspells hheight hprolog hwritable.1 hwritable.2.1).1 g hg
  refine ⟨d', hparse, hd'.trans ?_⟩
  exact congrArg (fun x : Document => { x with prolog }) (bare_ofForest hbare)

theorem parse_toXml_of_parse_prefixed :
    ∃ d d', parse "<!--c--><a xmlns='u' xmlns:p='v'>\n<b p:x='&lt;'> t</b></a>" = .ok d ∧
      parse d.toXml = .ok d' ∧ d'.bare = d.bare := by
  let b : Element :=
    { name := ⟨none, some "u", "b"⟩, attributes := [⟨⟨some "p", some "v", "x"⟩, "<"⟩],
      text := some " t" }
  let a : Element :=
    { name := ⟨none, some "u", "a"⟩, namespaces := [⟨none, "u"⟩, ⟨some "p", "v"⟩] }
  let d : Document := .ofTree [.comment "c"] a (some 1) (.node (.element b) (some 2) .nil .nil)
  have hparse : parse "<!--c--><a xmlns='u' xmlns:p='v'>\n<b p:x='&lt;'> t</b></a>" = .ok d := by
    decide +kernel
  obtain ⟨d', hd'⟩ := parse_toXml_of_parse hparse (forall_element?_of_nodes (by decide))
    (forall_element?_of_nodes (by decide))
  exact ⟨d, d', hparse, hd'⟩

end Document

end LabelTemplate.Xml
