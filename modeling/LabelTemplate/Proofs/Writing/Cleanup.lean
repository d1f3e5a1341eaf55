import LabelTemplate.Proofs.Arena.Path
import LabelTemplate.Proofs.Writing.Meaning
import LabelTemplate.Proofs.Writing.RoundTrip
import LabelTemplate.Proofs.Writing.Trimming

/-!
# Cleaning up declarations is safe

`cleanupNamespaces` drops declarations by their namespace, all over the
document, also where one undoes or shadows another.  `Uses` says without a
traversal which namespaces are used, and `WellFormed.node?_cleanupNamespaces`
node by node what is dropped.

What is lost is made good by the writer.  An element that was read is
unambiguous, and stays so with fewer declarations, so it is read back with all
its names in any scope; by induction along the forest, whatever is dropped
(`Forest.Legible.reread_restricted`).  So a document that was read comes back
from a cleaned one with everything but its declarations (`cleanup_safe`).
-/

namespace LabelTemplate.Xml

/-! ## Elements that were read -/

namespace Element

/-- The names of an element that was read are looked up as what they are. -/
theorem ReadIn.lookup_eq {scopes : List (List NamespaceDecl)} {e : Element} (h : e.ReadIn scopes)
    {decl : NamespaceDecl} (hdecl : decl ∈ e.demands) :
    decl.uri = (PartialTree.lookup (e.namespaces :: scopes) decl.pfx).getD "" := by
  rcases List.mem_cons.1 hdecl with rfl | hdecl
  · obtain ⟨-, ⟨hpfx, huri⟩ | ⟨p, uri, hpfx, huri, hlookup⟩⟩ :=
      PartialTree.resolveName_eq_ok_iff.1 h.name
    · simp only [QName.demand, hpfx, huri, if_true]
    · simp only [QName.demand, hpfx, huri, hlookup]
  · obtain ⟨a, ha, rfl⟩ := List.mem_map.1 hdecl
    obtain ⟨ha, hsome⟩ := List.mem_filter.1 ha
    obtain ⟨-, ⟨hpfx, -⟩ | ⟨p, uri, hpfx, huri, hlookup⟩⟩ :=
      PartialTree.resolveName_eq_ok_iff.1 (h.attributes a ha)
    · rw [hpfx] at hsome
      cases hsome
    · simp only [QName.demand, hpfx, huri, hlookup]

/-- So are its declarations, as long as `xml` is kept. -/
theorem ReadIn.lookup_own {scopes : List (List NamespaceDecl)} {e : Element} (h : e.ReadIn scopes)
    (hkeeps : e.KeepsXml) {decl : NamespaceDecl} (hdecl : decl ∈ e.namespaces) :
    decl.uri = (PartialTree.lookup (e.namespaces :: scopes) decl.pfx).getD "" := by
  by_cases hxml : decl.pfx = some "xml"
  · rw [PartialTree.lookup, if_pos hxml, hkeeps decl hdecl hxml]
    rfl
  · have hnodup : (e.namespaces.map (·.pfx)).Nodup :=
      nodup_prefixes (List.nodup_append.1 h.keys).1
    rw [PartialTree.lookup_cons hxml, find?_pfx hnodup hdecl]
    by_cases hempty : decl.uri = "" <;> simp [Option.filter_some, hempty]

/-- No prefix is declared or wanted for two namespaces in an element that was
read: all are looked up in one place. -/
theorem ReadIn.unambiguous {scopes : List (List NamespaceDecl)} {e : Element} (h : e.ReadIn scopes)
    (hkeeps : e.KeepsXml) : e.Unambiguous := by
  have hlookup : ∀ a ∈ e.namespaces ++ e.demands,
      a.uri = (PartialTree.lookup (e.namespaces :: scopes) a.pfx).getD "" := fun a ha =>
    (List.mem_append.1 ha).elim (h.lookup_own hkeeps) h.lookup_eq
  intro a ha b hb hpfx
  rw [hlookup a ha, hlookup b hb, hpfx]

/-- The element with those of its declarations that pass a test. -/
def keeping (keep : NamespaceDecl → Bool) (e : Element) : Element :=
  { e with namespaces := e.namespaces.filter keep }

@[simp] theorem names_keeping (keep : NamespaceDecl → Bool) (e : Element) :
    (e.keeping keep).names = e.names := rfl

/-- Fewer declarations clash with fewer. -/
theorem Unambiguous.keeping {e : Element} (h : e.Unambiguous) (keep : NamespaceDecl → Bool) :
    (e.keeping keep).Unambiguous := by
  have hmem : ∀ a ∈ (e.keeping keep).namespaces ++ e.demands, a ∈ e.namespaces ++ e.demands :=
    fun a ha => (List.mem_append.1 ha).elim
      (fun ha => List.mem_append_left _ (List.filter_sublist.subset ha)) (List.mem_append_right _)
  exact fun a ha b hb => h a (hmem a ha) b (hmem b hb)

theorem Sayable.keeping {e : Element} (h : (NodeKind.element e).Sayable)
    (keep : NamespaceDecl → Bool) : (NodeKind.element (e.keeping keep)).Sayable :=
  Element.Sayable.fewer h (List.Sublist.refl _) List.filter_sublist e.text

end Element

/-! ## Forests with fewer declarations -/

namespace Forest

/-- A forest that was read comes back with all but its declarations when it is
written without some of them, in whatever scope. -/
theorem Legible.reread_restricted {f : Forest} {read : List (List NamespaceDecl)}
    (hf : f.Legible read) (hnames : f.AllKinds NodeKind.Nameable) (used : List String)
    {scopes : List (List NamespaceDecl)} {scope : PrefixBindings} (hmirrors : Mirrors scope scopes) :
    (f.restricted used).Writable ∧
      ∃ g, (f.restricted used).reread scopes scope = some g ∧ g.undeclared = f.undeclared := by
  induction f generalizing read scopes scope with
  | nil => exact ⟨trivial, .nil, rfl, rfl⟩
  | node kind line kids rest ihk ihr =>
    obtain ⟨hkind, hkidsNames, hrestNames⟩ := hnames
    cases kind with
    | comment text =>
      obtain ⟨⟨rfl, htext⟩, hrest⟩ := hf
      obtain ⟨hwritable, rest', hrest', hsame⟩ := ihr hrest hrestNames hmirrors
      refine ⟨⟨rfl, htext, hwritable⟩, .node (.comment text) none .nil rest', ?_, ?_⟩
      · change ((rest.restricted used).reread scopes scope).map _ = _
        rw [hrest']
        rfl
      · rw [undeclared_node, undeclared_node, hsame]
    | element e =>
      obtain ⟨⟨hread, htext, hkids⟩, hrest⟩ := hf
      obtain ⟨hxmlNames, hkeeps⟩ := hkind e rfl
      let e' : Element := e.keeping (used.contains ·.uri)
      have hsayable : (NodeKind.element e').Sayable :=
        Element.Sayable.keeping ⟨hread.resolved, hxmlNames⟩ _
      have hone : e'.Unambiguous := (hread.unambiguous hkeeps).keeping _
      have hwritable : e'.Writable := hsayable.2.writable hsayable.1.undeclared
      have helement := readElement_of_unambiguous hmirrors hsayable.1 hwritable hone
      have hinner := hmirrors.bind (hone.nodup_shownDecls hsayable.1 scope)
      obtain ⟨hkidsWritable, kids', hkids', hkidsSame⟩ := ihk hkids hkidsNames hinner
      obtain ⟨hrestWritable, rest', hrest', hrestSame⟩ := ihr hrest hrestNames hmirrors
      refine ⟨⟨hwritable, hkidsWritable, hrestWritable⟩, .node (.element
        { e' with namespaces := e'.shownDecls scope,
                  text := e'.finalText (kids.restricted used) }) none kids' rest', ?_, ?_⟩
      · change (Forest.node (.element e') line (kids.restricted used)
          (rest.restricted used)).reread scopes scope = _
        rw [Forest.reread, helement, hkids', hrest']
        rfl
      · have hfinal : (e'.finalText (kids.restricted used)).filter (!·.isEmpty) =
            e.text.filter (!·.isEmpty) := by
          refine Element.bare_finalText (e := e') fun hne => htext fun hnil => hne ?_
          rw [hnil]
          rfl
        rw [undeclared_node, undeclared_node, hkidsSame, hrestSame]
        exact congrArg (fun e => node (.element e) none kids.undeclared rest.undeclared)
          (Element.undeclared_congr rfl rfl hfinal)

end Forest

/-! ## Documents with fewer declarations -/

namespace Document

/-- A name of an attached element is in the namespace. -/
def Uses (d : Document) (uri : String) : Prop :=
  ∃ n e, d.isAttached n = true ∧ d.element? n = some e ∧ ∃ q ∈ e.names, q.namespaceUri = some uri

/-- True of the declarations of a node that the cleanup leaves. -/
def stays (d : Document) (n : NodeId) (decl : NamespaceDecl) : Bool :=
  !d.isAttached n || d.usedNamespaces.contains decl.uri

section Cleaned

variable {d : Document} (hd : d.WellFormed)

include hd

theorem WellFormed.mem_usedNamespaces {uri : String} : uri ∈ d.usedNamespaces ↔ d.Uses uri := by
  rw [usedNamespaces, List.mem_flatMap]
  constructor
  · rintro ⟨n, hn, huri⟩
    obtain ⟨hwithin, -⟩ := hd.mem_descendantElements_root.1 hn
    cases he : d.element? n with
    | none =>
      rw [he] at huri
      cases huri
    | some e =>
      rw [he] at huri
      exact ⟨n, e, hd.isAttached_iff.2 hwithin, he, List.mem_filterMap.1 huri⟩
  · rintro ⟨n, e, hn, he, huri⟩
    have helement : d.isElement n = true := by
      rw [isElement, he]
      rfl
    refine ⟨n, hd.mem_descendantElements_root.2 ⟨hd.isAttached_iff.1 hn, helement⟩, ?_⟩
    rw [he]
    exact List.mem_filterMap.2 huri

/-- Attached elements lose declarations, and nothing else changes. -/
theorem WellFormed.node?_cleanupNamespaces (n : NodeId) :
    d.cleanupNamespaces.node? n =
      (d.node? n).map fun x => { x with kind := x.kind.mapElement (.keeping (d.stays n)) } := by
  have hnodup : (d.descendantElements d.root).Nodup :=
    (hd.nodup_descendants hd.root_lt_size).filter _
  rw [cleanupNamespaces, node?_updateAll _ hnodup]
  cases hx : d.node? n with
  | none => exact ite_self _
  | some x =>
    obtain ⟨kind, parent, children, line⟩ := x
    have hmem : n ∈ d.descendantElements d.root ↔ d.isAttached n = true ∧ kind.isElement = true := by
      rw [hd.mem_descendantElements_root, hd.isAttached_iff, InTree, isElement_eq,
        kind?_of_node? hx]
      rfl
    cases hattached : d.isAttached n with
    | true =>
      have hstays : d.stays n = (d.usedNamespaces.contains ·.uri) := by
        funext decl
        simp [stays, hattached]
      cases kind with
      | element e =>
        rw [if_pos (hmem.2 ⟨hattached, rfl⟩), hstays]
        rfl
      | comment text =>
        rw [if_neg fun h => by cases (hmem.1 h).2]
        rfl
    | false =>
      have hstays : d.stays n = fun _ => true := by
        funext decl
        simp [stays, hattached]
      rw [if_neg fun h => Bool.false_ne_true (hattached.symm.trans (hmem.1 h).1), hstays]
      cases kind <;> simp [NodeKind.mapElement, Element.keeping]

theorem WellFormed.element?_cleanupNamespaces (n : NodeId) :
    d.cleanupNamespaces.element? n = (d.element? n).map (.keeping (d.stays n)) := by
  rw [element?, element?, kind?, kind?, hd.node?_cleanupNamespaces]
  cases d.node? n with
  | none => rfl
  | some x => exact NodeKind.element?_mapElement x.kind _

theorem WellFormed.isAttached_cleanupNamespaces (n : NodeId) :
    d.cleanupNamespaces.isAttached n = d.isAttached n := by
  have hparent : ∀ m, d.cleanupNamespaces.parent? m = d.parent? m := fun m => by
    rw [parent?, parent?, hd.node?_cleanupNamespaces]
    cases d.node? m <;> rfl
  have hroot : d.cleanupNamespaces.root = d.root := root_updateAll d _ _
  rw [Bool.eq_iff_iff, hd.isAttached_iff, (cleanupNamespaces_keeps hd).1.isAttached_iff, hroot]
  exact ⟨Within.mono fun m p h => hparent m ▸ h, Within.mono fun m p h => (hparent m).symm ▸ h⟩

/-- Names stay, so that the same namespaces are used. -/
theorem WellFormed.uses_cleanupNamespaces {uri : String} :
    d.cleanupNamespaces.Uses uri ↔ d.Uses uri := by
  unfold Uses
  refine exists_congr fun n => ?_
  rw [hd.isAttached_cleanupNamespaces, hd.element?_cleanupNamespaces]
  cases d.element? n <;> simp

/-- A declaration goes exactly if its element is attached and nothing uses its
namespace. -/
theorem WellFormed.stays_iff {n : NodeId} {decl : NamespaceDecl} :
    d.stays n decl = true ↔ (d.isAttached n = true → d.Uses decl.uri) := by
  rw [stays, ← hd.mem_usedNamespaces]
  cases d.isAttached n <;> simp

end Cleaned

/-- A document that was read is cleaned up safely.  What remains declared on
attached elements is used, all else that was declared is kept, and the cleaned
document is read back as what it was, but for lines and declarations. -/
theorem cleanup_safe {input : String} {d : Document} (h : parse input = .ok d)
    (hnames : ∀ n e, d.element? n = some e → e.XmlNames)
    (hxml : ∀ n e, d.element? n = some e →
      ∀ decl ∈ e.namespaces, decl.pfx = some "xml" → decl.uri = xmlNamespace) :
    (∀ n e, d.cleanupNamespaces.isAttached n = true → d.cleanupNamespaces.element? n = some e →
      ∀ decl ∈ e.namespaces, d.cleanupNamespaces.Uses decl.uri) ∧
    (∀ n e, d.element? n = some e → ∃ kept,
      d.cleanupNamespaces.element? n = some { e with namespaces := kept } ∧
      kept.Sublist e.namespaces ∧
      ∀ decl ∈ e.namespaces, decl ∈ kept ↔ (d.isAttached n = true → d.Uses decl.uri)) ∧
    ∃ d', parse d.cleanupNamespaces.toXml = .ok d' ∧ d'.undeclared = d.undeclared := by
  have hd : d.WellFormed := wellFormed_of_parse h
  refine ⟨fun n e hn he decl hdecl => ?used, fun n e he => ?kept, ?read⟩
  case used =>
    rw [hd.isAttached_cleanupNamespaces] at hn
    rw [hd.element?_cleanupNamespaces] at he
    obtain ⟨e, -, rfl⟩ := Option.map_eq_some_iff.1 he
    exact hd.uses_cleanupNamespaces.2 (hd.stays_iff.1 (List.mem_filter.1 hdecl).2 hn)
  case kept =>
    refine ⟨e.namespaces.filter (d.stays n), ?_, List.filter_sublist, fun decl hdecl => ?_⟩
    · rw [hd.element?_cleanupNamespaces, he]
      rfl
    · rw [List.mem_filter, hd.stays_iff]
      exact and_iff_right hdecl
  case read =>
    obtain ⟨prolog, e, line, kids, hprolog, htree, rfl⟩ := legible_of_parse h
    have hspells : Spells (ofTree prolog e line kids) [(ofTree prolog e line kids).root]
        (.node (.element e) line kids .nil) := by
      rw [(root_ofTree prolog e line kids).1]
      exact spells_ofForest (.element e) line kids prolog
    have hall := hspells.allKinds
      (allKinds_iff.2 fun n e he => ⟨hnames n e he, hxml n e he⟩ :
        (ofTree prolog e line kids).AllKinds NodeKind.Nameable)
    obtain ⟨hwritable, g, hg, hsame⟩ :=
      htree.reread_restricted hall (Forest.usedNamespaces _) mirrors_fixed
    have hcleaned := spells_cleanupNamespaces hd hspells
    obtain ⟨hwf, hkeptProlog⟩ := cleanupNamespaces_keeps hd
    obtain ⟨f, hf, hheight⟩ := hwf.exists_spells [_] (by simpa using hwf.root_lt_size)
    rw [hf.unique hcleaned] at hheight
    obtain ⟨d', hparse, hd'⟩ :=
      (parse_toXml hcleaned hheight (hkeptProlog ▸ hprolog) hwritable.1 hwritable.2.1).1 g hg
    refine ⟨d', hparse, ?_⟩
    rw [← undeclared_bare, hd', undeclared_bare, hkeptProlog]
    exact congrArg (fun x : Document => { x with prolog }) (undeclared_ofForest hsame)

/-- A default namespace that is undone, one prefix for two namespaces, and one
that nothing uses. -/
theorem cleanup_safe_shadowed :
    ∃ d d', parse ("<p:a xmlns='u' xmlns:p='v' xmlns:q='w'><b xmlns='' xmlns:p='w'><c/></b>" ++
        "<c p:x='1'>t</c></p:a>") = .ok d ∧
      (d.Uses "v" ∧ ¬ d.Uses "w" ∧ ¬ d.Uses "") ∧
      parse d.cleanupNamespaces.toXml = .ok d' ∧ d'.undeclared = d.undeclared := by
  let bare : Element := { name := .plain "c" }
  let b : Element := { name := .plain "b", namespaces := [⟨none, ""⟩, ⟨some "p", "w"⟩] }
  let c : Element :=
    { name := ⟨none, some "u", "c"⟩, attributes := [⟨⟨some "p", some "v", "x"⟩, "1"⟩]
      text := some "t" }
  let a : Element :=
    { name := ⟨some "p", some "v", "a"⟩
      namespaces := [⟨none, "u"⟩, ⟨some "p", "v"⟩, ⟨some "q", "w"⟩] }
  let d : Document := .ofTree [] a (some 1)
    (.node (.element b) (some 1) (.node (.element bare) (some 1) .nil .nil)
      (.node (.element c) (some 1) .nil .nil))
  have hparse : parse ("<p:a xmlns='u' xmlns:p='v' xmlns:q='w'><b xmlns='' xmlns:p='w'><c/></b>" ++
      "<c p:x='1'>t</c></p:a>") = .ok d := by
    decide +kernel
  have hused : ∀ {uri}, d.Uses uri ↔ uri ∈ d.usedNamespaces :=
    (wellFormed_of_parse hparse).mem_usedNamespaces.symm
  obtain ⟨-, -, d', hread, hsame⟩ := cleanup_safe hparse (forall_element?_of_nodes (by decide))
    (forall_element?_of_nodes (by decide))
  exact ⟨d, d', hparse, ⟨hused.2 (by decide), mt hused.1 (by decide), mt hused.1 (by decide)⟩,
    hread, hsame⟩

end Document

end LabelTemplate.Xml
