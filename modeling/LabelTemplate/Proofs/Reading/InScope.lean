import LabelTemplate.Proofs.Writing.RoundTrip

/-!
# The namespaces in scope are those of reading

Reading resolves the names of an element in the declarations of the open
elements, searched from the inside out.  `namespacesInScope` goes from the root
of the finished tree inwards and binds one prefix after the other.

The bindings at a node are those at its parent with its own declarations on top
(`Linked.namespacesInScope_eq`).  So along a tree that was read they mirror the
declarations of the open elements (`Planted.namedIn`), and every name of a
document is what they say (`namedIn_of_parse`).
-/

namespace LabelTemplate.Xml

/-! ## The way up -/

namespace Document

variable {d : Document}

/-- A way up is complete with as many steps as there are ancestors. -/
theorem chainUp_succ {fuel : Nat} {n : NodeId} (h : d.ancestor? (fuel + 1) n = none) :
    d.chainUp (fuel + 1) n = d.chainUp fuel n := by
  induction fuel generalizing n with
  | zero =>
    have hroot : d.parent? n = none := by
      rwa [ancestor?_succ, show d.ancestor? 0 = some from rfl, Option.bind_fun_some] at h
    simp only [chainUp, hroot]
  | succ fuel ih =>
    conv_lhs => unfold chainUp
    conv_rhs => unfold chainUp
    cases hp : d.parent? n with
    | none => rfl
    | some p =>
      rw [ancestor?_succ, hp, Option.bind_some] at h
      simp only [ih h]

/-- The ancestors of a node are its parent and those of its parent. -/
theorem Linked.selfAndAncestors_eq (hd : d.Linked) (n : NodeId) :
    d.selfAndAncestors n =
      n :: match d.parent? n with
        | some p => d.selfAndAncestors p
        | none => [] := by
  cases hp : d.parent? n with
  | none =>
    unfold selfAndAncestors
    cases d.size with
    | zero => rfl
    | succ size => rw [chainUp, hp]
  | some p =>
    have hup : d.ancestor? d.size p = none := by
      rw [Option.eq_none_iff_forall_ne_some]
      intro a ha
      have hlong : d.ancestor? (d.size + 1) n = some a := by
        rw [ancestor?_succ, hp, Option.bind_some, ha]
      exact Nat.not_succ_lt_self (hd.lt_size_of_ancestor?_succ hlong)
    unfold selfAndAncestors
    obtain ⟨size, hsize⟩ := Nat.exists_eq_succ_of_ne_zero
      (Nat.ne_of_gt (Nat.zero_lt_of_lt (lt_size_of_parent? hp)))
    rw [hsize] at hup ⊢
    rw [chainUp, hp]
    exact congrArg (n :: ·) (chainUp_succ hup).symm

/-- The bindings around a node. -/
def namespacesAround (d : Document) (n : NodeId) : PrefixBindings :=
  (d.parent? n).elim .fixed d.namespacesInScope

/-- An element adds its declarations to the bindings around it. -/
theorem Linked.namespacesInScope_eq (hd : d.Linked) {n : NodeId} {e : Element}
    (he : d.element? n = some e) :
    d.namespacesInScope n = e.namespaces.foldl .bind (d.namespacesAround n) := by
  unfold namespacesAround namespacesInScope
  rw [hd.selfAndAncestors_eq n, List.reverse_cons, List.foldl_append, List.foldl_cons,
    List.foldl_nil, he]
  cases d.parent? n <;> rfl

end Document

/-! ## Names -/

/-- The names of an element are in the namespaces that their prefixes are bound
to.  An empty namespace is none, and an attribute without prefix is in none. -/
structure Element.NamedIn (scope : PrefixBindings) (e : Element) : Prop where
  name : e.name.namespaceUri = (scope.uri? e.name.pfx).filter (!·.isEmpty)
  prefixed : ∀ a ∈ e.attributes, ∀ p, a.name.pfx = some p →
    ∃ uri, uri ≠ "" ∧ a.name.namespaceUri = some uri ∧ scope.uri? (some p) = some uri
  plain : ∀ a ∈ e.attributes, a.name.pfx = none → a.name.namespaceUri = none

/-- Where `xml` is bound as it must be the two agree on it as well. -/
theorem Mirrors.lookup_eq {scope : PrefixBindings} {scopes : List (List NamespaceDecl)}
    (h : Mirrors scope scopes) (hxml : scope.uri? (some "xml") = some xmlNamespace)
    (p : Option String) : PartialTree.lookup scopes p = (scope.uri? p).filter (!·.isEmpty) := by
  by_cases hp : p = some "xml"
  · rw [PartialTree.lookup, if_pos hp, hp, hxml, Option.filter_some]
    rfl
  · exact h p hp

/-- An element that was read inside of declarations is named by the bindings
that mirror them. -/
theorem Element.ReadIn.namedIn {scopes : List (List NamespaceDecl)} {scope : PrefixBindings}
    {e : Element} (h : e.ReadIn scopes) (hmirrors : Mirrors scope (e.namespaces :: scopes))
    (hxml : scope.uri? (some "xml") = some xmlNamespace) : e.NamedIn scope where
  name := by
    rw [← hmirrors.lookup_eq hxml]
    obtain ⟨-, ⟨hpfx, huri⟩ | ⟨p, uri, hpfx, huri, hlookup⟩⟩ :=
      PartialTree.resolveName_eq_ok_iff.1 h.name
    · rw [huri, if_pos rfl, hpfx]
    · rw [huri, hpfx, hlookup]
  prefixed a ha p hp := by
    obtain ⟨-, ⟨hpfx, -⟩ | ⟨q, uri, hpfx, huri, hlookup⟩⟩ :=
      PartialTree.resolveName_eq_ok_iff.1 (h.attributes a ha)
    · rw [hp] at hpfx
      cases hpfx
    · obtain rfl : p = q := Option.some.inj (hp.symm.trans hpfx)
      rw [hmirrors.lookup_eq hxml] at hlookup
      obtain ⟨hbound, hne⟩ := Option.filter_eq_some_iff.1 hlookup
      exact ⟨uri, by simpa using hne, huri, hbound⟩
  plain a ha hp := by
    obtain ⟨-, ⟨-, huri⟩ | ⟨q, uri, hpfx, -⟩⟩ :=
      PartialTree.resolveName_eq_ok_iff.1 (h.attributes a ha)
    · exact huri
    · rw [hp] at hpfx
      cases hpfx

/-! ## Along the tree -/

namespace Document

variable {d : Document}

/-- The elements of a legible forest are named by the bindings in scope, if those
around it mirror the declarations it was read in. -/
theorem Planted.namedIn (hd : d.Linked) {par : Option NodeId} {base : Nat} {f : Forest}
    (hf : d.Planted par base f) {scopes : List (List NamespaceDecl)} (hlegible : f.Legible scopes)
    (hkeeps : ∀ n e, d.element? n = some e → e.KeepsXml) {scope : PrefixBindings}
    (hmirrors : Mirrors scope scopes) (hxml : scope.uri? (some "xml") = some xmlNamespace)
    (haround : par.elim .fixed d.namespacesInScope = scope) {m : Nat} (hle : base ≤ m)
    (hlt : m < base + f.size) {e : Element} (he : d.element? m = some e) :
    e.NamedIn (d.namespacesInScope m) := by
  induction f generalizing par base scopes scope with
  | nil => exact absurd hle (Nat.not_le.2 hlt)
  | node kind line kids rest ihk ihr =>
    obtain ⟨hnode, hkids, hrest⟩ := hf
    have hkind : d.kind? base = some kind := kind?_of_node? hnode
    rw [Forest.size] at hlt
    rcases Nat.lt_or_ge m (base + 1 + kids.size) with hbefore | hafter
    · cases kind with
      | comment text =>
        obtain ⟨⟨rfl, -⟩, -⟩ := hlegible
        rw [Forest.size] at hbefore
        obtain rfl : m = base := by omega
        rw [element?, hkind] at he
        cases he
      | element e' =>
        obtain ⟨⟨hread, -, hkidsLegible⟩, -⟩ := hlegible
        have he' : d.element? base = some e' := by
          rw [element?, hkind]
          rfl
        have hnodup : (e'.namespaces.map (·.pfx)).Nodup :=
          nodup_prefixes (List.nodup_append.1 hread.keys).1
        have hinner := hmirrors.bind hnodup
        have hinnerXml := Element.uri?_xml (hkeeps base e' he') hnodup hxml
        have hscope : d.namespacesInScope base = e'.namespaces.foldl .bind scope := by
          rw [hd.namespacesInScope_eq he', namespacesAround, Document.parent?, hnode, ← haround]
          rfl
        rcases Nat.eq_or_lt_of_le hle with rfl | hinside
        · rw [he'] at he
          cases he
          rw [hscope]
          exact hread.namedIn hinner hinnerXml
        · exact ihk hkids hkidsLegible hinner hinnerXml hscope hinside hbefore
    · have hrestLegible : rest.Legible scopes := by cases kind <;> exact hlegible.2
      exact ihr hrest hrestLegible hmirrors hxml haround hafter (by omega)

/-- The names of a document that was read are in the namespaces that are in
scope, as long as no declaration takes `xml` for another namespace. -/
theorem namedIn_of_parse {input : String} {d : Document} (h : parse input = .ok d)
    (hxml : ∀ n e, d.element? n = some e →
      ∀ decl ∈ e.namespaces, decl.pfx = some "xml" → decl.uri = xmlNamespace) :
    ∀ n e, d.element? n = some e → e.NamedIn (d.namespacesInScope n) := by
  have hd : d.WellFormed := wellFormed_of_parse h
  obtain ⟨prolog, root, line, kids, -, htree, rfl⟩ := legible_of_parse h
  intro n e he
  have hplanted : (ofTree prolog root line kids).Planted none 0
      (.node (.element root) line kids .nil) :=
    @planted_of_agree { nodes := #[], root := 0 } _ none (by simp) _ fun _ _ _ => rfl
  have hlt : n < 0 + (Forest.node (.element root) line kids .nil).size := by
    have hn : n < (ofTree prolog root line kids).size :=
      lt_size_of_isElement (by rw [isElement, he]; rfl)
    have hsize : (ofTree prolog root line kids).size = _ := size_ofForest _
    rwa [hsize, ← Nat.zero_add (Forest.size _)] at hn
  exact hplanted.namedIn hd.linked htree hxml mirrors_fixed (by decide) rfl (Nat.zero_le n) hlt he

/-- A default namespace that is undone inside, and a prefix that is bound again
there. -/
theorem namedIn_of_parse_shadowed :
    ∃ d, parse ("<p:a xmlns='u' xmlns:p='v'><b xmlns='' xmlns:p='w' p:x='1' y='2'>" ++
        "<p:c/></b><c/></p:a>") = .ok d ∧
      ∀ n e, d.element? n = some e → e.NamedIn (d.namespacesInScope n) := by
  let c : Element := { name := ⟨none, some "u", "c"⟩ }
  let pc : Element := { name := ⟨some "p", some "w", "c"⟩ }
  let b : Element :=
    { name := .plain "b", namespaces := [⟨none, ""⟩, ⟨some "p", "w"⟩]
      attributes := [⟨⟨some "p", some "w", "x"⟩, "1"⟩, ⟨.plain "y", "2"⟩] }
  let a : Element :=
    { name := ⟨some "p", some "v", "a"⟩, namespaces := [⟨none, "u"⟩, ⟨some "p", "v"⟩] }
  let d : Document := .ofTree [] a (some 1)
    (.node (.element b) (some 1) (.node (.element pc) (some 1) .nil .nil)
      (.node (.element c) (some 1) .nil .nil))
  have hparse : parse ("<p:a xmlns='u' xmlns:p='v'><b xmlns='' xmlns:p='w' p:x='1' y='2'>" ++
      "<p:c/></b><c/></p:a>") = .ok d := by
    decide +kernel
  exact ⟨d, hparse, namedIn_of_parse hparse (forall_element?_of_nodes (by decide))⟩

end Document

end LabelTemplate.Xml
