import LabelTemplate.Proofs.Writing.Tree
import Mathlib.Data.List.Nodup

/-!
# Prefixes in writing and in reading

The writer carries one table of the prefixes that are bound where it writes.
The reader looks a prefix up in the declarations of the open elements, from
the inside out.  `Mirrors` says that the two agree on every prefix but `xml`,
which the reader knows anyhow; declarations with distinct prefixes keep it
(`Mirrors.bind`).

So a name that was resolved in the declarations around it needs no other
declaration (`missingDecls_eq_nil`), and resolves to itself when it is read
inside them again.
-/

namespace LabelTemplate.Xml

/-! ## Bindings -/

namespace PrefixBindings

theorem uri?_filter_ne {pfx p : Option String} (h : p ≠ pfx) (b : PrefixBindings) :
    uri? (b.filter (·.1 != pfx)) p = uri? b p := by
  unfold uri?
  induction b with
  | nil => rfl
  | cons x b ih =>
    obtain ⟨q, uri⟩ := x
    by_cases hq : q = pfx
    · subst hq
      have hne : (p == q) = false := beq_false_of_ne h
      simp [List.lookup_cons, hne, ih]
    · simp [List.lookup_cons, hq, ih]

theorem uri?_bind (b : PrefixBindings) (decl : NamespaceDecl) (p : Option String) :
    (b.bind decl).uri? p = if decl.pfx = p then some decl.uri else b.uri? p := by
  by_cases h : decl.pfx = p
  · subst h
    simp [bind, uri?]
  · have hne : (p == decl.pfx) = false := beq_false_of_ne (Ne.symm h)
    rw [if_neg h, ← uri?_filter_ne (Ne.symm h) b]
    simp only [bind, uri?, List.lookup_cons, hne]

/-- The binding of a prefix among declarations with distinct prefixes. -/
theorem uri?_foldl_bind {decls : List NamespaceDecl} (hnodup : (decls.map (·.pfx)).Nodup)
    (b : PrefixBindings) (p : Option String) :
    (decls.foldl bind b).uri? p =
      match decls.find? (·.pfx == p) with
      | some decl => some decl.uri
      | none => b.uri? p := by
  induction decls generalizing b with
  | nil => rfl
  | cons decl decls ih =>
    rw [List.map_cons, List.nodup_cons] at hnodup
    rw [List.foldl_cons, ih hnodup.2, uri?_bind]
    by_cases hp : decl.pfx = p
    · have hnone : decls.find? (·.pfx == p) = none := by
        rw [List.find?_eq_none]
        intro other hother hsame
        refine hnodup.1 ?_
        rw [hp, ← beq_iff_eq.1 hsame]
        exact List.mem_map_of_mem hother
      simp [hp, hnone]
    · have hne : (decl.pfx == p) = false := beq_false_of_ne hp
      rw [if_neg hp, List.find?_cons, hne]

end PrefixBindings

/-- The writer's table and the reader's stack of declarations agree. -/
def Mirrors (scope : PrefixBindings) (scopes : List (List NamespaceDecl)) : Prop :=
  ∀ p, p ≠ some "xml" → PartialTree.lookup scopes p = (scope.uri? p).filter (!·.isEmpty)

theorem mirrors_fixed : Mirrors .fixed [] := by
  intro p hp
  have hne : (p == some "xml") = false := beq_false_of_ne hp
  simp [PartialTree.lookup, hp, PrefixBindings.fixed, PrefixBindings.uri?, List.lookup_cons, hne]

theorem PartialTree.lookup_cons {decls : List NamespaceDecl} {scopes : List (List NamespaceDecl)}
    {p : Option String} (hp : p ≠ some "xml") :
    lookup (decls :: scopes) p =
      match decls.find? (·.pfx == p) with
      | some decl => (some decl.uri).filter (!·.isEmpty)
      | none => lookup scopes p := by
  unfold lookup
  rw [if_neg hp, if_neg hp, List.findSome?_cons]
  cases decls.find? (·.pfx == p) with
  | none => rfl
  | some decl => cases h : decl.uri.isEmpty <;> simp [Option.filter, h]

/-- Declarations with distinct prefixes are bound alike on both sides. -/
theorem Mirrors.bind {scope : PrefixBindings} {scopes : List (List NamespaceDecl)}
    (h : Mirrors scope scopes) {decls : List NamespaceDecl}
    (hnodup : (decls.map (·.pfx)).Nodup) :
    Mirrors (decls.foldl .bind scope) (decls :: scopes) := by
  intro p hp
  rw [PartialTree.lookup_cons hp, PrefixBindings.uri?_foldl_bind hnodup, h p hp]
  cases decls.find? (·.pfx == p) <;> rfl

/-- Distinct names of declarations have distinct prefixes. -/
theorem nodup_prefixes {decls : List NamespaceDecl}
    (h : (decls.map (·.attributeName)).Nodup) : (decls.map (·.pfx)).Nodup := by
  have hname : decls.map (·.attributeName) =
      (decls.map (·.pfx)).map fun p => (⟨p, ""⟩ : NamespaceDecl).attributeName := by
    rw [List.map_map]
    rfl
  rw [hname] at h
  exact List.Nodup.of_map _ h

/-! ## Declarations that are written -/

section Needed

open Document

variable {scope : PrefixBindings} {q : QName} {names : List QName} {uri : String}

theorem neededDecls_cons_of_bound
    (h : ∀ uri, q.namespaceUri = some uri → scope.uri? q.pfx = some uri) :
    neededDecls scope (q :: names) = neededDecls scope names := by
  rw [neededDecls]
  split
  · rfl
  · rw [if_pos (h _ ‹_›)]

theorem neededDecls_cons_of_unbound (huri : q.namespaceUri = some uri)
    (h : scope.uri? q.pfx ≠ some uri) :
    neededDecls scope (q :: names) =
      (⟨q.pfx, uri⟩ :: (neededDecls (scope.bind ⟨q.pfx, uri⟩) names).1,
        (neededDecls (scope.bind ⟨q.pfx, uri⟩) names).2) := by
  rw [neededDecls, huri]
  simp only
  rw [if_neg h]

/-- A name is bound, or it needs a declaration. -/
theorem bound_or_unbound (scope : PrefixBindings) (q : QName) :
    (∀ uri, q.namespaceUri = some uri → scope.uri? q.pfx = some uri) ∨
      ∃ uri, q.namespaceUri = some uri ∧ scope.uri? q.pfx ≠ some uri := by
  cases huri : q.namespaceUri with
  | none => exact .inl (by simp)
  | some uri =>
    by_cases h : scope.uri? q.pfx = some uri
    · exact .inl fun uri' h' => by rw [← h', h]
    · exact .inr ⟨uri, rfl, h⟩

/-- Every added declaration is wanted by a name. -/
theorem exists_of_mem_neededDecls {decl : NamespaceDecl}
    (hdecl : decl ∈ (neededDecls scope names).1) :
    ∃ q ∈ names, q.pfx = decl.pfx ∧ q.namespaceUri = some decl.uri := by
  induction names generalizing scope with
  | nil => simp [neededDecls] at hdecl
  | cons q names ih =>
    rcases bound_or_unbound scope q with h | ⟨uri, huri, h⟩
    · rw [neededDecls_cons_of_bound h] at hdecl
      obtain ⟨q', hq', hwants⟩ := ih hdecl
      exact ⟨q', List.mem_cons_of_mem _ hq', hwants⟩
    · rw [neededDecls_cons_of_unbound huri h] at hdecl
      rcases List.mem_cons.1 hdecl with rfl | hdecl
      · exact ⟨q, List.mem_cons_self, rfl, huri⟩
      · obtain ⟨q', hq', hwants⟩ := ih hdecl
        exact ⟨q', List.mem_cons_of_mem _ hq', hwants⟩

/-- No name needs a declaration if all are bound. -/
theorem neededDecls_of_bound
    (h : ∀ q ∈ names, ∀ uri, q.namespaceUri = some uri → scope.uri? q.pfx = some uri) :
    neededDecls scope names = ([], scope) := by
  induction names with
  | nil => rfl
  | cons q names ih =>
    rw [neededDecls_cons_of_bound (h q List.mem_cons_self),
      ih fun q' hq' => h q' (List.mem_cons_of_mem _ hq')]

end Needed

/-- The names of an element and of its attributes. -/
def Element.names (e : Element) : List QName := e.name :: e.attributes.map (·.name)

theorem missingDecls_eq (scope : PrefixBindings) (e : Element) :
    Document.missingDecls scope e =
      (Document.neededDecls (e.namespaces.foldl .bind scope) e.names).1 ++
        if (e.name.namespaceUri.isNone && e.name.pfx.isNone &&
          ((Document.neededDecls (e.namespaces.foldl .bind scope) e.names).2.uri? none).any
            (!·.isEmpty)) = true
        then [⟨none, ""⟩] else [] :=
  rfl

theorem pfx_of_mem_missingDecls {scope : PrefixBindings} {e : Element} {decl : NamespaceDecl}
    (h : decl ∈ Document.missingDecls scope e) :
    (∃ q ∈ e.names, decl.pfx = q.pfx) ∨ decl.pfx = none := by
  rw [missingDecls_eq, List.mem_append] at h
  rcases h with h | h
  · obtain ⟨q, hq, hpfx, -⟩ := exists_of_mem_neededDecls h
    exact .inl ⟨q, hq, hpfx.symm⟩
  · split at h
    · rw [List.mem_singleton.1 h]
      exact .inr rfl
    · simp at h

/-- All declarations that are written for an element have names. -/
theorem nameText_shownDecls {e : Element} (he : e.Writable) (scope : PrefixBindings) :
    ∀ decl ∈ e.shownDecls scope, NameText decl.attributeName.toList := by
  intro decl hdecl
  rcases List.mem_append.1 hdecl with hdecl | hdecl
  · exact he.prefixes decl hdecl
  · refine nameText_attributeName fun p hp => ?_
    rcases pfx_of_mem_missingDecls hdecl with ⟨q, hq, hpfx⟩ | hpfx
    · rw [hpfx] at hp
      rcases List.mem_cons.1 hq with rfl | hq
      · exact isNameChar_of_mem_prefix he.name hp
      · obtain ⟨a, ha, rfl⟩ := List.mem_map.1 hq
        exact isNameChar_of_mem_prefix (he.attributes a ha) hp
    · rw [hpfx] at hp
      cases hp

/-! ## Names that need no declaration -/

/-- What a prefix is looked up as is what it is bound to. -/
theorem Mirrors.uri?_of_lookup {scope : PrefixBindings} {scopes : List (List NamespaceDecl)}
    (h : Mirrors scope scopes) (hxml : scope.uri? (some "xml") = some xmlNamespace)
    {p : Option String} {uri : String} (hp : PartialTree.lookup scopes p = some uri) :
    scope.uri? p = some uri := by
  by_cases hpxml : p = some "xml"
  · rw [PartialTree.lookup, if_pos hpxml] at hp
    rw [hpxml, hxml, hp]
  · rw [h p hpxml] at hp
    exact (Option.filter_eq_some_iff.1 hp).1

theorem Mirrors.uri?_of_resolveName {scope : PrefixBindings} {scopes : List (List NamespaceDecl)}
    (h : Mirrors scope scopes) (hxml : scope.uri? (some "xml") = some xmlNamespace)
    {ofElement : Bool} {raw : String} {q : QName}
    (hq : PartialTree.resolveName scopes ofElement raw = .ok q) {uri : String}
    (huri : q.namespaceUri = some uri) : scope.uri? q.pfx = some uri := by
  obtain ⟨-, ⟨hpfx, hnone⟩ | ⟨p, uri', hpfx, huri', hlookup⟩⟩ :=
    PartialTree.resolveName_eq_ok_iff.1 hq
  · rw [huri] at hnone
    split at hnone
    · rw [hpfx]
      exact h.uri?_of_lookup hxml hnone.symm
    · cases hnone
  · obtain rfl : uri = uri' := Option.some.inj (huri.symm.trans huri')
    rw [hpfx]
    exact h.uri?_of_lookup hxml hlookup

/-- An element as it was read needs no declaration on top of its own. -/
theorem missingDecls_eq_nil {scope : PrefixBindings} {scopes : List (List NamespaceDecl)}
    {e : Element} (hread : e.ReadIn scopes)
    (hmirrors : Mirrors (e.namespaces.foldl .bind scope) (e.namespaces :: scopes))
    (hxml : (e.namespaces.foldl .bind scope).uri? (some "xml") = some xmlNamespace) :
    Document.missingDecls scope e = [] := by
  have hbound : Document.neededDecls (e.namespaces.foldl .bind scope) e.names =
      ([], e.namespaces.foldl .bind scope) := by
    refine neededDecls_of_bound fun q hq uri huri => ?_
    rcases List.mem_cons.1 hq with rfl | hq
    · exact hmirrors.uri?_of_resolveName hxml hread.name huri
    · obtain ⟨a, ha, rfl⟩ := List.mem_map.1 hq
      exact hmirrors.uri?_of_resolveName hxml (hread.attributes a ha) huri
  have hundo : ¬ (e.name.namespaceUri.isNone && e.name.pfx.isNone &&
      ((e.namespaces.foldl .bind scope).uri? none).any (!·.isEmpty)) = true := by
    intro h
    simp only [Bool.and_eq_true, Option.isNone_iff_eq_none] at h
    obtain ⟨⟨huri, hpfx⟩, hdefault⟩ := h
    have hlookup := hmirrors none (by simp)
    obtain ⟨-, ⟨-, hnone⟩ | ⟨p, uri, hsome, -⟩⟩ :=
      PartialTree.resolveName_eq_ok_iff.1 hread.name
    · rw [huri, if_pos rfl, hlookup] at hnone
      obtain ⟨uri, hsome, hne⟩ := (Option.any_eq_true _ _).1 hdefault
      rw [hsome, Option.filter_some, if_pos hne] at hnone
      cases hnone
    · rw [hpfx] at hsome
      cases hsome
  rw [missingDecls_eq, hbound, if_neg hundo, List.append_nil]

end LabelTemplate.Xml
