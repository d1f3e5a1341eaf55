import LabelTemplate.Proofs.Writing.Scopes

/-!
# One namespace for each prefix

The names of an element want their prefixes bound to their namespaces
(`Element.demands`), and the element has declarations of its own.  It is
`Unambiguous` if no prefix is wanted or declared for two namespaces.

The writer adds declarations for what is not bound around the element.  An
unambiguous element is read back with all its names
(`readElement_of_unambiguous`).  An ambiguous one is not: either two of its
declarations clash, or names of one prefix come back in one namespace
(`unambiguous_of_readElement`).
-/

namespace LabelTemplate.Xml

/-! ## Names and what they want -/

/-- What reading makes sure of in a name. -/
structure QName.Resolved (q : QName) : Prop where
  split : splitName q.written = (q.pfx, q.localName)
  nonempty : q.namespaceUri ≠ some ""
  bound : ∀ p, q.pfx = some p → ∃ uri, q.namespaceUri = some uri
  reserved : q.pfx = some "xml" → q.namespaceUri = some xmlNamespace

theorem QName.Resolved.pfx_eq_none {q : QName} (h : q.Resolved) (huri : q.namespaceUri = none) :
    q.pfx = none := by
  by_contra hsome
  obtain ⟨p, hp⟩ := Option.ne_none_iff_exists'.1 hsome
  obtain ⟨uri, huri'⟩ := h.bound p hp
  rw [huri] at huri'
  cases huri'

/-- The binding that a name wants; no namespace is the empty one. -/
def QName.demand (q : QName) : NamespaceDecl := ⟨q.pfx, q.namespaceUri.getD ""⟩

namespace Element

/-- What the names of an element want.  An attribute without prefix is in no
namespace whatever is declared. -/
def demands (e : Element) : List NamespaceDecl :=
  e.name.demand :: (e.attributes.filter (·.name.pfx.isSome)).map (·.name.demand)

/-- No prefix is declared or wanted for two namespaces. -/
def Unambiguous (e : Element) : Prop :=
  ∀ a ∈ e.namespaces ++ e.demands, ∀ b ∈ e.namespaces ++ e.demands, a.pfx = b.pfx → a.uri = b.uri

instance (e : Element) : Decidable e.Unambiguous :=
  inferInstanceAs (Decidable (∀ a ∈ e.namespaces ++ e.demands, ∀ b ∈ e.namespaces ++ e.demands,
    a.pfx = b.pfx → a.uri = b.uri))

/-- What is known of the names of an element that was read or fetched. -/
structure Resolved (e : Element) : Prop where
  names : ∀ q ∈ e.names, q.Resolved
  plain : ∀ a ∈ e.attributes, a.name.pfx = none → a.name.namespaceUri = none
  undeclared : ∀ a ∈ e.attributes, ∀ value,
    PartialTree.declaration? (a.name.written, value) = none
  distinct : (e.attributes.map (·.name)).Nodup
  prefixes : (e.namespaces.map (·.pfx)).Nodup

theorem mem_demands {e : Element} (he : e.Resolved) {q : QName} (hq : q ∈ e.names) {uri : String}
    (huri : q.namespaceUri = some uri) : ⟨q.pfx, uri⟩ ∈ e.demands := by
  have hdemand : q.demand = ⟨q.pfx, uri⟩ := by rw [QName.demand, huri, Option.getD_some]
  rw [← hdemand]
  rcases List.mem_cons.1 hq with rfl | hq
  · exact List.mem_cons_self
  · obtain ⟨a, ha, rfl⟩ := List.mem_map.1 hq
    refine List.mem_cons_of_mem _ (List.mem_map.2 ⟨a, List.mem_filter.2 ⟨ha, ?_⟩, rfl⟩)
    rw [Option.isSome_iff_ne_none]
    intro hpfx
    rw [he.plain a ha hpfx] at huri
    cases huri

end Element

/-! ## Names that were read -/

theorem PartialTree.lookup_ne_empty {scopes : List (List NamespaceDecl)} {p : Option String} :
    lookup scopes p ≠ some "" := by
  unfold lookup
  split
  · decide
  · split
    · split
      · simp
      · rename_i hne
        intro h
        exact hne (by rw [Option.some.inj h]; rfl)
    · simp

/-- What is known of a resolved name. -/
theorem QName.resolved_of_resolveName {scopes : List (List NamespaceDecl)} {ofElement : Bool}
    {raw : String} {q : QName} (h : PartialTree.resolveName scopes ofElement raw = .ok q) :
    q.Resolved ∧ (ofElement = false → q.pfx = none → q.namespaceUri = none) := by
  obtain ⟨hraw, hresolved⟩ := PartialTree.resolveName_eq_ok_iff.1 h
  have hsplit : splitName q.written = (q.pfx, q.localName) := by
    rw [PartialTree.written_of_resolveName h, hraw]
  rcases hresolved with ⟨hpfx, huri⟩ | ⟨p, uri, hpfx, huri, hlookup⟩
  · refine ⟨⟨hsplit, ?_, by simp [hpfx], by simp [hpfx]⟩, fun hfalse _ => by simpa [hfalse] using huri⟩
    rw [huri]
    split
    · exact PartialTree.lookup_ne_empty
    · simp
  · refine ⟨⟨hsplit, ?_, fun _ _ => ⟨uri, huri⟩, fun hxml => ?_⟩, fun _ hnone => ?_⟩
    · rw [huri, ← hlookup]
      exact PartialTree.lookup_ne_empty
    · rw [hpfx] at hxml
      rw [PartialTree.lookup, if_pos hxml] at hlookup
      rw [huri, hlookup]
    · rw [hpfx] at hnone
      cases hnone

theorem Element.ReadIn.resolved {scopes : List (List NamespaceDecl)} {e : Element}
    (h : e.ReadIn scopes) : e.Resolved where
  names q hq := by
    rcases List.mem_cons.1 hq with rfl | hq
    · exact (QName.resolved_of_resolveName h.name).1
    · obtain ⟨a, ha, rfl⟩ := List.mem_map.1 hq
      exact (QName.resolved_of_resolveName (h.attributes a ha)).1
  plain a ha := (QName.resolved_of_resolveName (h.attributes a ha)).2 rfl
  undeclared := h.plain
  distinct := by
    have hkeys : ((e.attributes.map (·.name)).map (·.written)).Nodup := by
      rw [List.map_map]
      exact (List.nodup_append.1 h.keys).2.1
    exact List.Nodup.of_map _ hkeys
  prefixes := nodup_prefixes (List.nodup_append.1 h.keys).1

/-! ## The declarations that are added -/

section Needed

open Document

variable {scope : PrefixBindings} {q : QName} {names : List QName} {uri : String}

theorem foldl_bind_neededDecls (scope : PrefixBindings) (names : List QName) :
    (neededDecls scope names).1.foldl .bind scope = (neededDecls scope names).2 := by
  induction names generalizing scope with
  | nil => rfl
  | cons q names ih =>
    rcases bound_or_unbound scope q with h | ⟨uri, huri, h⟩
    · rw [neededDecls_cons_of_bound h, ih]
    · rw [neededDecls_cons_of_unbound huri h, List.foldl_cons, ih]

/-- A prefix that is wanted for a namespace has it, or is declared. -/
theorem bound_or_declared (hq : q ∈ names) (huri : q.namespaceUri = some uri) :
    scope.uri? q.pfx = some uri ∨ ∃ decl ∈ (neededDecls scope names).1, decl.pfx = q.pfx := by
  induction names generalizing scope with
  | nil => simp at hq
  | cons q' names ih =>
    rcases bound_or_unbound scope q' with h | ⟨uri', huri', h⟩
    · rw [neededDecls_cons_of_bound h]
      rcases List.mem_cons.1 hq with rfl | hq
      · exact .inl (h uri huri)
      · exact ih hq
    · rw [neededDecls_cons_of_unbound huri' h]
      rcases List.mem_cons.1 hq with rfl | hq
      · exact .inr ⟨_, List.mem_cons_self, rfl⟩
      · by_cases hpfx : q'.pfx = q.pfx
        · exact .inr ⟨_, List.mem_cons_self, hpfx⟩
        · rcases @ih (scope.bind ⟨q'.pfx, uri'⟩) hq with hbound | ⟨decl, hdecl, hsame⟩
          · rw [PrefixBindings.uri?_bind, if_neg hpfx] at hbound
            exact .inl hbound
          · exact .inr ⟨decl, List.mem_cons_of_mem _ hdecl, hsame⟩

/-- Names that want no prefix for two namespaces. -/
def Concordant (names : List QName) : Prop :=
  ∀ q ∈ names, ∀ q' ∈ names, ∀ uri uri', q.namespaceUri = some uri →
    q'.namespaceUri = some uri' → q.pfx = q'.pfx → uri = uri'

/-- For concordant names every added declaration is of another prefix, and
none is bound already. -/
theorem nodup_neededDecls (h : Concordant names) (scope : PrefixBindings) :
    ((neededDecls scope names).1.map (·.pfx)).Nodup ∧
      ∀ decl ∈ (neededDecls scope names).1, scope.uri? decl.pfx ≠ some decl.uri := by
  induction names generalizing scope with
  | nil => simp [neededDecls]
  | cons q names ih =>
    have htail : Concordant names := fun q₁ h₁ q₂ h₂ =>
      h q₁ (List.mem_cons_of_mem _ h₁) q₂ (List.mem_cons_of_mem _ h₂)
    rcases bound_or_unbound scope q with hbound | ⟨uri, huri, hunbound⟩
    · rw [neededDecls_cons_of_bound hbound]
      exact ih htail scope
    · obtain ⟨hnodup, hnew⟩ := ih htail (scope.bind ⟨q.pfx, uri⟩)
      have hother : ∀ decl ∈ (neededDecls (scope.bind ⟨q.pfx, uri⟩) names).1,
          q.pfx ≠ decl.pfx := by
        intro decl hdecl hpfx
        obtain ⟨q', hq', hpfx', huri'⟩ := exists_of_mem_neededDecls hdecl
        have hsame := h q List.mem_cons_self q' (List.mem_cons_of_mem _ hq') uri decl.uri huri huri'
          (hpfx.trans hpfx'.symm)
        refine hnew decl hdecl ?_
        rw [PrefixBindings.uri?_bind, if_pos hpfx, hsame]
      rw [neededDecls_cons_of_unbound huri hunbound]
      refine ⟨?_, fun decl hdecl => ?_⟩
      · rw [List.map_cons, List.nodup_cons]
        refine ⟨fun hmem => ?_, hnodup⟩
        obtain ⟨decl, hdecl, hpfx⟩ := List.mem_map.1 hmem
        exact hother decl hdecl hpfx.symm
      · rcases List.mem_cons.1 hdecl with rfl | hdecl
        · exact hunbound
        · have hdeclNew := hnew decl hdecl
          rwa [PrefixBindings.uri?_bind, if_neg (hother decl hdecl)] at hdeclNew

/-- After the added declarations concordant names are bound as they want. -/
theorem uri?_neededDecls (h : Concordant names) (scope : PrefixBindings) (hq : q ∈ names)
    (huri : q.namespaceUri = some uri) :
    (neededDecls scope names).2.uri? q.pfx = some uri := by
  rw [← foldl_bind_neededDecls, PrefixBindings.uri?_foldl_bind (nodup_neededDecls h scope).1]
  cases hfind : (neededDecls scope names).1.find? (·.pfx == q.pfx) with
  | some decl =>
    obtain ⟨q', hq', hpfx, huri'⟩ := exists_of_mem_neededDecls (List.mem_of_find?_eq_some hfind)
    have hsame : decl.pfx = q.pfx := by simpa using List.find?_some hfind
    exact congrArg some (h q' hq' q hq decl.uri uri huri' huri (hpfx.trans hsame))
  | none =>
    rcases @bound_or_declared scope _ _ _ hq huri with hbound | ⟨decl, hdecl, hpfx⟩
    · exact hbound
    · have hno := List.find?_eq_none.1 hfind decl hdecl
      simp [hpfx] at hno

end Needed

/-! ## Unambiguous elements -/

/-- The declaration of a prefix is found if the prefixes are distinct. -/
theorem find?_pfx {decls : List NamespaceDecl} (hnodup : (decls.map (·.pfx)).Nodup)
    {decl : NamespaceDecl} (hdecl : decl ∈ decls) : decls.find? (·.pfx == decl.pfx) = some decl := by
  cases hfind : decls.find? (·.pfx == decl.pfx) with
  | none =>
    have hno := List.find?_eq_none.1 hfind decl hdecl
    simp at hno
  | some other =>
    have hpfx : other.pfx = decl.pfx := by simpa using List.find?_some hfind
    rw [List.inj_on_of_nodup_map hnodup (List.mem_of_find?_eq_some hfind) hdecl hpfx]

namespace Element

variable {e : Element} {scope : PrefixBindings} {scopes : List (List NamespaceDecl)}

/-- Only the name of an element can want a namespace without a prefix. -/
theorem Resolved.eq_name (he : e.Resolved) {q : QName} (hq : q ∈ e.names) (hpfx : q.pfx = none)
    {uri : String} (huri : q.namespaceUri = some uri) : q = e.name := by
  rcases List.mem_cons.1 hq with rfl | hq
  · rfl
  · obtain ⟨a, ha, rfl⟩ := List.mem_map.1 hq
    rw [he.plain a ha hpfx] at huri
    cases huri

namespace Unambiguous

variable (hone : e.Unambiguous) (he : e.Resolved)

include hone he

theorem concordant : Concordant e.names := by
  intro q hq q' hq' uri uri' huri huri' hpfx
  exact hone ⟨q.pfx, uri⟩ (List.mem_append_right _ (mem_demands he hq huri)) ⟨q'.pfx, uri'⟩
    (List.mem_append_right _ (mem_demands he hq' huri')) hpfx

/-- An added declaration is of a prefix that the element does not declare. -/
theorem pfx_ne {decl own : NamespaceDecl} (hown : own ∈ e.namespaces)
    (hdecl : decl ∈ (Document.neededDecls (e.namespaces.foldl .bind scope) e.names).1) :
    own.pfx ≠ decl.pfx := by
  intro hpfx
  obtain ⟨q, hq, hqpfx, huri⟩ := exists_of_mem_neededDecls hdecl
  have hsame : own.uri = decl.uri := hone own (List.mem_append_left _ hown) ⟨q.pfx, decl.uri⟩
    (List.mem_append_right _ (mem_demands he hq huri)) (hpfx.trans hqpfx.symm)
  refine (nodup_neededDecls (hone.concordant he) _).2 decl hdecl ?_
  rw [PrefixBindings.uri?_foldl_bind he.prefixes, ← hpfx, find?_pfx he.prefixes hown, ← hsame]

/-- A default namespace is undone only where nothing else declares one. -/
theorem pfx_ne_none_of_undone (huri : e.name.namespaceUri = none) (hpfx : e.name.pfx = none)
    (hdefault : ((Document.neededDecls (e.namespaces.foldl .bind scope) e.names).2.uri? none).any
      (!·.isEmpty) = true) :
    (∀ decl ∈ (Document.neededDecls (e.namespaces.foldl .bind scope) e.names).1,
      decl.pfx ≠ none) ∧ ∀ own ∈ e.namespaces, own.pfx ≠ none := by
  have hneeded : ∀ decl ∈ (Document.neededDecls (e.namespaces.foldl .bind scope) e.names).1,
      decl.pfx ≠ none := by
    intro decl hdecl hnone
    obtain ⟨q, hq, hqpfx, hquri⟩ := exists_of_mem_neededDecls hdecl
    rw [he.eq_name hq (hqpfx.trans hnone) hquri, huri] at hquri
    cases hquri
  refine ⟨hneeded, fun own hown hnone => ?_⟩
  have hempty : own.uri = "" := by
    have hsame := hone own (List.mem_append_left _ hown) e.name.demand
      (List.mem_append_right _ List.mem_cons_self) (hnone.trans hpfx.symm)
    rw [hsame, QName.demand, huri, Option.getD_none]
  have hfind : (Document.neededDecls (e.namespaces.foldl .bind scope) e.names).1.find?
      (·.pfx == none) = none :=
    List.find?_eq_none.2 fun decl hdecl => by simpa using hneeded decl hdecl
  rw [← foldl_bind_neededDecls,
    PrefixBindings.uri?_foldl_bind (nodup_neededDecls (hone.concordant he) _).1, hfind,
    PrefixBindings.uri?_foldl_bind he.prefixes, ← hnone, find?_pfx he.prefixes hown] at hdefault
  simp [hempty] at hdefault

/-- No prefix is declared twice when an unambiguous element is written. -/
theorem nodup_shownDecls (scope : PrefixBindings) :
    ((e.shownDecls scope).map (·.pfx)).Nodup := by
  have hneeded := (nodup_neededDecls (hone.concordant he) (e.namespaces.foldl .bind scope)).1
  rw [shownDecls, missingDecls_eq]
  split
  · rename_i hundo
    simp only [Bool.and_eq_true, Option.isNone_iff_eq_none] at hundo
    obtain ⟨hneededNone, hownNone⟩ := hone.pfx_ne_none_of_undone he hundo.1.1 hundo.1.2 hundo.2
    simp only [List.map_append, List.map_cons, List.map_nil]
    refine List.nodup_append.2 ⟨he.prefixes, List.nodup_append.2 ⟨hneeded, by simp, ?_⟩, ?_⟩
    · intro p hp p' hp' hpp
      obtain ⟨decl, hdecl, rfl⟩ := List.mem_map.1 hp
      exact hneededNone decl hdecl (hpp.trans (List.mem_singleton.1 hp'))
    · intro p hp p' hp' hpp
      obtain ⟨own, hown, rfl⟩ := List.mem_map.1 hp
      rcases List.mem_append.1 hp' with hp' | hp'
      · obtain ⟨decl, hdecl, rfl⟩ := List.mem_map.1 hp'
        exact hone.pfx_ne he hown hdecl hpp
      · exact hownNone own hown (hpp.trans (List.mem_singleton.1 hp'))
  · rw [List.append_nil, List.map_append]
    refine List.nodup_append.2 ⟨he.prefixes, hneeded, ?_⟩
    intro p hp p' hp' hpp
    obtain ⟨own, hown, rfl⟩ := List.mem_map.1 hp
    obtain ⟨decl, hdecl, rfl⟩ := List.mem_map.1 hp'
    exact hone.pfx_ne he hown hdecl hpp

/-- Where an unambiguous element is written its names are bound as they
want. -/
theorem uri?_shownDecls (scope : PrefixBindings) :
    (∀ q ∈ e.names, ∀ uri, q.namespaceUri = some uri →
      ((e.shownDecls scope).foldl .bind scope).uri? q.pfx = some uri) ∧
    (e.name.namespaceUri = none → e.name.pfx = none →
      (((e.shownDecls scope).foldl .bind scope).uri? none).filter (!·.isEmpty) = none) := by
  have hbound : ∀ q ∈ e.names, ∀ uri, q.namespaceUri = some uri →
      (Document.neededDecls (e.namespaces.foldl .bind scope) e.names).2.uri? q.pfx = some uri :=
    fun q hq uri huri => uri?_neededDecls (hone.concordant he) _ hq huri
  rw [shownDecls, missingDecls_eq, List.foldl_append, List.foldl_append, foldl_bind_neededDecls]
  split
  · rename_i hundo
    simp only [Bool.and_eq_true, Option.isNone_iff_eq_none] at hundo
    rw [List.foldl_cons, List.foldl_nil]
    refine ⟨fun q hq uri huri => ?_, fun _ _ => ?_⟩
    · have hpfx : none ≠ q.pfx := fun hpfx => by
        rw [he.eq_name hq hpfx.symm huri, hundo.1.1] at huri
        cases huri
      rw [PrefixBindings.uri?_bind, if_neg hpfx]
      exact hbound q hq uri huri
    · rw [PrefixBindings.uri?_bind, if_pos rfl]
      rfl
  · rename_i hundo
    rw [List.foldl_nil]
    refine ⟨hbound, fun huri hpfx => ?_⟩
    rw [Option.filter_eq_none_iff]
    intro uri hdefault hne
    exact hundo (by simp [huri, hpfx, hdefault, hne])

/-- What the names of an unambiguous element are looked up as when it is read
back. -/
theorem lookup_eq (hmirrors : Mirrors scope scopes) {q : QName} (hq : q ∈ e.names)
    (hwants : q = e.name ∨ q.pfx ≠ none) :
    PartialTree.lookup (e.shownDecls scope :: scopes) q.pfx = q.namespaceUri := by
  have hresolved := he.names q hq
  by_cases hxml : q.pfx = some "xml"
  · rw [PartialTree.lookup, if_pos hxml, hresolved.reserved hxml]
  · obtain ⟨hbound, hdefault⟩ := hone.uri?_shownDecls he scope
    rw [hmirrors.bind (hone.nodup_shownDecls he scope) q.pfx hxml]
    cases huri : q.namespaceUri with
    | some uri =>
      have hne : uri ≠ "" := fun h => hresolved.nonempty (by rw [huri, h])
      rw [hbound q hq uri huri]
      simp [Option.filter_some, hne]
    | none =>
      have hpfx : q.pfx = none := hresolved.pfx_eq_none huri
      obtain rfl : q = e.name := hwants.resolve_right fun h => h hpfx
      rw [hpfx]
      exact hdefault huri hpfx

end Unambiguous

end Element

/-! ## Start tags -/

theorem PartialTree.resolveName_eq_ok {scopes : List (List NamespaceDecl)} {q : QName}
    (hq : q.Resolved) {ofElement : Bool}
    (hlookup : ofElement = true ∨ q.pfx ≠ none → lookup scopes q.pfx = q.namespaceUri)
    (hplain : ofElement = false → q.pfx = none → q.namespaceUri = none) :
    resolveName scopes ofElement q.written = .ok q := by
  refine resolveName_eq_ok_iff.2 ⟨hq.split, ?_⟩
  cases hpfx : q.pfx with
  | none =>
    refine .inl ⟨rfl, ?_⟩
    rw [hpfx] at hlookup
    cases ofElement with
    | true => exact (hlookup (.inl rfl)).symm
    | false => exact hplain rfl hpfx
  | some p =>
    obtain ⟨uri, huri⟩ := hq.bound p hpfx
    refine .inr ⟨p, uri, rfl, huri, ?_⟩
    rw [← hpfx, hlookup (.inr (by simp [hpfx])), huri]

namespace Element

/-- The names of the attributes of an unambiguous element are written
differently. -/
theorem Unambiguous.nodup_written {e : Element} (hone : e.Unambiguous) (he : e.Resolved) :
    (e.attributes.map (·.name.written)).Nodup := by
  have hmap : e.attributes.map (·.name.written) = (e.attributes.map (·.name)).map (·.written) := by
    rw [List.map_map]
    rfl
  rw [hmap]
  refine he.distinct.map_on fun q hq q' hq' hwritten => ?_
  have hmem : ∀ {q}, q ∈ e.attributes.map (·.name) → q ∈ e.names := List.mem_cons_of_mem _
  have hsplit := (he.names q (hmem hq)).split
  rw [hwritten, (he.names q' (hmem hq')).split] at hsplit
  obtain ⟨hpfx, hlocal⟩ := Prod.ext_iff.1 hsplit
  have huri : q.namespaceUri = q'.namespaceUri := by
    obtain ⟨a, ha, rfl⟩ := List.mem_map.1 hq
    obtain ⟨b, hb, rfl⟩ := List.mem_map.1 hq'
    cases hp : a.name.pfx with
    | none => rw [he.plain a ha hp, he.plain b hb (hpfx.trans hp)]
    | some p =>
      obtain ⟨uri, huri⟩ := (he.names _ (hmem hq)).bound p hp
      obtain ⟨uri', huri'⟩ := (he.names _ (hmem hq')).bound p (hpfx.trans hp)
      rw [huri, huri', hone.concordant he _ (hmem hq) _ (hmem hq') uri uri' huri huri' hpfx.symm]
  cases q
  cases q'
  simp_all

end Element

/-- Distinct prefixes are declared under distinct names. -/
theorem nodup_attributeNames {decls : List NamespaceDecl} (h : (decls.map (·.pfx)).Nodup) :
    (decls.map (·.attributeName)).Nodup := by
  have hname : decls.map (·.attributeName) =
      (decls.map (·.pfx)).map fun p => (⟨p, ""⟩ : NamespaceDecl).attributeName := by
    rw [List.map_map]
    rfl
  rw [hname]
  refine h.map fun p p' hpp => ?_
  have hdecl := PartialTree.declaration?_attributeName ⟨p, ""⟩
  have hdecl' := PartialTree.declaration?_attributeName ⟨p', ""⟩
  simp only at hpp hdecl hdecl'
  rw [hpp, hdecl'] at hdecl
  cases hdecl
  rfl

/-- The start tag of an unambiguous element is read back with all names. -/
theorem readElement_of_unambiguous {scope : PrefixBindings} {scopes : List (List NamespaceDecl)}
    (hmirrors : Mirrors scope scopes) {e : Element} (he : e.Resolved) (hwritable : e.Writable)
    (hone : e.Unambiguous) :
    PartialTree.readElement scopes (e.head (e.shownDecls scope)) =
      .ok { e with namespaces := e.shownDecls scope, text := none } := by
  refine (PartialTree.readElement_head hwritable (nameText_shownDecls hwritable scope) scopes _).2
    ⟨List.nodup_append.2 ⟨nodup_attributeNames (hone.nodup_shownDecls he scope),
      hone.nodup_written he, ?_⟩, Element.reread_eq_ok ?_ ?_⟩
  · intro key hkey key' hkey' hsame
    obtain ⟨decl, -, rfl⟩ := List.mem_map.1 hkey
    obtain ⟨a, ha, rfl⟩ := List.mem_map.1 hkey'
    have hdecl := PartialTree.declaration?_attributeName decl
    rw [hsame, he.undeclared a ha] at hdecl
    cases hdecl
  · exact PartialTree.resolveName_eq_ok (he.names _ List.mem_cons_self)
      (fun _ => hone.lookup_eq he hmirrors List.mem_cons_self (.inl rfl)) (by simp)
  · intro a ha
    have hmem : a.name ∈ e.names := List.mem_cons_of_mem _ (List.mem_map_of_mem ha)
    refine PartialTree.resolveName_eq_ok (he.names _ hmem) (fun h => ?_) fun _ => he.plain a ha
    exact hone.lookup_eq he hmirrors hmem (.inr (h.resolve_left (by simp)))

/-! ## Ambiguous elements -/

/-- The namespace and the local part of a name. -/
def QName.expanded (q : QName) : Option String × String := (q.namespaceUri, q.localName)

/-- What an element says, however its names are written: its expanded name,
and its attributes in their order with expanded names and values. -/
def Element.meaning (e : Element) :
    (Option String × String) × List ((Option String × String) × String) :=
  (e.name.expanded, e.attributes.map fun a => (a.name.expanded, a.value))

theorem PartialTree.uri_of_resolveName_written {scopes : List (List NamespaceDecl)} {q q' : QName}
    (hq : q.Resolved) {ofElement : Bool} (hwants : ofElement = true ∨ q.pfx ≠ none)
    (h : resolveName scopes ofElement q.written = .ok q') :
    q'.namespaceUri = lookup scopes q.pfx := by
  obtain ⟨hsplit, hresolved⟩ := resolveName_eq_ok_iff.1 h
  obtain ⟨hpfx, -⟩ := Prod.mk.inj (hq.split.symm.trans hsplit)
  rw [hpfx] at hwants ⊢
  rcases hresolved with ⟨hnone, huri⟩ | ⟨p, uri, hsome, huri, hlookup⟩
  · rw [huri, hnone, if_pos (hwants.resolve_right (by simp [hnone]))]
  · rw [huri, hsome, hlookup]

section Ambiguous

variable {scope : PrefixBindings} {scopes : List (List NamespaceDecl)} {e r : Element}

/-- If a start tag is read back with the same meaning, its names are looked up
as what they are. -/
theorem lookup_of_readElement (he : e.Resolved) (hwritable : e.Writable)
    (hread : PartialTree.readElement scopes (e.head (e.shownDecls scope)) = .ok r)
    (hsame : r.meaning = e.meaning) {q : QName} (hq : q ∈ e.names)
    (hwants : q = e.name ∨ q.pfx ≠ none) :
    PartialTree.lookup (e.shownDecls scope :: scopes) q.pfx = q.namespaceUri := by
  obtain ⟨-, hreread⟩ := (PartialTree.readElement_head hwritable
    (nameText_shownDecls hwritable scope) scopes r).1 hread
  obtain ⟨name, hname, hreread⟩ := Outcome.bind_eq_ok.1 hreread
  obtain ⟨attributes, hattributes, hreread⟩ := Outcome.bind_eq_ok.1 hreread
  cases hreread
  obtain ⟨hnameSame, hattributesSame⟩ := Prod.ext_iff.1 hsame
  have hresolved := he.names q hq
  by_cases hname' : q = e.name
  · subst hname'
    rw [← PartialTree.uri_of_resolveName_written hresolved (.inl rfl) hname]
    exact congrArg Prod.fst hnameSame
  · obtain ⟨a, ha, rfl⟩ := List.mem_map.1 ((List.mem_cons.1 hq).resolve_left hname')
    obtain ⟨b, hb, hab⟩ :=
      Outcome.exists_related (Outcome.forall₂_of_mapM hattributes) hattributesSame a ha
    obtain ⟨q, hq, hb⟩ := Outcome.bind_eq_ok.1 hb
    cases hb
    have huri : q.namespaceUri = a.name.namespaceUri :=
      congrArg (fun x : (Option String × String) × String => x.1.1) hab
    rw [← PartialTree.uri_of_resolveName_written hresolved (.inr (hwants.resolve_left hname')) hq,
      huri]

/-- A start tag that is read back with the same meaning is of an unambiguous
element. -/
theorem unambiguous_of_readElement (he : e.Resolved) (hwritable : e.Writable)
    (hread : PartialTree.readElement scopes (e.head (e.shownDecls scope)) = .ok r)
    (hsame : r.meaning = e.meaning) : e.Unambiguous := by
  have hnodup : ((e.shownDecls scope).map (·.pfx)).Nodup :=
    nodup_prefixes (List.nodup_append.1 ((PartialTree.readElement_head hwritable
      (nameText_shownDecls hwritable scope) scopes r).1 hread).1).1
  have hlookup : ∀ q ∈ e.names, (q = e.name ∨ q.pfx ≠ none) →
      PartialTree.lookup (e.shownDecls scope :: scopes) q.pfx = q.namespaceUri :=
    fun q hq hwants => lookup_of_readElement he hwritable hread hsame hq hwants
  have hnames : ∀ decl ∈ e.demands, ∃ q ∈ e.names, (q = e.name ∨ q.pfx ≠ none) ∧
      decl = q.demand := by
    intro decl hdecl
    rcases List.mem_cons.1 hdecl with rfl | hdecl
    · exact ⟨e.name, List.mem_cons_self, .inl rfl, rfl⟩
    · obtain ⟨a, ha, rfl⟩ := List.mem_map.1 hdecl
      obtain ⟨ha, hpfx⟩ := List.mem_filter.1 ha
      exact ⟨a.name, List.mem_cons_of_mem _ (List.mem_map_of_mem ha),
        .inr (Option.isSome_iff_ne_none.1 hpfx), rfl⟩
  have hown : ∀ own ∈ e.namespaces, ∀ q ∈ e.names, (q = e.name ∨ q.pfx ≠ none) →
      own.pfx = q.pfx → own.uri = q.demand.uri := by
    intro own hown q hq hwants hpfx
    have hmem : own ∈ e.shownDecls scope := List.mem_append_left _ hown
    cases huri : q.namespaceUri with
    | none =>
      have hnone : q.pfx = none := (he.names q hq).pfx_eq_none huri
      have hempty := hlookup q hq hwants
      rw [PartialTree.lookup_cons (by simp [hnone]), ← hpfx, find?_pfx hnodup hmem, huri] at hempty
      simpa [Option.filter_some, QName.demand, huri] using hempty
    | some uri =>
      rw [QName.demand, huri, Option.getD_some]
      rcases @bound_or_declared (e.namespaces.foldl .bind scope) q e.names uri hq huri with
        hbound | ⟨decl, hdecl, hsamePfx⟩
      · rw [PrefixBindings.uri?_foldl_bind he.prefixes, ← hpfx, find?_pfx he.prefixes hown] at hbound
        exact Option.some.inj hbound
      · rw [Element.shownDecls, missingDecls_eq, List.map_append, List.map_append] at hnodup
        refine absurd (hpfx.trans hsamePfx.symm) ?_
        exact (List.nodup_append.1 hnodup).2.2 _ (List.mem_map_of_mem hown) _
          (List.mem_append_left _ (List.mem_map_of_mem hdecl))
  intro a ha b hb hpfx
  rcases List.mem_append.1 ha with ha | ha <;> rcases List.mem_append.1 hb with hb | hb
  · rw [List.inj_on_of_nodup_map he.prefixes ha hb hpfx]
  · obtain ⟨q, hq, hwants, rfl⟩ := hnames b hb
    exact hown a ha q hq hwants hpfx
  · obtain ⟨q, hq, hwants, rfl⟩ := hnames a ha
    exact (hown b hb q hq hwants hpfx.symm).symm
  · obtain ⟨q, hq, hwants, rfl⟩ := hnames a ha
    obtain ⟨q', hq', hwants', rfl⟩ := hnames b hb
    change q.pfx = q'.pfx at hpfx
    rw [QName.demand, QName.demand, ← hlookup q hq hwants, ← hlookup q' hq' hwants', hpfx]

end Ambiguous

end LabelTemplate.Xml
