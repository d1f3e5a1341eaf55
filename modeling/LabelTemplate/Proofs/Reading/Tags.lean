import LabelTemplate.Proofs.Outcome
import LabelTemplate.Xml.Reader
import LabelTemplate.Xml.Writer
import Mathlib.Data.List.Forall2

/-!
# Start tags that reading accepts

A start tag that is read gives an element whose names resolve, as they are
written, to themselves: `Element.ReadIn` says so for the declarations in
scope, and that no two attributes of the tag are written alike.

The names of declarations and of other attributes come from one list of
distinct keys, so `ReadIn` treats them together.
-/

namespace LabelTemplate.Text

theorem splitOnceChars_eq_some {sep : Char} {cs a b : List Char}
    (h : splitOnceChars sep cs = some (a, b)) : cs = a ++ sep :: b := by
  induction cs generalizing a with
  | nil => simp [splitOnceChars] at h
  | cons c cs ih =>
    simp only [splitOnceChars] at h
    split at h
    · cases h
      rw [‹c = sep›, List.nil_append]
    · obtain ⟨⟨x, y⟩, hxy, he⟩ := Option.map_eq_some_iff.1 h
      cases he
      rw [ih hxy, List.cons_append]

theorem dropStart?_eq_some {start cs rest : List Char} :
    dropStart? start cs = some rest ↔ cs = start ++ rest := by
  induction start generalizing cs with
  | nil => simp [dropStart?]
  | cons p ps ih =>
    cases cs with
    | nil => simp [dropStart?]
    | cons c cs =>
      simp only [dropStart?, List.cons_append, List.cons.injEq]
      split
      · rw [ih, ‹p = c›]
        simp
      · simp [Ne.symm ‹¬ p = c›]

theorem dropPrefix?_eq_some {start s rest : String} :
    dropPrefix? start s = some rest ↔ s = start ++ rest := by
  unfold dropPrefix?
  constructor
  · intro h
    obtain ⟨cs, hcs, rfl⟩ := Option.map_eq_some_iff.1 h
    rw [dropStart?_eq_some] at hcs
    rw [← String.toList_inj, hcs]
    simp
  · rintro rfl
    rw [String.toList_append, dropStart?_eq_some.2 rfl]
    simp

end LabelTemplate.Text

namespace LabelTemplate.Xml

/-! ## Names as written -/

theorem written_splitName {raw localName : String} {pfx uri : Option String}
    (h : splitName raw = (pfx, localName)) : (⟨pfx, uri, localName⟩ : QName).written = raw := by
  unfold splitName Text.splitOnce at h
  cases hs : Text.splitOnceChars ':' raw.toList with
  | none =>
    rw [hs] at h
    cases h
    rfl
  | some ab =>
    obtain ⟨a, b⟩ := ab
    rw [hs] at h
    cases h
    have hraw := Text.splitOnceChars_eq_some hs
    rw [QName.written, ← String.toList_inj, hraw]
    simp

namespace PartialTree

/-- A name is resolved part by part: its prefix by the scopes, and without one an
element takes the default namespace. -/
theorem resolveName_eq_ok_iff {scopes : List (List NamespaceDecl)} {ofElement : Bool}
    {raw : String} {q : QName} :
    resolveName scopes ofElement raw = .ok q ↔ splitName raw = (q.pfx, q.localName) ∧
      ((q.pfx = none ∧ q.namespaceUri = if ofElement then lookup scopes none else none) ∨
        ∃ p uri, q.pfx = some p ∧ q.namespaceUri = some uri ∧
          lookup scopes (some p) = some uri) := by
  constructor
  · intro h
    unfold resolveName at h
    split at h
    · rename_i hsplit
      cases h
      exact ⟨hsplit, .inl ⟨rfl, rfl⟩⟩
    · rename_i hsplit
      split at h
      · rename_i hlookup
        cases h
        exact ⟨hsplit, .inr ⟨_, _, rfl, rfl, hlookup⟩⟩
      · cases h
  · obtain ⟨pfx, uri, localName⟩ := q
    rintro ⟨hsplit, ⟨rfl, rfl⟩ | ⟨p, found, rfl, rfl, hlookup⟩⟩
    · simp only [resolveName, hsplit]
    · simp only [resolveName, hsplit, hlookup]

/-- A resolved name is written as it was read. -/
theorem written_of_resolveName {scopes : List (List NamespaceDecl)} {ofElement : Bool}
    {raw : String} {q : QName} (h : resolveName scopes ofElement raw = .ok q) :
    q.written = raw :=
  written_splitName (resolveName_eq_ok_iff.1 h).1

theorem attributeName_of_declaration? {attr : String × String} {decl : NamespaceDecl}
    (h : declaration? attr = some decl) : decl.attributeName = attr.1 := by
  unfold declaration? at h
  split at h
  · cases h
    exact (‹attr.1 = "xmlns"›).symm
  · obtain ⟨p, hp, rfl⟩ := Option.map_eq_some_iff.1 h
    exact (Text.dropPrefix?_eq_some.1 hp).symm

/-- The attribute that makes a declaration declares it. -/
theorem declaration?_attributeName (decl : NamespaceDecl) :
    declaration? (decl.attributeName, decl.uri) = some decl := by
  obtain ⟨pfx, uri⟩ := decl
  cases pfx with
  | none => rfl
  | some p =>
    have hne : "xmlns:" ++ p ≠ "xmlns" := fun h => by
      have hlength := congrArg String.length h
      rw [String.length_append, show "xmlns:".length = 6 from rfl,
        show "xmlns".length = 5 from rfl] at hlength
      omega
    unfold declaration? NamespaceDecl.attributeName
    rw [if_neg hne, Text.dropPrefix?_eq_some.2 rfl]
    rfl

end PartialTree

/-! ## Attributes as written -/

/-- The keys of a tag are distinct, also from those seen before. -/
theorem StartTag.nodup_of_readFrom {total : Nat} {seen : List (List Char × Nat)}
    {cs : List Char} {attrs : List (String × String)}
    (h : readFrom total seen cs = .ok attrs) :
    (attrs.map (·.1)).Nodup ∧ ∀ a ∈ attrs, a.1.toList ∉ seen.map (·.1) := by
  induction hn : cs.length using Nat.strongRecOn generalizing seen cs attrs with
  | ind n ih =>
    rw [readFrom] at h
    split at h
    · cases h
    · cases h
      simp
    · rename_i offset key afterKey hkey
      split at h
      · cases h
      · rename_i hfresh
        split at h
        · cases h
        · rename_i value after hvalue
          split at h
          · cases h
          · rename_i data _
            have h1 := length_of_readKey hkey
            have h2 := length_of_readValue hvalue
            cases hrest : readFrom total (seen ++ [(key, offset)]) after with
            | error fault =>
              rw [hrest] at h
              cases h
            | ok more =>
              rw [hrest] at h
              cases h
              obtain ⟨hnodup, hseen⟩ := ih after.length (by omega) hrest rfl
              have hkeySeen : key ∉ seen.map (·.1) := by
                intro hmem
                obtain ⟨x, hx, hxk⟩ := List.mem_map.1 hmem
                have := List.find?_eq_none.1 hfresh x hx
                simp [hxk] at this
              refine ⟨?_, ?_⟩
              · rw [List.map_cons, List.nodup_cons]
                refine ⟨fun hmem => ?_, hnodup⟩
                obtain ⟨a, ha, hak⟩ := List.mem_map.1 hmem
                apply hseen a ha
                rw [hak]
                simp
              · intro a ha
                rcases List.mem_cons.1 ha with rfl | ha
                · simpa using hkeySeen
                · intro hmem
                  apply hseen a ha
                  rw [List.map_append]
                  exact List.mem_append_left _ hmem

theorem StartTag.nodup_of_attributes {content : List Char} {attrs : List (String × String)}
    (h : StartTag.attributes content = .ok attrs) : (attrs.map (·.1)).Nodup :=
  (nodup_of_readFrom h).1

/-! ## Elements as read -/

/-- What reading a start tag inside `scopes` knows of the element. -/
structure Element.ReadIn (scopes : List (List NamespaceDecl)) (e : Element) : Prop where
  name : PartialTree.resolveName (e.namespaces :: scopes) true e.name.written = .ok e.name
  attributes : ∀ a ∈ e.attributes,
    PartialTree.resolveName (e.namespaces :: scopes) false a.name.written = .ok a.name
  plain : ∀ a ∈ e.attributes, ∀ value, PartialTree.declaration? (a.name.written, value) = none
  keys : (e.namespaces.map (·.attributeName) ++ e.attributes.map (·.name.written)).Nodup

/-- The text of an element does not matter to how its tag is read. -/
theorem Element.ReadIn.withText {scopes : List (List NamespaceDecl)} {e : Element}
    (h : e.ReadIn scopes) (text : Option String) : Element.ReadIn scopes { e with text } :=
  ⟨h.name, h.attributes, h.plain, h.keys⟩

namespace PartialTree

/-- Whether an attribute is a declaration depends on its key only. -/
theorem isNone_declaration? (key value value' : String) :
    (declaration? (key, value)).isNone = (declaration? (key, value')).isNone := by
  unfold declaration?
  split <;> simp

theorem attributeNames_of_declarations (attrs : List (String × String)) :
    (attrs.filterMap declaration?).map (·.attributeName) =
      (attrs.filter (declaration? · |>.isSome)).map (·.1) := by
  induction attrs with
  | nil => rfl
  | cons kv attrs ih =>
    cases hd : declaration? kv with
    | none => simpa [hd] using ih
    | some decl => simpa [hd, attributeName_of_declaration? hd] using ih

/-- Declarations first, then the other attributes. -/
theorem keys_perm (attrs : List (String × String)) :
    ((attrs.filterMap declaration?).map (·.attributeName) ++
      (attrs.filter (declaration? · |>.isNone)).map (·.1)).Perm (attrs.map (·.1)) := by
  have hnone : attrs.filter (declaration? · |>.isNone) =
      attrs.filter fun kv => !(declaration? kv).isSome :=
    List.filter_congr fun kv _ => by cases declaration? kv <;> rfl
  rw [attributeNames_of_declarations, hnone, ← List.map_append]
  exact (List.filter_append_perm _ attrs).map _

theorem written_of_forall₂ {scopes : List (List NamespaceDecl)} {raw : List (String × String)}
    {attributes : List Attribute}
    (h : List.Forall₂ (fun kv (a : Attribute) => resolveName scopes false kv.1 = .ok a.name) raw
      attributes) : attributes.map (·.name.written) = raw.map (·.1) := by
  induction h with
  | nil => rfl
  | cons hkv _ ih => rw [List.map_cons, List.map_cons, ih, written_of_resolveName hkv]

/-- An element that is read is read as it is written. -/
theorem readIn_of_readElement {scopes : List (List NamespaceDecl)} {content : List Char}
    {e : Element} (h : readElement scopes content = .ok e) :
    e.ReadIn scopes ∧ e.text = none := by
  unfold readElement at h
  obtain ⟨attrs, hattrs, h⟩ := Outcome.bind_eq_ok.1 h
  obtain ⟨name, hname, h⟩ := Outcome.bind_eq_ok.1 h
  obtain ⟨attributes, hmapM, h⟩ := Outcome.bind_eq_ok.1 h
  cases h
  have hnames : List.Forall₂ (fun kv (a : Attribute) =>
      resolveName (attrs.filterMap declaration? :: scopes) false kv.1 = .ok a.name)
      (attrs.filter (declaration? · |>.isNone)) attributes := by
    refine (Outcome.forall₂_of_mapM hmapM).imp fun kv a hkv => ?_
    obtain ⟨q, hq, ha⟩ := Outcome.bind_eq_ok.1 hkv
    cases ha
    exact hq
  have hwritten := written_of_forall₂ hnames
  have hsource : ∀ a ∈ attributes, ∃ kv ∈ attrs.filter (declaration? · |>.isNone),
      kv.1 = a.name.written := by
    intro a ha
    have hmem : a.name.written ∈ (attrs.filter (declaration? · |>.isNone)).map (·.1) :=
      hwritten ▸ List.mem_map_of_mem ha
    exact List.mem_map.1 hmem
  refine ⟨⟨?_, ?_, ?_, ?_⟩, rfl⟩
  · simpa [written_of_resolveName hname] using hname
  · intro a ha
    obtain ⟨i, hi, rfl⟩ := List.getElem_of_mem ha
    have hkv := hnames.get (by rw [hnames.length_eq]; exact hi) hi
    simp only [List.get_eq_getElem] at hkv
    simpa [written_of_resolveName hkv] using hkv
  · intro a ha value
    obtain ⟨kv, hkv, hkey⟩ := hsource a ha
    rw [← hkey, ← Option.isNone_iff_eq_none, isNone_declaration? kv.1 value kv.2]
    exact (List.mem_filter.1 hkv).2
  · rw [hwritten]
    exact (keys_perm attrs).nodup_iff.2 (StartTag.nodup_of_attributes hattrs)

end PartialTree

end LabelTemplate.Xml
