import LabelTemplate.Proofs.Writing.Escape
import LabelTemplate.Proofs.Writing.Names

/-!
# Written start tags are read back

A start tag is written as a name and attributes with quoted, escaped values.
`readFrom_attributes` says that exactly these keys and values are read, if no
key comes twice, and that reading fails if one does.  `readElement_head` puts
this together for an element with the declarations `decls`: what is read is
the element with its names resolved anew (`Element.reread`).
-/

namespace LabelTemplate.Xml

/-! ## Attributes -/

/-- A written attribute. -/
def attributeChars (kv : String × String) : List Char :=
  ' ' :: (kv.1.toList ++ '=' :: '"' :: ((Reference.escapeValue kv.2).toList ++ ['"']))

theorem toList_writeAttribute (key value : String) :
    (Document.writeAttribute key value).toList = attributeChars (key, value) := by
  simp [Document.writeAttribute, attributeChars]

namespace StartTag

theorem skipBlanks_of_not_blank {c : Char} {cs : List Char} (h : isMarkupBlank c = false) :
    skipBlanks (c :: cs) = c :: cs := by
  simp [skipBlanks, h]

theorem readKey_attribute (total : Nat) {key : List Char} (hkey : NameText key)
    (rest : List Char) :
    ∃ offset, readKey total (' ' :: (key ++ '=' :: rest)) = .ok (some (offset, key, rest)) := by
  obtain ⟨hne, hchars⟩ := hkey
  obtain ⟨c, cs, rfl⟩ := List.exists_cons_of_ne_nil hne
  have hc := isMarkupBlank_of_isNameChar (hchars c List.mem_cons_self)
  have hstop : ∀ x ∈ cs, (!endsKey x) = true := fun x hx => by
    have hx := hchars x (List.mem_cons_of_mem _ hx)
    simp [endsKey, isMarkupBlank_of_isNameChar hx, ne_of_isNameChar hx (by decide : '=' ∈ nameEnds)]
  have hskip : skipBlanks (' ' :: (c :: cs ++ '=' :: rest)) = c :: (cs ++ '=' :: rest) := by
    have hblank : isMarkupBlank ' ' = true := by decide
    simp [skipBlanks, hblank, hc]
  have hequals : skipBlanks ('=' :: rest) = '=' :: rest :=
    skipBlanks_of_not_blank (by decide)
  refine ⟨total - Text.byteSize (c :: (cs ++ '=' :: rest)), ?_⟩
  unfold readKey
  rw [hskip]
  simp only
  rw [List.takeWhile_append_of_pos hstop, List.dropWhile_append_of_pos hstop]
  simp [endsKey, hequals]

theorem readValue_attribute (total : Nat) {value : List Char} (h : '"' ∉ value)
    (rest : List Char) :
    readValue total ('"' :: (value ++ '"' :: rest)) = .ok (value, rest) := by
  have hstop : ∀ x ∈ value, (x != '"') = true := fun x hx => by
    simpa using fun he : x = '"' => h (he ▸ hx)
  unfold readValue
  rw [skipBlanks_of_not_blank (by decide)]
  simp only [true_or, if_true]
  rw [List.takeWhile_append_of_pos hstop, List.dropWhile_append_of_pos hstop]
  simp

/-- One attribute read, when its key, its value and what the value resolves
to are known. -/
theorem readFrom_step {total offset : Nat} {seen : List (List Char × Nat)}
    {cs key afterKey value after data : List Char}
    (hkey : readKey total cs = .ok (some (offset, key, afterKey)))
    (hvalue : readValue total afterKey = .ok (value, after))
    (hdata : Reference.resolve value = .ok data) :
    (key ∈ seen.map (·.1) → ∃ fault, readFrom total seen cs = .error fault) ∧
      (key ∉ seen.map (·.1) → readFrom total seen cs =
        (readFrom total (seen ++ [(key, offset)]) after).map
          ((String.ofList key, String.ofList data) :: ·)) := by
  have hfind : key ∈ seen.map (·.1) ↔ ∃ x, seen.find? (·.1 = key) = some x := by
    rw [← Option.isSome_iff_exists, List.find?_isSome]
    simp
  rw [readFrom]
  split
  · rename_i hother
    rw [hkey] at hother
    cases hother
  · rename_i hother
    rw [hkey] at hother
    cases hother
  · rename_i hother
    rw [hkey] at hother
    cases hother
    rw [hfind]
    cases hseen : seen.find? (·.1 = key) with
    | some x => exact ⟨fun _ => ⟨_, rfl⟩, fun hno => absurd ⟨x, rfl⟩ hno⟩
    | none =>
      refine ⟨fun ⟨x, hx⟩ => absurd hx (by simp), fun _ => ?_⟩
      simp only
      split
      · rename_i hother
        rw [hvalue] at hother
        cases hother
      · rename_i hother
        rw [hvalue] at hother
        cases hother
        simp only [hdata]

/-- Written attributes are read as they are, unless a key came before. -/
theorem readFrom_attributes (total : Nat) {pairs : List (String × String)}
    (hkeys : ∀ kv ∈ pairs, NameText kv.1.toList) (seen : List (List Char × Nat))
    (attrs : List (String × String)) :
    readFrom total seen (pairs.flatMap attributeChars) = .ok attrs ↔
      attrs = pairs ∧ (pairs.map (·.1)).Nodup ∧ ∀ kv ∈ pairs, kv.1.toList ∉ seen.map (·.1) := by
  induction pairs generalizing seen attrs with
  | nil =>
    rw [List.flatMap_nil, readFrom]
    simp [readKey, skipBlanks, eq_comm]
  | cons kv pairs ih =>
    obtain ⟨key, value⟩ := kv
    have htext : (((key, value) :: pairs).flatMap attributeChars) =
        ' ' :: (key.toList ++ '=' :: '"' :: ((Reference.escapeValue value).toList ++
          '"' :: pairs.flatMap attributeChars)) := by
      simp [attributeChars]
    obtain ⟨offset, hkey⟩ := readKey_attribute total (hkeys _ List.mem_cons_self)
      ('"' :: ((Reference.escapeValue value).toList ++ '"' :: pairs.flatMap attributeChars))
    obtain ⟨hseen, hfresh⟩ := @readFrom_step _ _ seen _ _ _ _ _ _ hkey
      (readValue_attribute total (Reference.not_mem_escapeValue value (.inr (.inr rfl)))
        (pairs.flatMap attributeChars)) (Reference.resolve_escapeValue value)
    rw [htext]
    by_cases hmem : key.toList ∈ seen.map (·.1)
    · obtain ⟨fault, hfault⟩ := hseen hmem
      rw [hfault]
      simp only [reduceCtorEq, false_iff]
      rintro ⟨-, -, hno⟩
      exact hno _ List.mem_cons_self hmem
    · rw [hfresh hmem, Outcome.map_eq_ok]
      simp only [ih fun kv hkv => hkeys kv (List.mem_cons_of_mem _ hkv), String.ofList_toList,
        List.map_cons, List.nodup_cons, List.map_append, List.map_nil, List.mem_append,
        List.mem_singleton, List.forall_mem_cons, not_or]
      constructor
      · rintro ⟨_, ⟨rfl, hnodup, hno⟩, rfl⟩
        refine ⟨rfl, ⟨fun hkey => ?_, hnodup⟩, hmem, fun kv hkv => (hno kv hkv).1⟩
        obtain ⟨kv, hkv, hkvKey⟩ := List.mem_map.1 hkey
        exact (hno kv hkv).2 (congrArg String.toList hkvKey)
      · rintro ⟨rfl, ⟨hkey, hnodup⟩, -, hno⟩
        refine ⟨pairs, ⟨rfl, hnodup, fun kv hkv => ⟨hno kv hkv, fun he => hkey ?_⟩⟩, rfl⟩
        exact List.mem_map.2 ⟨kv, hkv, String.toList_inj.1 he⟩

end StartTag

/-! ## Elements -/

namespace Element

/-- The keys and values of a written start tag, declarations first. -/
def pairs (e : Element) (decls : List NamespaceDecl) : List (String × String) :=
  decls.map (fun decl => (decl.attributeName, decl.uri)) ++
    e.attributes.map fun a => (a.name.written, a.value)

/-- What is written of an element between `<` and `>`. -/
def head (e : Element) (decls : List NamespaceDecl) : List Char :=
  e.name.written.toList ++ (e.pairs decls).flatMap attributeChars

theorem keys_pairs (e : Element) (decls : List NamespaceDecl) :
    (e.pairs decls).map (·.1) =
      decls.map (·.attributeName) ++ e.attributes.map (·.name.written) := by
  simp [pairs, Function.comp_def]

theorem nameText_of_mem_pairs {e : Element} {decls : List NamespaceDecl} (he : e.Writable)
    (hdecls : ∀ decl ∈ decls, NameText decl.attributeName.toList) :
    ∀ kv ∈ e.pairs decls, NameText kv.1.toList := by
  intro kv hkv
  rcases List.mem_append.1 hkv with hkv | hkv
  · obtain ⟨decl, hdecl, rfl⟩ := List.mem_map.1 hkv
    exact hdecls decl hdecl
  · obtain ⟨a, ha, rfl⟩ := List.mem_map.1 hkv
    exact he.attributes a ha

/-- The element that reading makes of a written start tag, if its keys are
distinct. -/
def reread (scopes : List (List NamespaceDecl)) (decls : List NamespaceDecl) (e : Element) :
    Except ReadFault Element := do
  let name ← PartialTree.resolveName (decls :: scopes) true e.name.written
  let attributes ← e.attributes.mapM fun a => do
    return { name := ← PartialTree.resolveName (decls :: scopes) false a.name.written,
             value := a.value : Attribute }
  return { name, attributes, namespaces := decls }

/-- An element whose names resolve to themselves is read as it is. -/
theorem reread_eq_ok {scopes : List (List NamespaceDecl)} {decls : List NamespaceDecl}
    {e : Element}
    (hname : PartialTree.resolveName (decls :: scopes) true e.name.written = .ok e.name)
    (hattributes : ∀ a ∈ e.attributes,
      PartialTree.resolveName (decls :: scopes) false a.name.written = .ok a.name) :
    e.reread scopes decls = .ok { e with namespaces := decls, text := none } := by
  have hmapM : (e.attributes.mapM fun a => do
      return { name := ← PartialTree.resolveName (decls :: scopes) false a.name.written,
               value := a.value : Attribute }) = .ok e.attributes := by
    refine Outcome.mapM_of_forall₂ (List.forall₂_same.2 fun a ha => ?_)
    rw [hattributes a ha]
    rfl
  unfold reread
  rw [hname, hmapM]
  rfl

end Element

/-- The text after the name begins with a blank or is over. -/
theorem head_split {e : Element} (he : e.Writable) (decls : List NamespaceDecl) :
    Markup.tagName (e.head decls) = e.name.written.toList ∧
      (e.head decls).dropWhile (!isMarkupBlank ·) = (e.pairs decls).flatMap attributeChars := by
  have hstop : ∀ c ∈ e.name.written.toList, (!isMarkupBlank c) = true := fun c hc => by
    simp [isMarkupBlank_of_isNameChar (he.name.2 c hc)]
  have hblank : isMarkupBlank ' ' = true := by decide
  unfold Markup.tagName Element.head
  rw [List.takeWhile_append_of_pos hstop, List.dropWhile_append_of_pos hstop]
  cases e.pairs decls with
  | nil => simp
  | cons kv pairs => simp [attributeChars, hblank]

namespace PartialTree

theorem declarations_pairs {e : Element} (he : e.Writable) (decls : List NamespaceDecl) :
    (e.pairs decls).filterMap declaration? = decls ∧
      (e.pairs decls).filter (declaration? · |>.isNone) =
        e.attributes.map fun a => (a.name.written, a.value) := by
  have hdecls : ∀ decl : NamespaceDecl, declaration? (decl.attributeName, decl.uri) = some decl :=
    declaration?_attributeName
  have hplain : ∀ kv ∈ e.attributes.map fun a => (a.name.written, a.value),
      declaration? kv = none := by
    intro kv hkv
    obtain ⟨a, ha, rfl⟩ := List.mem_map.1 hkv
    exact he.plain a ha a.value
  have hkept : ((e.attributes.map fun a => (a.name.written, a.value)).filter fun kv =>
      (declaration? kv).isNone) = e.attributes.map fun a => (a.name.written, a.value) :=
    List.filter_eq_self.2 fun kv hkv => by simp [hplain kv hkv]
  have hdropped : ((decls.map fun decl => (decl.attributeName, decl.uri)).filter fun kv =>
      (declaration? kv).isNone) = [] := by
    rw [List.filter_eq_nil_iff]
    intro kv hkv
    obtain ⟨decl, -, rfl⟩ := List.mem_map.1 hkv
    simp [hdecls]
  unfold Element.pairs
  refine ⟨?_, by rw [List.filter_append, hkept, hdropped, List.nil_append]⟩
  rw [List.filterMap_append, List.filterMap_eq_nil_iff.2 hplain, List.append_nil,
    List.filterMap_map]
  simp [hdecls]

/-- What is read of a written start tag. -/
theorem readElement_head {e : Element} (he : e.Writable) {decls : List NamespaceDecl}
    (hdecls : ∀ decl ∈ decls, NameText decl.attributeName.toList)
    (scopes : List (List NamespaceDecl)) (r : Element) :
    readElement scopes (e.head decls) = .ok r ↔
      (decls.map (·.attributeName) ++ e.attributes.map (·.name.written)).Nodup ∧
        e.reread scopes decls = .ok r := by
  obtain ⟨hname, hrest⟩ := head_split he decls
  obtain ⟨hdeclared, hplain⟩ := declarations_pairs he decls
  have hattrs : ∀ attrs, StartTag.attributes (e.head decls) = .ok attrs ↔
      attrs = e.pairs decls ∧ ((e.pairs decls).map (·.1)).Nodup := by
    intro attrs
    rw [StartTag.attributes, hrest,
      StartTag.readFrom_attributes _ (Element.nameText_of_mem_pairs he hdecls)]
    simp
  unfold readElement Element.reread
  rw [Outcome.bind_eq_ok, ← Element.keys_pairs]
  simp only [hattrs]
  constructor
  · rintro ⟨_, ⟨rfl, hnodup⟩, h⟩
    refine ⟨hnodup, ?_⟩
    rw [hdeclared, hplain, List.mapM_map, StartTag.name, hname, String.ofList_toList] at h
    exact h
  · rintro ⟨hnodup, h⟩
    refine ⟨_, ⟨rfl, hnodup⟩, ?_⟩
    rw [hdeclared, hplain, List.mapM_map, StartTag.name, hname, String.ofList_toList]
    exact h

end PartialTree

end LabelTemplate.Xml
