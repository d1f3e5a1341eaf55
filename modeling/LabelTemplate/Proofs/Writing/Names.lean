import LabelTemplate.Proofs.Reading.Tags

/-!
# XML Names

The characters of names in XML.  What is written in front of names and
between them (blanks, quotes, `=`, `/` and angle brackets) is not among them,
so a written name ends where it should.

Reading takes any text for a name that these marks do not end.  `XmlNames`
says of a document that all its names are names in XML, apart from that.
-/

namespace LabelTemplate.Xml

/-- The characters that a name can start with. -/
def isNameStart (c : Char) : Bool :=
  let n := c.toNat
  c == ':' || c == '_' || c.isAlpha || (0xc0 ≤ n && n ≤ 0xd6) || (0xd8 ≤ n && n ≤ 0xf6) ||
    (0xf8 ≤ n && n ≤ 0x2ff) || (0x370 ≤ n && n ≤ 0x37d) || (0x37f ≤ n && n ≤ 0x1fff) ||
    (0x200c ≤ n && n ≤ 0x200d) || (0x2070 ≤ n && n ≤ 0x218f) || (0x2c00 ≤ n && n ≤ 0x2fef) ||
    (0x3001 ≤ n && n ≤ 0xd7ff) || (0xf900 ≤ n && n ≤ 0xfdcf) || (0xfdf0 ≤ n && n ≤ 0xfffd) ||
    (0x10000 ≤ n && n ≤ 0xeffff)

/-- The characters of a name. -/
def isNameChar (c : Char) : Bool :=
  let n := c.toNat
  isNameStart c || c == '-' || c == '.' || c.isDigit || n == 0xb7 || (0x300 ≤ n && n ≤ 0x36f) ||
    (0x203f ≤ n && n ≤ 0x2040)

/-- True for a name in XML. -/
def isXmlName : List Char → Bool
  | [] => false
  | c :: cs => isNameStart c && cs.all isNameChar

/-- The characters that end names. -/
def nameEnds : List Char := [' ', '\t', '\r', '\n', '=', '<', '>', '/', '"', '\'', '!', '?']

theorem isNameChar_of_isNameStart {c : Char} (h : isNameStart c = true) : isNameChar c = true := by
  simp [isNameChar, h]

theorem ne_of_isNameChar {c x : Char} (h : isNameChar c = true) (hx : x ∈ nameEnds) : c ≠ x := by
  rintro rfl
  have hends : nameEnds.all (!isNameChar ·) = true := by decide
  have hc := List.all_eq_true.1 hends c hx
  rw [h] at hc
  cases hc

theorem isMarkupBlank_of_isNameChar {c : Char} (h : isNameChar c = true) :
    isMarkupBlank c = false := by
  simp only [isMarkupBlank, Bool.or_eq_false_iff, beq_eq_false_iff_ne]
  refine ⟨⟨⟨?_, ?_⟩, ?_⟩, ?_⟩ <;> exact ne_of_isNameChar h (by decide)

/-- A text of name characters, as keys of attributes are. -/
def NameText (cs : List Char) : Prop := cs ≠ [] ∧ ∀ c ∈ cs, isNameChar c = true

theorem nameText_of_isXmlName {cs : List Char} (h : isXmlName cs = true) : NameText cs := by
  cases cs with
  | nil => cases h
  | cons c cs =>
    simp only [isXmlName, Bool.and_eq_true, List.all_eq_true] at h
    refine ⟨by simp, fun x hx => ?_⟩
    rcases List.mem_cons.1 hx with rfl | hx
    · exact isNameChar_of_isNameStart h.1
    · exact h.2 x hx

theorem NameText.not_mem {cs : List Char} (h : NameText cs) {x : Char} (hx : x ∈ nameEnds) :
    x ∉ cs := fun hmem => ne_of_isNameChar (h.2 x hmem) hx rfl

/-! ## The names of an element -/

/-- The names of an element can be written: they are names in XML, and no
attribute looks like a declaration. -/
structure Element.Writable (e : Element) : Prop where
  name : NameText e.name.written.toList
  attributes : ∀ a ∈ e.attributes, NameText a.name.written.toList
  plain : ∀ a ∈ e.attributes, ∀ value, PartialTree.declaration? (a.name.written, value) = none
  prefixes : ∀ decl ∈ e.namespaces, NameText decl.attributeName.toList

/-- All names of the element are names in XML. -/
def Element.XmlNames (e : Element) : Prop :=
  isXmlName e.name.written.toList = true ∧
    (∀ a ∈ e.attributes, isXmlName a.name.written.toList = true) ∧
    ∀ decl ∈ e.namespaces, ∀ p ∈ decl.pfx, isXmlName p.toList = true

instance (e : Element) : Decidable e.XmlNames :=
  inferInstanceAs (Decidable (_ ∧ _ ∧ ∀ decl ∈ e.namespaces, ∀ p ∈ decl.pfx, _))

/-- A declaration is written under a name. -/
theorem nameText_attributeName {decl : NamespaceDecl}
    (h : ∀ p, decl.pfx = some p → ∀ c ∈ p.toList, isNameChar c = true) :
    NameText decl.attributeName.toList := by
  have hxmlns : "xmlns:".toList.all isNameChar = true := by decide
  unfold NamespaceDecl.attributeName
  cases hp : decl.pfx with
  | none =>
    have hall : "xmlns".toList.all isNameChar = true := by decide
    exact ⟨by decide, List.all_eq_true.1 hall⟩
  | some p =>
    rw [String.toList_append]
    refine ⟨by simp, fun c hc => ?_⟩
    rcases List.mem_append.1 hc with hc | hc
    · exact List.all_eq_true.1 hxmlns c hc
    · exact h p hp c hc

/-- The prefix of a written name is made of its characters. -/
theorem isNameChar_of_mem_prefix {q : QName} (h : NameText q.written.toList) {p : String}
    (hp : q.pfx = some p) : ∀ c ∈ p.toList, isNameChar c = true := by
  intro c hc
  refine h.2 c ?_
  unfold QName.written
  rw [hp]
  simp [hc]

theorem Element.XmlNames.writable {e : Element} (h : e.XmlNames)
    (hplain : ∀ a ∈ e.attributes, ∀ value, PartialTree.declaration? (a.name.written, value) = none) :
    e.Writable where
  name := nameText_of_isXmlName h.1
  attributes a ha := nameText_of_isXmlName (h.2.1 a ha)
  plain := hplain
  prefixes decl hdecl :=
    nameText_attributeName fun p hp => (nameText_of_isXmlName (h.2.2 decl hdecl p hp)).2

end LabelTemplate.Xml
