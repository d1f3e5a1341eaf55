import LabelTemplate.Proofs.Arena.Bare
import LabelTemplate.Proofs.Writing.Pieces
import LabelTemplate.Proofs.Writing.Scopes

/-!
# Reading a written tree

`Forest.reread` says what reading makes of a written forest: each start tag
is read inside the declarations that are written around it, and each text is
kept unless it is blank in front of children.  The lemmas here are about the
parts of a written element, in the middle of any reading.

Line breaks and indentation reach the reading as texts.  In front of the
first child they are added to the parent's text (`Element.padded`) and go
when the parent is closed; behind a child they are not kept at all.
-/

namespace LabelTemplate.Xml

/-! ## Reading on -/

namespace PartialTree

/-- Reading the rest of a text of `size` bytes, cut into pieces. -/
def run (size : Nat) (t : PartialTree) (ps : Markup.Pieces) : Except ReadError Document := do
  let t ← ps.pieces.foldlM addPiece t
  match ps.stop with
  | some stop => t.fail stop.offset stop.fault
  | none => t.finish size

theorem parse_eq_run (input : String) :
    Document.parse input =
      run input.utf8ByteSize { lines := LineTracker.ofText input } (Markup.scan input.toList) :=
  rfl

theorem run_cons (size : Nat) (t : PartialTree) (offset : Nat) (piece : Markup)
    (ps : Markup.Pieces) :
    t.run size (ps.cons offset piece) = t.addPiece (offset, piece) >>= fun t => t.run size ps := by
  simp only [run, Markup.Pieces.cons, List.foldlM_cons, bind_assoc]

theorem run_cons_ok {size : Nat} {t t' : PartialTree} {offset : Nat} {piece : Markup}
    (h : t.addPiece (offset, piece) = .ok t') (ps : Markup.Pieces) :
    t.run size (ps.cons offset piece) = t'.run size ps := by
  rw [run_cons, h]
  rfl

theorem run_cons_error {size : Nat} {t : PartialTree} {offset : Nat} {piece : Markup}
    {err : ReadError} (h : t.addPiece (offset, piece) = .error err) (ps : Markup.Pieces) :
    t.run size (ps.cons offset piece) = .error err := by
  rw [run_cons, h]
  rfl

/-- The reading `r` goes on at `tail`, inside the tags `opened`, from a partial
tree with the property. -/
def GoesOn (size : Nat) (opened : List (List Char)) (tail : List Char)
    (goal : PartialTree → Prop) (r : Except ReadError Document) : Prop :=
  ∃ t offset, goal t ∧ r = t.run size (Markup.scanFrom offset opened tail)

/-- A text in front of a tag or at the end. -/
theorem run_text {size : Nat} {raw data rest : List Char} (hne : raw ≠ []) (hraw : '<' ∉ raw)
    (hdata : Reference.resolve raw = .ok data) (hrest : rest.head? = some '<' ∨ rest = [])
    (t : PartialTree) (offset : Nat) (opened : List (List Char)) :
    ∃ offset', t.run size (Markup.scanFrom offset opened (raw ++ rest)) =
      (t.addText data).run size (Markup.scanFrom offset' opened rest) := by
  refine ⟨offset + Text.byteSize raw, ?_⟩
  have hpiece : t.addPiece (offset, .text raw) = .ok (t.addText data) := by
    simp only [addPiece, hdata]
  rw [Markup.scanFrom_text hne hraw hrest, run_cons_ok hpiece]

end PartialTree

/-! ## Indentation -/

/-- An element with a text added, if there is one. -/
def Element.padded (e : Element) (kids : Forest) (raw : List Char) : Element :=
  if raw = [] then e else e.withData kids (String.ofList raw)

@[simp] theorem Element.namespaces_padded (e : Element) (kids : Forest) (raw : List Char) :
    (e.padded kids raw).namespaces = e.namespaces := by
  unfold padded
  split
  · rfl
  · exact e.namespaces_withData kids _

theorem Element.padded_of_ne_nil (e : Element) {kids : Forest} (h : kids ≠ .nil)
    (raw : List Char) : e.padded kids raw = e := by
  unfold padded withData
  rw [if_neg h]
  split <;> rfl

/-- A frame with a text added to its element. -/
def Frame.padded (fr : Frame) (kids : Forest) (raw : List Char) : Frame :=
  { fr with element := fr.element.padded kids raw }

@[simp] theorem Frame.padded_nil (fr : Frame) (kids : Forest) : fr.padded kids [] = fr := by
  simp [padded, Element.padded]

theorem Frame.padded_of_ne_nil (fr : Frame) {kids : Forest} (h : kids ≠ .nil)
    (raw : List Char) : fr.padded kids raw = fr := by
  rw [padded, fr.element.padded_of_ne_nil h]

theorem indent_chars {level : Nat} {breakLine : Bool} {c : Char}
    (hc : c ∈ indent level breakLine) : c = '\n' ∨ c = ' ' := by
  unfold indent at hc
  split at hc
  · rcases List.mem_cons.1 hc with h | h
    · exact .inl h
    · exact .inr (List.eq_of_mem_replicate h)
  · simp at hc

theorem isBlankText_indent (level : Nat) (breakLine : Bool) :
    Text.isBlankText (String.ofList (indent level breakLine)) = true := by
  rw [Text.isBlankText, String.toList_ofList, List.all_eq_true]
  intro c hc
  rcases indent_chars hc with rfl | rfl <;> decide

namespace PartialTree

/-- Indentation in front of a tag goes to the text of the parent. -/
theorem run_indent {size : Nat} {t : PartialTree} {fr : Frame} {outer : List Frame} {cur : Forest}
    (hrep : t.Represents (fr :: outer) cur) (level : Nat) (breakLine : Bool) (offset : Nat)
    (opened : List (List Char)) (rest : List Char) :
    GoesOn size opened ('<' :: rest)
      (fun t' => t'.Represents (fr.padded cur (indent level breakLine) :: outer) cur ∧
        t'.prolog = t.prolog)
      (t.run size (Markup.scanFrom offset opened (indent level breakLine ++ '<' :: rest))) := by
  by_cases hnil : indent level breakLine = []
  · rw [hnil]
    exact ⟨t, offset, ⟨by simpa [Frame.padded, Element.padded] using hrep, rfl⟩, rfl⟩
  · have hlt : '<' ∉ indent level breakLine := fun h => by
      rcases indent_chars h with h | h <;> cases h
    have hamp : '&' ∉ indent level breakLine := fun h => by
      rcases indent_chars h with h | h <;> cases h
    obtain ⟨offset', hrun⟩ := @run_text size _ _ ('<' :: rest) hnil hlt
      (Reference.resolve_of_not_mem hamp) (.inl rfl) t offset opened
    obtain ⟨hrep', hprolog⟩ := hrep.addText (indent level breakLine)
    refine ⟨_, offset', ⟨?_, hprolog⟩, hrun⟩
    rw [Frame.padded, Element.padded, if_neg hnil]
    exact hrep'

end PartialTree

/-! ## What is read -/

/-- The text that an element has when it was written and read. -/
def Element.finalText (e : Element) (kids : Forest) : Option String :=
  if kids = .nil then e.shownText else e.shownText.filter (!Text.isBlankText ·)

/-- The forest that reading makes of a written one. -/
def Forest.reread (scopes : List (List NamespaceDecl)) (scope : PrefixBindings) :
    Forest → Option Forest
  | .nil => some .nil
  | .node (.comment text) _ _ rest =>
    (rest.reread scopes scope).map (.node (.comment text) none .nil ·)
  | .node (.element e) _ kids rest => do
    let decls := e.shownDecls scope
    let e' ← (PartialTree.readElement scopes (e.head decls)).toOption
    let kids' ← kids.reread (decls :: scopes) (decls.foldl .bind scope)
    let rest' ← rest.reread scopes scope
    return .node (.element { e' with text := e.finalText kids }) none kids' rest'

/-- What it takes to write a forest: names that end where they should, and
comments that do too. -/
def Forest.Writable : Forest → Prop
  | .nil => True
  | .node (.comment text) _ kids rest =>
    kids = .nil ∧ Markup.CommentText text.toList ∧ rest.Writable
  | .node (.element e) _ kids rest => e.Writable ∧ kids.Writable ∧ rest.Writable

/-- The element with the text and the indentation that reading adds to it, once
it is closed. -/
theorem Element.closed_text (e r : Element) {kids kids' : Forest}
    (hkids : kids' = .nil ↔ kids = .nil) (level level' : Nat) :
    ((({ r with text := e.shownText } : Element).padded .nil
      (if kids = .nil then [] else indent level e.shownText.isNone)).padded kids'
        (indent level' (kids ≠ .nil))).closedOver kids' =
      { r with text := e.finalText kids } := by
  by_cases hnil : kids = .nil
  · simp [hnil, hkids.2 hnil, padded, indent, closedOver, finalText]
  · have hnil' : kids' ≠ .nil := mt hkids.1 hnil
    rw [Element.padded_of_ne_nil _ hnil', if_neg hnil, closedOver, if_neg hnil', finalText,
      if_neg hnil]
    cases htext : e.shownText with
    | some text => simp [padded, indent]
    | none =>
      have hblank := isBlankText_indent level true
      have hne : indent level true ≠ [] := by simp [indent]
      simp only [Option.isNone_none, padded, if_neg hne, withData, if_pos, Option.getD_none,
        String.empty_append, Option.filter_none]
      rw [Option.filter_some, hblank]
      rfl

theorem PartialTree.readElement_head_spec {scopes : List (List NamespaceDecl)} {e r : Element}
    (he : e.Writable) {decls : List NamespaceDecl}
    (hdecls : ∀ decl ∈ decls, NameText decl.attributeName.toList)
    (h : readElement scopes (e.head decls) = .ok r) : r.namespaces = decls ∧ r.text = none := by
  obtain ⟨-, hreread⟩ := (readElement_head he hdecls scopes r).1 h
  obtain ⟨name, -, hreread⟩ := Outcome.bind_eq_ok.1 hreread
  obtain ⟨attributes, -, hreread⟩ := Outcome.bind_eq_ok.1 hreread
  cases hreread
  exact ⟨rfl, rfl⟩

/-! ## Trees one after the other -/

namespace Forest

/-- The first tree of a forest and what comes after it. -/
theorem markup_node (level : Nat) (scope : PrefixBindings) (breakLine : Bool) (kind : NodeKind)
    (line : Option Nat) (kids rest : Forest) (tail : List Char) :
    (node kind line kids rest).markup level scope breakLine tail =
      indent level breakLine ++ (node kind line kids .nil).markup level scope false
        (rest.markup level scope true tail) := by
  cases kind <;> simp [markup, indent]

theorem reread_node (scopes : List (List NamespaceDecl)) (scope : PrefixBindings)
    (kind : NodeKind) (line : Option Nat) (kids rest : Forest) :
    (node kind line kids rest).reread scopes scope =
      ((node kind line kids .nil).reread scopes scope).bind fun g =>
        (rest.reread scopes scope).map (g ++ ·) := by
  cases kind with
  | comment text => simp [reread]
  | element e =>
    simp only [reread]
    cases (PartialTree.readElement scopes (e.head (e.shownDecls scope))).toOption with
    | none => rfl
    | some r =>
      cases kids.reread (e.shownDecls scope :: scopes) ((e.shownDecls scope).foldl .bind scope) with
      | none => rfl
      | some kids' => cases rest.reread scopes scope <;> rfl

/-- A tree is written from its first tag on. -/
theorem exists_markup_node (level : Nat) (scope : PrefixBindings) (kind : NodeKind)
    (line : Option Nat) (kids : Forest) (tail : List Char) :
    ∃ more, (node kind line kids .nil).markup level scope false tail = '<' :: more := by
  cases kind <;> simp [markup, indent]

/-- What follows a written text begins with a tag. -/
theorem head?_markup (level : Nat) (scope : PrefixBindings) {f : Forest} {tail : List Char}
    (htail : f = .nil → tail.head? = some '<') :
    (f.markup level scope false tail).head? = some '<' := by
  cases f with
  | nil => exact htail rfl
  | node kind line kids rest =>
    obtain ⟨more, hmore⟩ := exists_markup_node level scope kind line kids
      (rest.markup level scope true tail)
    rw [markup_node, indent, List.nil_append, hmore]
    rfl

theorem markup_element (level : Nat) (scope : PrefixBindings) (e : Element) (line : Option Nat)
    (kids : Forest) (tail : List Char) :
    (node (.element e) line kids .nil).markup level scope false tail =
      '<' :: (e.head (e.shownDecls scope) ++
        if e.shownText.isNone ∧ kids = .nil then '/' :: '>' :: tail
        else '>' :: (textChars e.shownText ++
          kids.markup (level + 1) ((e.shownDecls scope).foldl .bind scope) e.shownText.isNone
            (indent level (kids ≠ .nil) ++
              '<' :: '/' :: (e.name.written.toList ++ '>' :: tail)))) := by
  simp only [markup]
  rfl

theorem reread_element (scopes : List (List NamespaceDecl)) (scope : PrefixBindings) (e : Element)
    (line : Option Nat) (kids : Forest) :
    (node (.element e) line kids .nil).reread scopes scope =
      ((PartialTree.readElement scopes (e.head (e.shownDecls scope))).toOption).bind fun r =>
        (kids.reread (e.shownDecls scope :: scopes) ((e.shownDecls scope).foldl .bind scope)).map
          fun kids' => node (.element { r with text := e.finalText kids }) none kids' .nil := by
  simp only [reread]
  cases (PartialTree.readElement scopes (e.head (e.shownDecls scope))).toOption with
  | none => rfl
  | some r =>
    cases kids.reread (e.shownDecls scope :: scopes) ((e.shownDecls scope).foldl .bind scope) <;>
      rfl

theorem reread_eq_nil {scopes : List (List NamespaceDecl)} {scope : PrefixBindings} {f g : Forest}
    (h : f.reread scopes scope = some g) : g = .nil ↔ f = .nil := by
  cases f with
  | nil =>
    cases h
    simp
  | node kind line kids rest =>
    have hne : g ≠ .nil := by
      rw [reread_node] at h
      obtain ⟨tree, htree, h⟩ := Option.bind_eq_some_iff.1 h
      obtain ⟨more, -, rfl⟩ := Option.map_eq_some_iff.1 h
      have hsome : tree ≠ .nil := by
        cases kind with
        | comment text =>
          cases htree
          simp
        | element e =>
          rw [reread_element] at htree
          obtain ⟨r, -, htree⟩ := Option.bind_eq_some_iff.1 htree
          obtain ⟨kids', -, rfl⟩ := Option.map_eq_some_iff.1 htree
          simp
      cases tree with
      | nil => exact absurd rfl hsome
      | node => simp
    simp [hne]

end Forest

namespace PartialTree

/-- The text of an element in front of its children. -/
theorem run_content {size : Nat} {t : PartialTree} {fr : Frame} {outer : List Frame}
    (hrep : t.Represents (fr :: outer) .nil) (htext : fr.element.text = none) (e : Element)
    (offset : Nat) (opened : List (List Char)) {rest : List Char}
    (hrest : e.shownText.isSome = true → rest.head? = some '<') :
    GoesOn size opened rest
      (fun t' => t'.Represents
        ({ fr with element := { fr.element with text := e.shownText } } :: outer) .nil ∧
        t'.prolog = t.prolog)
      (t.run size (Markup.scanFrom offset opened (textChars e.shownText ++ rest))) := by
  cases hshown : e.shownText with
  | none =>
    refine ⟨t, offset, ⟨?_, rfl⟩, by rw [textChars, List.nil_append]⟩
    rw [← htext]
    exact hrep
  | some text =>
    have hne : (Reference.escapeText text).toList ≠ [] := by
      obtain ⟨-, hempty⟩ := Option.filter_eq_some_iff.1 hshown
      intro hnil
      have hdata := Reference.resolve_escapeText text
      rw [hnil, Reference.resolve_of_not_mem (by simp)] at hdata
      have htoList : text.toList = [] := (Except.ok.inj hdata).symm
      rw [String.toList_eq_nil_iff] at htoList
      simp [htoList] at hempty
    obtain ⟨offset', hrun⟩ := @run_text size _ _ rest hne (Reference.not_mem_escapeText text)
      (Reference.resolve_escapeText text) (.inl (hrest (by rw [hshown]; rfl))) t offset opened
    obtain ⟨hrep', hprolog⟩ := hrep.addText text.toList
    refine ⟨_, offset', ⟨?_, hprolog⟩, hrun⟩
    simpa [Element.withData, htext] using hrep'

end PartialTree

end LabelTemplate.Xml
