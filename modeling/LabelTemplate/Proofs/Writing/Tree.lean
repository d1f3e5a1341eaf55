import LabelTemplate.Proofs.Arena.Forest
import LabelTemplate.Proofs.Writing.Tags

/-!
# The text of a tree

`Forest.markup` is the text that is written for a forest, as a list of
characters in front of what follows it.  `foldl_writeNode` says that the
writer, which goes along ids with fuel and carries the text written so far,
appends just this.
-/

namespace LabelTemplate.Xml

/-- What is written in front of a tag on a new line. -/
def indent (level : Nat) : (breakLine : Bool) → List Char
  | true => '\n' :: List.replicate (2 * level) ' '
  | false => []

/-- The text that is written; an empty one is not. -/
def Element.shownText (e : Element) : Option String :=
  e.text.filter (!·.isEmpty)

/-- The declarations that are written, given what is in scope outside. -/
def Element.shownDecls (e : Element) (scope : PrefixBindings) : List NamespaceDecl :=
  e.namespaces ++ Document.missingDecls scope e

def textChars : Option String → List Char
  | some text => (Reference.escapeText text).toList
  | none => []

/-- The text of a forest at a level in front of `tail`, inside `scope`. -/
def Forest.markup (level : Nat) (scope : PrefixBindings) (breakLine : Bool) :
    Forest → (tail : List Char) → List Char
  | .nil, tail => tail
  | .node (.comment text) _ _ rest, tail =>
    indent level breakLine ++ '<' :: '!' :: '-' :: '-' :: (text.toList ++ '-' :: '-' :: '>' ::
      rest.markup level scope true tail)
  | .node (.element e) _ kids rest, tail =>
    indent level breakLine ++ '<' :: (e.head (e.shownDecls scope) ++
      if e.shownText.isNone ∧ kids = .nil then '/' :: '>' :: rest.markup level scope true tail
      else '>' :: (textChars e.shownText ++
        kids.markup (level + 1) ((e.shownDecls scope).foldl .bind scope) e.shownText.isNone
          (indent level (kids ≠ .nil) ++ '<' :: '/' :: (e.name.written.toList ++ '>' ::
            rest.markup level scope true tail))))

namespace Document

theorem toList_pushn (c : Char) (n : Nat) : ("".pushn c n).toList = List.replicate n c := by
  rw [String.pushn_eq_repeat_push]
  induction n with
  | zero => rfl
  | succ n ih => rw [Nat.repeat, String.toList_push, ih, List.replicate_succ']

theorem toList_tag (w : Written) (level : Nat) (s : String) :
    (w.tag level s).text.toList = w.text.toList ++ (indent level w.breakLine ++ s.toList) := by
  unfold Written.tag indent
  cases w.breakLine <;> simp [toList_pushn]

theorem toList_content (w : Written) (s : String) :
    (w.content s).text.toList = w.text.toList ++ (Reference.escapeText s).toList := by
  simp [Written.content]

theorem toList_head (e : Element) (decls : List NamespaceDecl) :
    (e.name.written ++ String.join (decls.map (fun decl =>
        writeAttribute decl.attributeName decl.uri) ++
      e.attributes.map fun a => writeAttribute a.name.written a.value)).toList =
      e.head decls := by
  simp [Element.head, Element.pairs, toList_writeAttribute, List.flatMap_map, List.flatMap_append]

theorem Spells.nil_iff {d : Document} {ns : List NodeId} {f : Forest} (h : Spells d ns f) :
    ns = [] ↔ f = .nil := by
  cases h <;> simp

section Element

variable {d : Document} {n : NodeId} {e : Element} {fuel level : Nat} {scope : PrefixBindings}
  (w : Written)

/-- An element with neither text nor children is appended as one tag. -/
theorem writeNode_empty (hkind : d.kind? n = some (.element e))
    (hnone : e.shownText.isNone = true) (hkids : d.children n = []) :
    (d.writeNode (fuel + 1) level scope w n).text.toList =
        w.text.toList ++ (indent level w.breakLine ++
          '<' :: (e.head (e.shownDecls scope) ++ ['/', '>'])) ∧
      (d.writeNode (fuel + 1) level scope w n).breakLine = true := by
  have hwrite : d.writeNode (fuel + 1) level scope w n =
      w.tag level ("<" ++ (e.name.written ++ String.join
        ((e.shownDecls scope).map (fun decl => writeAttribute decl.attributeName decl.uri) ++
          e.attributes.map fun a => writeAttribute a.name.written a.value)) ++ "/>") := by
    simp only [writeNode, hkind]
    exact if_pos ⟨hnone, by rw [hkids]; rfl⟩
  rw [hwrite, toList_tag, String.toList_append, String.toList_append, toList_head]
  exact ⟨by simp, rfl⟩

/-- Any other element is appended as two tags around its text and what its
children append. -/
theorem writeNode_around {kids : Forest} (hkind : d.kind? n = some (.element e))
    (hnil : d.children n = [] ↔ kids = .nil) (hinner : ¬ (e.shownText.isNone = true ∧ kids = .nil))
    (hkids : ∀ w tail,
      let w' := (d.children n).foldl
        (d.writeNode fuel (level + 1) ((e.shownDecls scope).foldl .bind scope)) w
      w'.text.toList ++ tail = w.text.toList ++ kids.markup (level + 1)
          ((e.shownDecls scope).foldl .bind scope) w.breakLine tail ∧
        w'.breakLine = (w.breakLine || decide (kids ≠ .nil)))
    (tail : List Char) :
    (d.writeNode (fuel + 1) level scope w n).text.toList ++ tail =
        w.text.toList ++ (indent level w.breakLine ++ '<' :: (e.head (e.shownDecls scope) ++
          '>' :: (textChars e.shownText ++ kids.markup (level + 1)
            ((e.shownDecls scope).foldl .bind scope) e.shownText.isNone
            (indent level (kids ≠ .nil) ++ '<' :: '/' ::
              (e.name.written.toList ++ '>' :: tail))))) ∧
      (d.writeNode (fuel + 1) level scope w n).breakLine = true := by
  let opened := w.tag level ("<" ++ (e.name.written ++ String.join
    ((e.shownDecls scope).map (fun decl => writeAttribute decl.attributeName decl.uri) ++
      e.attributes.map fun a => writeAttribute a.name.written a.value)) ++ ">")
  let filled := match e.shownText with
    | some text => opened.content text
    | none => opened
  let inside := (d.children n).foldl
    (d.writeNode fuel (level + 1) ((e.shownDecls scope).foldl .bind scope)) filled
  have hwrite : d.writeNode (fuel + 1) level scope w n =
      inside.tag level ("</" ++ e.name.written ++ ">") := by
    simp only [writeNode, hkind]
    exact if_neg fun h => hinner ⟨h.1, hnil.1 (List.isEmpty_iff.1 h.2)⟩
  have hopened : opened.text.toList = w.text.toList ++ (indent level w.breakLine ++
      '<' :: (e.head (e.shownDecls scope) ++ ['>'])) := by
    simp only [opened]
    rw [toList_tag, String.toList_append, String.toList_append, toList_head]
    simp
  have hfilled : filled.text.toList = opened.text.toList ++ textChars e.shownText ∧
      filled.breakLine = e.shownText.isNone := by
    simp only [filled]
    cases e.shownText with
    | none => exact ⟨by simp [textChars], rfl⟩
    | some text => exact ⟨toList_content _ _, rfl⟩
  have hlast : inside.breakLine = decide (kids ≠ .nil) := by
    rw [(hkids filled []).2, hfilled.2]
    by_cases hempty : kids = .nil
    · have htextual : e.shownText.isNone = false := by
        rw [← Bool.not_eq_true]
        exact fun h => hinner ⟨h, hempty⟩
      simp [hempty, htextual]
    · simp [hempty]
  refine ⟨?_, by rw [hwrite]; rfl⟩
  have hmarkup := (hkids filled (indent level (kids ≠ .nil) ++ '<' :: '/' ::
    (e.name.written.toList ++ '>' :: tail))).1
  rw [hfilled.1, hopened, hfilled.2] at hmarkup
  rw [hwrite, toList_tag, hlast]
  simpa [inside] using hmarkup

end Element

/-- Writing the nodes of a forest appends the text of the forest. -/
theorem foldl_writeNode {d : Document} {ns : List NodeId} {f : Forest} (h : Spells d ns f)
    {fuel : Nat} (hfuel : f.height ≤ fuel) (level : Nat) (scope : PrefixBindings) (w : Written)
    (tail : List Char) :
    let w' := ns.foldl (d.writeNode fuel level scope) w
    w'.text.toList ++ tail = w.text.toList ++ f.markup level scope w.breakLine tail ∧
      w'.breakLine = (w.breakLine || decide (f ≠ .nil)) := by
  induction h generalizing fuel level scope w tail with
  | nil => simp [Forest.markup]
  | @node n ns x kids rest hx hkids hrest ihk ihr =>
    simp only [Forest.height] at hfuel
    obtain ⟨fuel, rfl⟩ : ∃ k, fuel = k + 1 := ⟨fuel - 1, by omega⟩
    have hkind : d.kind? n = some x.kind := kind?_of_node? hx
    have hchildren : d.children n = x.children := children_of_node? hx
    obtain ⟨htext, hbreak⟩ := @ihr (fuel + 1) (by omega) level scope
      (d.writeNode (fuel + 1) level scope w n) tail
    intro w'
    have hw' : w' = ns.foldl (d.writeNode (fuel + 1) level scope)
      (d.writeNode (fuel + 1) level scope w n) := List.foldl_cons ..
    rw [hw', htext, hbreak]
    cases hshape : x.kind with
    | comment text =>
      have hwrite : d.writeNode (fuel + 1) level scope w n =
          w.tag level ("<!--" ++ text ++ "-->") := by
        simp only [writeNode, hkind, hshape]
      rw [hwrite, toList_tag]
      simp [Forest.markup, Written.tag]
    | element e =>
      rw [hshape] at hkind
      have hnil : d.children n = [] ↔ kids = .nil := by rw [hchildren, hkids.nil_iff]
      by_cases hleaf : e.shownText.isNone = true ∧ kids = .nil
      · obtain ⟨hwritten, hline⟩ :=
          @writeNode_empty d n e fuel level scope w hkind hleaf.1 (hnil.2 hleaf.2)
        rw [hwritten, hline]
        simp [Forest.markup, hleaf]
      · have hinside : ∀ w tail, _ := fun w tail => hchildren ▸
          @ihk fuel (by omega) (level + 1) ((e.shownDecls scope).foldl .bind scope) w tail
        obtain ⟨hwritten, hline⟩ := writeNode_around w hkind hnil hleaf hinside
          (rest.markup level scope true tail)
        rw [hline]
        refine ⟨?_, by simp⟩
        rw [hwritten]
        simp only [Forest.markup, if_neg hleaf]

end Document

end LabelTemplate.Xml
