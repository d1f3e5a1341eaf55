import LabelTemplate.Proofs.Reading.Run
import LabelTemplate.Proofs.Writing.Tags

/-!
# Written pieces are cut again

For each thing that is written one lemma says that cutting takes it off the
front as one piece, whatever follows.  A start tag ends at its own `>`, since
its names and escaped values hold no `>` and its quotes are closed.
-/

namespace LabelTemplate.Xml

namespace Markup

/-! ## Tags -/

/-- Cutting a tag stops at the first `>` if the quotes before it are
closed. -/
theorem splitTag_append {content : List Char} (hgt : '>' ∉ content) {quote : Option Char}
    (hquote : content.foldl quoteAfter quote = none) (rest : List Char) :
    splitTag quote (content ++ '>' :: rest) = some (content, rest) := by
  induction content generalizing quote with
  | nil =>
    rw [List.foldl_nil] at hquote
    simp [splitTag, hquote]
  | cons c content ih =>
    have hc : ¬ (c = '>' ∧ quote = none) := fun h => hgt (h.1 ▸ List.mem_cons_self)
    rw [List.cons_append, splitTag, if_neg hc,
      ih (fun h => hgt (List.mem_cons_of_mem _ h)) hquote]
    rfl

theorem foldl_quoteAfter_none {cs : List Char} (h : '"' ∉ cs) (h' : '\'' ∉ cs) :
    cs.foldl quoteAfter none = none := by
  induction cs with
  | nil => rfl
  | cons c cs ih =>
    simp only [List.mem_cons, not_or] at h h'
    have hc : quoteAfter none c = none := by
      unfold quoteAfter
      split <;> simp_all
    rw [List.foldl_cons, hc, ih h.2 h'.2]

theorem foldl_quoteAfter_some {cs : List Char} (h : '"' ∉ cs) :
    cs.foldl quoteAfter (some '"') = some '"' := by
  induction cs with
  | nil => rfl
  | cons c cs ih =>
    simp only [List.mem_cons, not_or] at h
    rw [List.foldl_cons, quoteAfter, if_neg (Ne.symm h.1), ih h.2]

theorem foldl_quoteAfter_nameText {cs : List Char} (h : NameText cs) :
    cs.foldl quoteAfter none = none :=
  foldl_quoteAfter_none (h.not_mem (by decide)) (h.not_mem (by decide))

theorem foldl_quoteAfter_attribute {kv : String × String} (h : NameText kv.1.toList) :
    (attributeChars kv).foldl quoteAfter none = none := by
  have hvalue := foldl_quoteAfter_some
    (Reference.not_mem_escapeValue kv.2 (.inr (.inr rfl) : '"' = '<' ∨ '"' = '>' ∨ '"' = '"'))
  rw [attributeChars, List.foldl_cons, List.foldl_append,
    show quoteAfter none ' ' = none from rfl, foldl_quoteAfter_nameText h, List.foldl_cons,
    List.foldl_cons, List.foldl_append, show quoteAfter (quoteAfter none '=') '"' = some '"' from rfl,
    hvalue]
  rfl

section Head

variable {e : Element} (he : e.Writable) {decls : List NamespaceDecl}
  (hdecls : ∀ decl ∈ decls, NameText decl.attributeName.toList)

include he hdecls

theorem quotes_head : (e.head decls).foldl quoteAfter none = none := by
  rw [Element.head, List.foldl_append, foldl_quoteAfter_nameText he.name]
  have hpairs := Element.nameText_of_mem_pairs he hdecls
  generalize e.pairs decls = pairs at hpairs
  induction pairs with
  | nil => rfl
  | cons kv pairs ih =>
    rw [List.flatMap_cons, List.foldl_append,
      foldl_quoteAfter_attribute (hpairs kv List.mem_cons_self)]
    exact ih fun kv hkv => hpairs kv (List.mem_cons_of_mem _ hkv)

theorem not_mem_head : '>' ∉ e.head decls := by
  rw [Element.head, List.mem_append, List.mem_flatMap]
  rintro (h | ⟨kv, hkv, h⟩)
  · exact he.name.not_mem (by decide) h
  · have hkey := Element.nameText_of_mem_pairs he hdecls kv hkv
    have hvalue := Reference.not_mem_escapeValue kv.2
      (.inr (.inl rfl) : '>' = '<' ∨ '>' = '>' ∨ '>' = '"')
    have hno := hkey.not_mem (by decide : '>' ∈ nameEnds)
    simp [attributeChars, hvalue, hno] at h

omit hdecls in
/-- A written start tag ends in a name or a quote. -/
theorem getLast?_head : (e.head decls).getLast? ≠ some '/' := by
  rw [Element.head, List.getLast?_append]
  rcases List.eq_nil_or_concat (e.pairs decls) with hnil | ⟨pairs, kv, hpairs⟩
  · rw [hnil, List.flatMap_nil, List.getLast?_nil, Option.none_or]
    exact fun h => he.name.not_mem (by decide) (List.mem_of_getLast? h)
  · rw [hpairs, List.concat_eq_append, List.flatMap_append, List.flatMap_singleton]
    have hlast : (pairs.flatMap attributeChars ++ attributeChars kv).getLast? = some '"' := by
      rw [show pairs.flatMap attributeChars ++ attributeChars kv =
        (pairs.flatMap attributeChars ++ ' ' :: (kv.1.toList ++ '=' :: '"' ::
          (Reference.escapeValue kv.2).toList)) ++ ['"'] by simp [attributeChars],
        List.getLast?_concat]
    rw [hlast, Option.some_or]
    decide

omit hdecls in
/-- A name does not open any other construct. -/
theorem opened_head (more : List Char) :
    Construct.opened (e.head decls ++ more) = .ok .startTag := by
  obtain ⟨c, cs, hname⟩ := List.exists_cons_of_ne_nil he.name.1
  have hc : ∀ x ∈ nameEnds, c ≠ x := fun x hx =>
    ne_of_isNameChar (he.name.2 c (hname ▸ List.mem_cons_self)) hx
  have h1 := hc '!' (by decide)
  have h2 := hc '?' (by decide)
  have h3 := hc '/' (by decide)
  rw [Element.head, hname]
  simp only [List.cons_append, Construct.opened]
  split <;> simp_all

/-- A start tag is cut off. -/
theorem scanFrom_start (offset : Nat) (opened : List (List Char)) (rest : List Char) :
    ∃ offset', scanFrom offset opened ('<' :: (e.head decls ++ '>' :: rest)) =
      (scanFrom offset' (e.name.written.toList :: opened) rest).cons offset
        (start (e.head decls)) := by
  refine ⟨_, scanFrom_construct (opened_head he _)
    (splitTag_append (not_mem_head he hdecls) (quotes_head he hdecls) rest) ?_ offset⟩
  simp only [ofConstruct, (head_split he decls).1]
  split
  · exact absurd ‹_› (getLast?_head he)
  · rfl

/-- The tag of an empty element is cut off. -/
theorem scanFrom_empty (offset : Nat) (opened : List (List Char)) (rest : List Char) :
    ∃ offset', scanFrom offset opened ('<' :: (e.head decls ++ '/' :: '>' :: rest)) =
      (scanFrom offset' opened rest).cons offset (empty (e.head decls)) := by
  have hgt : '>' ∉ e.head decls ++ ['/'] := by
    rw [List.mem_append]
    rintro (h | h)
    · exact not_mem_head he hdecls h
    · simp at h
  have hquotes : (e.head decls ++ ['/']).foldl quoteAfter none = none := by
    rw [List.foldl_append, quotes_head he hdecls]
    rfl
  have hsplit := splitTag_append hgt hquotes rest
  rw [List.append_assoc, List.singleton_append] at hsplit
  refine ⟨_, scanFrom_construct (opened_head he _) hsplit ?_ offset⟩
  simp [ofConstruct]

end Head

/-- An end tag is cut off if it closes the innermost open tag. -/
theorem scanFrom_close {name : List Char} (hname : NameText name) (offset : Nat)
    (opened : List (List Char)) (rest : List Char) :
    ∃ offset', scanFrom offset (name :: opened) ('<' :: '/' :: (name ++ '>' :: rest)) =
      (scanFrom offset' opened rest).cons offset close := by
  have hgt : '>' ∉ '/' :: name := by
    rw [List.mem_cons, not_or]
    exact ⟨by decide, hname.not_mem (by decide)⟩
  have hquotes : ('/' :: name).foldl quoteAfter none = none := by
    rw [List.foldl_cons, show quoteAfter none '/' = none from rfl]
    exact foldl_quoteAfter_nameText hname
  have htrim : trimEndName name = name := by
    obtain ⟨c, cs, hrev⟩ := List.exists_cons_of_ne_nil (mt List.reverse_eq_nil_iff.1 hname.1)
    have hc : isMarkupBlank c = false :=
      isMarkupBlank_of_isNameChar (hname.2 c (List.mem_reverse.1 (hrev ▸ List.mem_cons_self)))
    have hkept : name.reverse.dropWhile isMarkupBlank = name.reverse := by
      rw [hrev, List.dropWhile_cons_of_neg (by simp [hc])]
    unfold trimEndName
    rw [hkept, hrev]
    simp only
    rw [← hrev, List.reverse_reverse]
  have hsplit : Construct.endTag.split ('/' :: (name ++ '>' :: rest)) = some ('/' :: name, rest) :=
    splitTag_append hgt hquotes rest
  refine ⟨_, scanFrom_construct rfl hsplit ?_ offset⟩
  simp [ofConstruct, htrim]

/-! ## Comments and instructions -/

theorem scanFrom_comment {body : List Char} (h : CommentText body) (offset : Nat)
    (opened : List (List Char)) (rest : List Char) :
    ∃ offset', scanFrom offset opened
        ('<' :: '!' :: '-' :: '-' :: (body ++ '-' :: '-' :: '>' :: rest)) =
      (scanFrom offset' opened rest).cons offset (comment body) := by
  have hsplit : Construct.comment.split
      ('!' :: '-' :: '-' :: (body ++ '-' :: '-' :: '>' :: rest)) =
        some ('!' :: '-' :: '-' :: (body ++ ['-', '-']), rest) := by
    simpa [Construct.split] using h.2 rest
  refine ⟨_, scanFrom_construct rfl hsplit ?_ offset⟩
  have hbody : Text.dropStart? "!--".toList ('!' :: '-' :: '-' :: (body ++ ['-', '-'])) =
      some (body ++ ['-', '-']) := Text.dropStart?_eq_some.2 rfl
  simp only [ofConstruct]
  rw [hbody]
  simp [dropLastTwo, List.dropLast_append_of_ne_nil]

theorem scanFrom_instruction {body : List Char} (h : InstructionText body) (offset : Nat)
    (opened : List (List Char)) (rest : List Char) :
    ∃ offset', scanFrom offset opened ('<' :: '?' :: (body ++ '?' :: '>' :: rest)) =
      (scanFrom offset' opened rest).cons offset (instruction body) := by
  have hsplit : Construct.instruction.split ('?' :: (body ++ '?' :: '>' :: rest)) =
      some ('?' :: (body ++ ['?']), rest) := by
    simpa [Construct.split] using h.1.2 rest
  refine ⟨_, scanFrom_construct rfl hsplit ?_ offset⟩
  cases body with
  | nil => simp [ofConstruct, h.2]
  | cons c body =>
    have hlast : (c :: (body ++ ['?'])).dropLast = c :: body := by
      rw [← List.cons_append, List.dropLast_concat]
    simp [ofConstruct, hlast, h.2]

theorem scanFrom_xmlDeclaration (rest : List Char) :
    ∃ offset, scanFrom 0 [] (Document.xmlDeclaration.toList ++ rest) =
      (scanFrom offset [] ('\n' :: rest)).cons 0 declaration := by
  have hsplit : Construct.instruction.split
      ("?xml version='1.0' encoding='UTF-8'?".toList ++ '>' :: '\n' :: rest) =
        some ("?xml version='1.0' encoding='UTF-8'?".toList, '\n' :: rest) := rfl
  exact ⟨_, scanFrom_construct rfl hsplit (by rfl) 0⟩

end Markup

end LabelTemplate.Xml
