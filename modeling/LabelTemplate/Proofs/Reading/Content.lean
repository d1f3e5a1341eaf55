import LabelTemplate.Proofs.Reading.Run

/-!
# The content of a text

A text that can be read is cut into pieces in which every start tag has its end
tag.  `Content` is the tree of these pieces: an element has what stands between
its tags inside it, and everything has what follows it.

* Cutting gives no end tag without a start tag (`nesting_scanFrom`), and at the
  end of a reading all elements are closed (`Reads.length_opened`).  Such pieces
  are those of some content (`exists_pieces_eq`).
* No other content has the same pieces (`pieces_injective`).

So a text that can be read has one content (`exists_of_parse`).
-/

namespace LabelTemplate.Xml

/-- True of all pieces but the two tags around an element. -/
def Markup.standsAlone : Markup → Bool
  | start _ | close => false
  | _ => true

/-- What stands between two tags, or in a whole text. -/
inductive Content where
  | nil
  | piece (m : Markup) (alone : m.standsAlone = true) (after : Content)
  /-- A start tag, what is before its end tag, and what is after it. -/
  | element (tag : List Char) (inside after : Content)
  deriving DecidableEq, Repr

namespace Content

/-- The pieces that are cut from a text with this content. -/
def pieces : Content → List Markup
  | nil => []
  | piece m _ after => m :: after.pieces
  | element tag inside after => .start tag :: (inside.pieces ++ .close :: after.pieces)

/-! ## Elements, comments and texts -/

/-- The number of elements and comments. -/
def size : Content → Nat
  | nil => 0
  | piece (.empty _) _ after | piece (.comment _) _ after => after.size + 1
  | piece _ _ after => after.size
  | element _ inside after => inside.size + 1 + after.size

/-- The namespace declarations in a start tag. -/
def declaredIn (tag : List Char) : List NamespaceDecl :=
  match StartTag.attributes tag with
  | .ok attrs => attrs.filterMap PartialTree.declaration?
  | .error _ => []

/-- An element, with the declarations around it, or a comment. -/
inductive Item where
  | element (scopes : List (List NamespaceDecl)) (tag : List Char) (inside : Content)
  | comment (body : List Char)

/-- The elements and comments in the order in which they begin. -/
def items (scopes : List (List NamespaceDecl)) : Content → List Item
  | nil => []
  | piece (.empty tag) _ after => .element scopes tag .nil :: after.items scopes
  | piece (.comment body) _ after => .comment body :: after.items scopes
  | piece _ _ after => after.items scopes
  | element tag inside after =>
    .element scopes tag inside :: (inside.items (declaredIn tag :: scopes) ++ after.items scopes)

/-- The content without the comments that no element is around: they are no
nodes of the tree. -/
def withoutOuterComments : Content → Content
  | nil => nil
  | piece (.comment _) _ after => after.withoutOuterComments
  | piece m alone after => .piece m alone after.withoutOuterComments
  | element tag inside after => .element tag inside after.withoutOuterComments

/-- The character data in front of the first element or comment.  Instructions
and declarations do not end it. -/
def leadingData : Content → Except ReferenceFault (List (List Char))
  | piece (.text raw) _ after => do
    let data ← Reference.resolve raw
    let more ← after.leadingData
    return data :: more
  | piece (.cdata data) _ after => do
    let more ← after.leadingData
    return data :: more
  | piece (.instruction _) _ after | piece .declaration _ after => after.leadingData
  | _ => .ok []

/-- The text of an element with this content: all of its leading data, and none
if there are no data, or only blanks in front of a child. -/
def elementText (c : Content) : Except ReferenceFault (Option String) :=
  c.leadingData.map fun data =>
    let text := String.ofList data.flatten
    if data = [] ∨ c.size ≠ 0 ∧ Text.isBlankText text = true then none else some text

namespace Item

/-- What the node of an element or comment is. -/
def kind : Item → Except ReadFault NodeKind
  | element scopes tag inside => do
    let e ← PartialTree.readElement scopes tag
    let text ← inside.elementText.mapError .badReference
    return .element { e with text }
  | comment body => .ok (.comment (String.ofList body))

/-- The number of nodes below it. -/
def below : Item → Nat
  | element _ _ inside => inside.size
  | comment _ => 0

/-- The node has this kind, and as many nodes below it. -/
def Gives (item : Item) (node : NodeKind × Nat) : Prop :=
  item.kind = .ok node.1 ∧ item.below = node.2

end Item

theorem length_items (scopes : List (List NamespaceDecl)) (c : Content) :
    (c.items scopes).length = c.size := by
  induction c generalizing scopes with
  | nil => rfl
  | piece m alone after ih => cases m <;> simp [items, size, ih]
  | element tag inside after ihInside ihAfter =>
    simp only [items, List.length_cons, List.length_append, ihInside, ihAfter, size]
    omega

/-! ## One content for the same pieces -/

/-- The content of an element ends at its end tag, that of a text at its
end. -/
theorem pieces_append_inj {c c' : Content} {r r' : List Markup}
    (hr : r = [] ∨ r.head? = some .close) (hr' : r' = [] ∨ r'.head? = some .close)
    (h : c.pieces ++ r = c'.pieces ++ r') : c = c' ∧ r = r' := by
  -- where one content ends, the other does not go on
  have hstop : ∀ {s t : List Markup} {m : Markup}, (s = [] ∨ s.head? = some .close) →
      m ≠ .close → s ≠ m :: t := by
    intro s t m hs hm hst
    rw [hst] at hs
    rcases hs with hs | hs
    · cases hs
    · exact hm (Option.some.inj hs)
  have halone : ∀ {m : Markup}, m.standsAlone = true → m ≠ .close := by
    rintro m hm rfl
    cases hm
  induction c generalizing c' r r' with
  | nil =>
    cases c' with
    | nil => exact ⟨rfl, h⟩
    | piece m hm after' => exact absurd h (hstop hr (halone hm))
    | element tag inside' after' => exact absurd h (hstop hr (by simp))
  | piece m hm after ih =>
    cases c' with
    | nil => exact absurd h.symm (hstop hr' (halone hm))
    | piece m' hm' after' =>
      obtain ⟨rfl, hafter⟩ := List.cons.inj h
      obtain ⟨rfl, rfl⟩ := ih hr hr' hafter
      exact ⟨rfl, rfl⟩
    | element tag inside' after' =>
      obtain ⟨rfl, -⟩ := List.cons.inj h
      cases hm
  | element tag inside after ihInside ihAfter =>
    cases c' with
    | nil => exact absurd h.symm (hstop hr' (by simp))
    | piece m hm after' =>
      obtain ⟨rfl, -⟩ := List.cons.inj h
      cases hm
    | element tag' inside' after' =>
      simp only [pieces, List.cons_append, List.append_assoc, List.cons.injEq,
        Markup.start.injEq] at h
      obtain ⟨rfl, h⟩ := h
      obtain ⟨rfl, hafter⟩ := ihInside (.inr rfl) (.inr rfl) h
      obtain ⟨rfl, rfl⟩ := ihAfter hr hr' (List.cons.inj hafter).2
      exact ⟨rfl, rfl⟩

theorem pieces_injective : Function.Injective pieces := fun _ _ h =>
  (pieces_append_inj (.inl rfl) (.inl rfl) (congrArg (· ++ []) h)).1

/-! ## Content of nested pieces -/

/-- The number of open elements after a piece; there is no end tag where none is
open. -/
def nest? : Nat → Markup → Option Nat
  | n, .start _ => some (n + 1)
  | 0, .close => none
  | n + 1, .close => some n
  | n, _ => some n

theorem nest?_of_standsAlone {m : Markup} (hm : m.standsAlone = true) (n : Nat) :
    nest? n m = some n := by
  cases m with
  | start tag => cases hm
  | close => cases hm
  | _ => rfl

/-- Pieces that close all `n` open elements: the rest of the innermost one, and
what stands behind each. -/
theorem exists_pieces_append {ps : List Markup} {n : Nat} (h : ps.foldlM nest? n = some 0) :
    ∃ (c : Content) (outer : List Content), outer.length = n ∧
      ps = c.pieces ++ outer.flatMap fun after => .close :: after.pieces := by
  -- from the back: the content behind a piece, and behind each open element, is known
  induction ps generalizing n with
  | nil =>
    obtain rfl : n = 0 := Option.some.inj h
    exact ⟨.nil, [], rfl, rfl⟩
  | cons m ps ih =>
    obtain ⟨k, hk, hps⟩ := Option.bind_eq_some_iff.1 (List.foldlM_cons.symm.trans h)
    obtain ⟨c, outer, hlength, rfl⟩ := ih hps
    by_cases hm : m.standsAlone = true
    · obtain rfl : n = k := Option.some.inj ((nest?_of_standsAlone hm n).symm.trans hk)
      exact ⟨.piece m hm c, outer, hlength, rfl⟩
    · cases m with
      | start tag =>
        obtain rfl : n + 1 = k := Option.some.inj hk
        obtain ⟨after, outer, rfl⟩ := List.exists_cons_of_length_eq_add_one hlength
        refine ⟨.element tag c after, outer, Nat.succ.inj hlength, ?_⟩
        simp [pieces]
      | close =>
        cases n with
        | zero => cases hk
        | succ n =>
          cases hk
          exact ⟨.nil, c :: outer, by rw [List.length_cons, hlength], by simp [pieces]⟩
      | _ => exact absurd rfl hm

theorem exists_pieces_eq {ps : List Markup} (h : ps.foldlM nest? 0 = some 0) :
    ∃ c : Content, c.pieces = ps := by
  obtain ⟨c, outer, hlength, rfl⟩ := exists_pieces_append h
  rw [List.length_eq_zero_iff.1 hlength]
  exact ⟨c, (List.append_nil _).symm⟩

/-! ## Cutting -/

theorem nest?_of_ofConstruct {opened opened' : List (List Char)} {k : Markup.Construct}
    {content : List Char} {m : Markup}
    (h : Markup.ofConstruct opened content k = .ok (m, opened')) :
    nest? opened.length m = some opened'.length := by
  cases k <;> simp only [Markup.ofConstruct] at h
  case startTag => split at h <;> cases h <;> rfl
  case endTag =>
    split at h
    · cases h
    · split at h <;> cases h
      rfl
  case comment | cdata =>
    split at h <;> cases h
    rfl
  case doctype =>
    split at h
    · split at h <;> cases h
      rfl
    · cases h
  case instruction =>
    split at h <;> cases h
    split <;> rfl

/-- End tags are cut only where an element is open. -/
theorem nesting_scanFrom {offset : Nat} {opened : List (List Char)} {cs : List Char} :
    ∃ n, ((Markup.scanFrom offset opened cs).pieces.map (·.2)).foldlM nest? opened.length =
      some n := by
  induction hn : cs.length using Nat.strongRecOn generalizing offset opened cs with
  | ind n ih =>
    have hcons : ∀ {offset' : Nat} {m : Markup} {opened' : List (List Char)} {rest : List Char},
        nest? opened.length m = some opened'.length → rest.length < cs.length →
        ∃ n, (((Markup.scanFrom offset' opened' rest).cons offset m).pieces.map (·.2)).foldlM nest?
          opened.length = some n := by
      intro offset' m opened' rest hm hrest
      obtain ⟨k, hk⟩ := @ih rest.length (hn ▸ hrest) offset' opened' rest rfl
      refine ⟨k, ?_⟩
      rw [Markup.Pieces.cons, List.map_cons, List.foldlM_cons, hm]
      exact hk
    rw [Markup.scanFrom.eq_def]
    split
    · exact ⟨_, rfl⟩
    · rename_i cs
      split
      · exact ⟨_, rfl⟩
      · rename_i k hopened
        split
        · exact ⟨_, rfl⟩
        · rename_i content after hsplit
          have hlength := Markup.Construct.length_of_split hsplit
          simp only
          split
          · exact ⟨_, rfl⟩
          · rename_i m opened' hm
            exact hcons (nest?_of_ofConstruct hm) (Nat.lt_succ_of_lt hlength)
    · rename_i c cs _
      have hlength : (cs.dropWhile (· != '<')).length ≤ cs.length :=
        (List.dropWhile_sublist _).length_le
      exact hcons rfl (Nat.lt_succ_of_le hlength)

theorem nesting_scan (cs : List Char) :
    ∃ n, ((Markup.scan cs).pieces.map (·.2)).foldlM nest? 0 = some n := by
  unfold Markup.scan
  split <;> exact @nesting_scanFrom 0 [] _

end Content

/-! ## Reading -/

namespace PartialTree

variable {t t' : PartialTree}

theorem length_opened_openElement {offset : Nat} {content : List Char}
    (h : t.openElement offset content = .ok t') : t'.opened.length = t.opened.length + 1 := by
  unfold openElement at h
  split at h
  · cases h
  · split at h
    · cases h
    · cases h
      simp only [List.length_cons, opened_addNode]

theorem length_opened_closeElement (t : PartialTree) :
    t.closeElement.opened.length = t.opened.length - 1 := by
  unfold closeElement
  split
  · rename_i h
    rw [h]
    rfl
  · rename_i h
    rw [h]
    rfl

/-- Reading keeps count of the open elements. -/
theorem length_opened_addPiece {p : Nat × Markup} (h : t.addPiece p = .ok t') {n : Nat}
    (hn : Content.nest? t.opened.length p.2 = some n) : t'.opened.length = n := by
  obtain ⟨offset, m⟩ := p
  have htext : ∀ data, (t.addText data).opened = t.opened := fun data => by
    unfold addText
    split <;> rename_i heq <;> simp [heq]
  cases m with
  | start tag =>
    cases hn
    exact length_opened_openElement h
  | empty tag =>
    cases hn
    obtain ⟨t₁, ht₁, rfl⟩ := Outcome.map_eq_ok.1 h
    rw [length_opened_closeElement, length_opened_openElement ht₁]
    rfl
  | close =>
    cases h
    rw [length_opened_closeElement]
    cases hlength : t.opened.length with
    | zero =>
      rw [hlength] at hn
      cases hn
    | succ k =>
      rw [hlength] at hn
      cases hn
      rfl
  | text raw =>
    cases hn
    simp only [addPiece] at h
    split at h <;> cases h
    rw [htext]
  | cdata data =>
    cases hn
    cases h
    rw [htext]
  | comment body =>
    cases hn
    cases h
    unfold addComment
    split
    · rfl
    · simp only [opened_addNode]
  | instruction body =>
    cases hn
    cases h
    unfold addInstruction
    split <;> rfl
  | declaration =>
    cases hn
    cases h
    rfl

/-- From `t` to `t'` the pieces were read, wherever they stood. -/
inductive Reads : PartialTree → List Markup → PartialTree → Prop where
  | nil {t : PartialTree} : Reads t [] t
  | cons {t t₁ t' : PartialTree} {offset : Nat} {m : Markup} {ms : List Markup}
      (h : t.addPiece (offset, m) = .ok t₁) (hrest : Reads t₁ ms t') : Reads t (m :: ms) t'

theorem reads_of_foldlM {ps : List (Nat × Markup)} (h : ps.foldlM addPiece t = .ok t') :
    Reads t (ps.map (·.2)) t' := by
  induction ps generalizing t with
  | nil =>
    cases h
    exact .nil
  | cons p ps ih =>
    rw [List.foldlM_cons] at h
    obtain ⟨t₁, ht₁, h⟩ := Outcome.bind_eq_ok.1 h
    exact .cons ht₁ (ih h)

theorem Reads.of_append {ms ms' : List Markup} (h : Reads t (ms ++ ms') t') :
    ∃ t₁, Reads t ms t₁ ∧ Reads t₁ ms' t' := by
  induction ms generalizing t with
  | nil => exact ⟨t, .nil, h⟩
  | cons m ms ih =>
    cases h with
    | cons hpiece hrest =>
      obtain ⟨t₁, hfirst, hthen⟩ := ih hrest
      exact ⟨t₁, .cons hpiece hfirst, hthen⟩

theorem Reads.length_opened {ms : List Markup} (h : Reads t ms t') {n : Nat}
    (hn : ms.foldlM Content.nest? t.opened.length = some n) : t'.opened.length = n := by
  induction h with
  | nil =>
    cases hn
    rfl
  | cons hpiece _ ih =>
    rw [List.foldlM_cons] at hn
    obtain ⟨k, hk, hn⟩ := Option.bind_eq_some_iff.1 hn
    exact ih ((length_opened_addPiece hpiece hk).symm ▸ hn)

end PartialTree

/-- A text that can be read is cut to its end, and read piece by piece. -/
theorem Document.exists_reads_of_parse {input : String} {d : Document}
    (h : parse input = .ok d) :
    (Markup.scan input.toList).stop = none ∧ ∃ t,
      PartialTree.Reads { lines := LineTracker.ofText input }
        ((Markup.scan input.toList).pieces.map (·.2)) t ∧
        t.finish input.utf8ByteSize = .ok d := by
  unfold parse at h
  obtain ⟨t, ht, h⟩ := Outcome.bind_eq_ok.1 h
  split at h
  · cases h
  · exact ⟨‹_›, t, PartialTree.reads_of_foldlM ht, h⟩

/-- A text that can be read has a content, and it has one only. -/
theorem Content.exists_of_parse {input : String} {d : Document}
    (h : Document.parse input = .ok d) :
    ∃ c : Content, ∀ c' : Content,
      c'.pieces = (Markup.scan input.toList).pieces.map (·.2) ↔ c' = c := by
  obtain ⟨-, t, ht, hfinish⟩ := Document.exists_reads_of_parse h
  have hclosed : t.opened.length = 0 := by
    unfold PartialTree.finish at hfinish
    split at hfinish
    · cases hfinish
    · rename_i hopened
      simpa using hopened
  obtain ⟨n, hn⟩ := nesting_scan input.toList
  obtain rfl : n = 0 := (ht.length_opened hn).symm.trans hclosed
  obtain ⟨c, hc⟩ := exists_pieces_eq hn
  refine ⟨c, fun c' => ?_⟩
  rw [← hc, pieces_injective.eq_iff]

end LabelTemplate.Xml
