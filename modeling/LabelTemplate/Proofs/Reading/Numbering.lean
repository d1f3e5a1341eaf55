import LabelTemplate.Proofs.Arena.Order
import LabelTemplate.Proofs.Reading.Content

/-!
# The numbers of the nodes

Reading gives every element and comment the next free id.  So the arena of a
text lists the items of its content in document order, and what stands inside
an element has the ids after that of the element (`inPreorder_of_parse`).

* `listing` is the preorder of a forest.  A forest that is planted in an arena
  has its ids in this order (`Planted.listed`).
* `Filled` says what reading the content of an element does to the frames:
  its items come behind what was there, and its leading data go to the element
  as long as nothing was there.  `Represents.filled` is the induction over the
  content.
* `Rooted` says the same outside all elements, where comments are no nodes and
  a second element is refused (`Represents.rooted`).
-/

namespace LabelTemplate.Xml

/-! ## The nodes of a forest in preorder -/

/-- The nodes of a forest in preorder, each with the number of nodes below it. -/
def Forest.listing : Forest → List (NodeKind × Nat)
  | nil => []
  | node kind _ kids rest => (kind, kids.size) :: (kids.listing ++ rest.listing)

theorem Forest.length_listing (f : Forest) : f.listing.length = f.size := by
  induction f with
  | nil => rfl
  | node kind line kids rest ihk ihr =>
    simp only [listing, List.length_cons, List.length_append, ihk, ihr, size]
    omega

theorem Forest.listing_append (f g : Forest) : (f ++ g).listing = f.listing ++ g.listing := by
  induction f with
  | nil => rfl
  | node kind line kids rest _ ih =>
    rw [node_append, listing, listing, ih, List.cons_append, List.append_assoc]

/-- No tree or one. -/
def Forest.AtMostOne (f : Forest) : Prop :=
  f = .nil ∨ ∃ kind line kids, f = .node kind line kids .nil

namespace Document

variable {d : Document} {par : Option NodeId} {base : Nat} {f : Forest}

/-- The ids of a forest that is planted count its nodes in preorder. -/
theorem Planted.preorder (h : d.Planted par base f) :
    Preorder d (f.roots base) (List.range' base f.size) := by
  induction f generalizing par base with
  | nil => exact .nil
  | node kind line kids rest ihk ihr =>
    obtain ⟨hroot, hkids, hrest⟩ := h
    rw [Forest.size, range'_node]
    refine .node ?_ (ihr hrest)
    rw [children_of_node? hroot]
    exact ihk hkids

/-- Each node has the next id, and what is below it the ids after that. -/
theorem Planted.listed (hd : d.WellFormed) (h : d.Planted par base f) {i below : Nat}
    {kind : NodeKind} (hi : f.listing[i]? = some (kind, below)) :
    d.kind? (base + i) = some kind ∧
      d.descendants (base + i) = List.range' (base + i) (below + 1) := by
  induction f generalizing par base i with
  | nil => cases hi
  | node kind' line kids rest ihk ihr =>
    obtain ⟨hroot, hkids, hrest⟩ := h
    cases i with
    | zero =>
      cases hi
      have halone : Preorder d [base] (List.range' base (kids.size + 1)) := by
        rw [List.range'_succ, ← List.append_nil (List.range' _ _)]
        refine .node ?_ .nil
        rw [children_of_node? hroot]
        exact hkids.preorder
      exact ⟨kind?_of_node? hroot, (hd.preorder_descendants (lt_size_of_node? hroot)).unique halone⟩
    | succ i =>
      rw [Forest.listing, List.getElem?_cons_succ] at hi
      rcases Nat.lt_or_ge i kids.size with hlt | hge
      · rw [List.getElem?_append_left (kids.length_listing.symm ▸ hlt)] at hi
        have hplace : base + (i + 1) = base + 1 + i := by omega
        rw [hplace]
        exact ihk hkids hi
      · rw [List.getElem?_append_right (kids.length_listing.symm ▸ hge), kids.length_listing] at hi
        have hplace : base + (i + 1) = base + 1 + kids.size + (i - kids.size) := by omega
        rw [hplace]
        exact ihr hrest hi

end Document

namespace PartialTree

theorem namespaces_of_readElement {scopes : List (List NamespaceDecl)} {tag : List Char}
    {e : Element} (h : readElement scopes tag = .ok e) :
    e.namespaces = Content.declaredIn tag := by
  unfold readElement at h
  obtain ⟨attrs, hattrs, h⟩ := Outcome.bind_eq_ok.1 h
  obtain ⟨name, -, h⟩ := Outcome.bind_eq_ok.1 h
  obtain ⟨attributes, -, h⟩ := Outcome.bind_eq_ok.1 h
  cases h
  rw [Content.declaredIn, hattrs]

end PartialTree

/-! ## Character data -/

/-- The element with more character data. -/
def Element.withAll (e : Element) (data : List (List Char)) : Element :=
  if data = [] then e else { e with text := some (e.text.getD "" ++ String.ofList data.flatten) }

@[simp] theorem Element.withAll_nil (e : Element) : e.withAll [] = e := rfl

theorem Element.withAll_cons (e : Element) (s : List Char) (data : List (List Char)) :
    e.withAll (s :: data) = (e.withData .nil (String.ofList s)).withAll data := by
  cases data with
  | nil => simp [withAll, withData]
  | cons s' data => simp [withAll, withData, String.append_assoc, String.ofList_append]

/-- The text of an element at its end tag. -/
theorem Element.closedOver_withAll {e : Element} (he : e.text = none) {c : Content}
    {data : List (List Char)} (hdata : c.leadingData = .ok data) {kids : Forest}
    (hkids : c.size = kids.size) :
    ∃ text, c.elementText = .ok text ∧ (e.withAll data).closedOver kids = { e with text } := by
  refine ⟨if data = [] ∨ c.size ≠ 0 ∧ Text.isBlankText (String.ofList data.flatten) = true
    then none else some (String.ofList data.flatten),
    by rw [Content.elementText, hdata]; rfl, ?_⟩
  have hnil : kids = .nil ↔ c.size = 0 := by
    rw [hkids]
    cases kids <;> simp [Forest.size]
  by_cases hempty : data = []
  · have hbare : e = { e with text := none } := by rw [← he]
    rw [if_pos (.inl hempty), withAll, if_pos hempty, closedOver, he]
    split
    · exact hbare
    · rfl
  · rw [withAll, if_neg hempty, he]
    by_cases hsize : c.size = 0
    · simp [closedOver, hnil, hsize, hempty]
    · cases hblank : Text.isBlankText (String.ofList data.flatten) <;>
        simp [closedOver, hnil, hsize, hempty, Option.filter, hblank]

/-! ## The run -/

namespace PartialTree

open Content

/-- Inside the innermost open element the content was read behind `f`.  Its
leading data are of the element if there was nothing else before. -/
def Filled (c : Content) (fr : Frame) (outer : List Frame) (f : Forest) (t' : PartialTree) :
    Prop :=
  ∃ data g, c.leadingData = .ok data ∧
    List.Forall₂ Item.Gives (c.items (scopesOf (fr :: outer))) g.listing ∧
    t'.Represents
      ({ fr with element := if f = .nil then fr.element.withAll data else fr.element } :: outer)
      (f ++ g)

variable {c after : Content} {t t' : PartialTree} {fr : Frame} {frames outer : List Frame}
  {f tree : Forest}

theorem Represents.filled_nil (h : t.Represents (fr :: outer) f) : Filled .nil fr outer f t := by
  refine ⟨[], .nil, rfl, .nil, ?_⟩
  rw [Element.withAll_nil, ite_self, Forest.append_nil]
  exact h

/-- A node in front of some content. -/
theorem Filled.behind {items : List Item} (h : Filled after fr outer (f ++ tree) t')
    (htree : tree ≠ .nil) (hgives : List.Forall₂ Item.Gives items tree.listing)
    (hitems : c.items (scopesOf (fr :: outer)) = items ++ after.items (scopesOf (fr :: outer)))
    (hdata : c.leadingData = .ok []) : Filled c fr outer f t' := by
  obtain ⟨data, g, -, hg, hrep⟩ := h
  refine ⟨[], tree ++ g, hdata, ?_, ?_⟩
  · rw [hitems, Forest.listing_append]
    exact List.rel_append hgives hg
  · rw [if_neg (mt Forest.append_eq_nil_iff.1 fun h => htree h.2), Forest.append_assoc] at hrep
    rw [Element.withAll_nil, ite_self]
    exact hrep

/-- Character data in front of some content. -/
theorem Filled.withData {s : List Char}
    (h : Filled after { fr with element := fr.element.withData f (String.ofList s) } outer f t')
    (hitems : ∀ scopes, c.items scopes = after.items scopes)
    (hdata : c.leadingData = after.leadingData.map (s :: ·)) : Filled c fr outer f t' := by
  obtain ⟨data, g, hafter, hg, hrep⟩ := h
  refine ⟨s :: data, g, by rw [hdata, hafter]; rfl, ?_, ?_⟩
  · rw [hitems]
    simpa [scopesOf] using hg
  · rw [Element.withAll_cons]
    by_cases hf : f = .nil
    · rw [if_pos hf] at hrep ⊢
      rwa [hf] at hrep ⊢
    · rw [if_neg hf] at hrep ⊢
      rwa [Element.withData, if_neg hf] at hrep

/-- A whole element is a tree behind `f`. -/
theorem Filled.closeElement {tag : List Char} {e : Element} {line : Option Nat}
    (h : Filled c ⟨f, e, line⟩ frames .nil t') (he : readElement (scopesOf frames) tag = .ok e) :
    ∃ kind kids, List.Forall₂ Item.Gives
        (.element (scopesOf frames) tag c :: c.items (declaredIn tag :: scopesOf frames))
        (Forest.node kind line kids .nil).listing ∧
      t'.closeElement.Represents frames (f ++ .node kind line kids .nil) := by
  obtain ⟨data, g, hdata, hg, hrep⟩ := h
  rw [if_pos rfl, Forest.nil_append] at hrep
  have hscopes : scopesOf (⟨f, e, line⟩ :: frames) = declaredIn tag :: scopesOf frames :=
    congrArg (· :: scopesOf frames) (namespaces_of_readElement he)
  rw [hscopes] at hg
  have hsize : c.size = g.size := by
    rw [← length_items (declaredIn tag :: scopesOf frames), hg.length_eq, Forest.length_listing]
  obtain ⟨text, htext, hclosed⟩ :=
    Element.closedOver_withAll (readIn_of_readElement he).2 hdata hsize
  have hclose := hrep.closeElement.1
  simp only [hclosed] at hclose
  refine ⟨_, g, ?_, hclose⟩
  rw [Forest.listing, Forest.listing, List.append_nil]
  refine .cons ⟨?_, hsize⟩ hg
  rw [Item.kind, he, htext]
  rfl

/-- Reading one piece and what is after it. -/
theorem Reads.of_piece {m : Markup} {alone : m.standsAlone = true} {after : Content}
    (h : Reads t (Content.piece m alone after).pieces t') :
    ∃ offset t₁, t.addPiece (offset, m) = .ok t₁ ∧ Reads t₁ after.pieces t' := by
  cases h with
  | cons hpiece hrest => exact ⟨_, _, hpiece, hrest⟩

/-- Reading an element and what is after it. -/
theorem Reads.of_element {tag : List Char} {inside after : Content}
    (h : Reads t (Content.element tag inside after).pieces t') :
    ∃ offset t₁ t₂, t.openElement offset tag = .ok t₁ ∧ Reads t₁ inside.pieces t₂ ∧
      Reads t₂.closeElement after.pieces t' := by
  cases h with
  | cons hopen hrest =>
    obtain ⟨t₂, hinside, hclose⟩ := hrest.of_append
    cases hclose with
    | cons hclose hafter =>
      cases hclose
      exact ⟨_, _, t₂, hopen, hinside, hafter⟩

/-- Reading the content of an element. -/
theorem Represents.filled (h : t.Represents (fr :: outer) f) (hok : Reads t c.pieces t') :
    Filled c fr outer f t' := by
  -- inside an element there are other frames, and behind a node there is more before
  induction c generalizing t t' fr outer f with
  | nil =>
    cases hok
    exact h.filled_nil
  | piece m alone after ih =>
    obtain ⟨offset, t₁, ht₁, hok⟩ := hok.of_piece
    cases m with
    | start tag => cases alone
    | close => cases alone
    | empty tag =>
      obtain ⟨t₀, ht₀, rfl⟩ := Outcome.map_eq_ok.1 ht₁
      obtain ⟨-, e, line, he, hopen, -⟩ := h.exists_of_openElement ht₀
      obtain ⟨kind, kids, hgives, hrep⟩ := hopen.filled_nil.closeElement he
      exact (ih hrep hok).behind (by simp) hgives rfl rfl
    | comment body =>
      cases ht₁
      obtain ⟨line, hrep, -⟩ := h.addComment offset body
      have hgives : List.Forall₂ Item.Gives [.comment body]
          (Forest.node (.comment (String.ofList body)) (some line) .nil .nil).listing :=
        .cons ⟨rfl, rfl⟩ .nil
      exact (ih hrep hok).behind (by simp) hgives rfl rfl
    | text raw =>
      simp only [addPiece] at ht₁
      split at ht₁
      · cases ht₁
      · rename_i data hdata
        cases ht₁
        refine (ih (h.addText data).1 hok).withData (fun _ => rfl) ?_
        rw [leadingData, hdata]
        rfl
    | cdata data =>
      cases ht₁
      exact (ih (h.addText data).1 hok).withData (fun _ => rfl) rfl
    | instruction body =>
      cases ht₁
      exact ih (h.addInstruction body) hok
    | declaration =>
      cases ht₁
      exact ih h hok
  | element tag inside after ihInside ihAfter =>
    obtain ⟨offset, t₁, t₂, hopen, hinside, hafter⟩ := hok.of_element
    obtain ⟨-, e, line, he, hrep, -⟩ := h.exists_of_openElement hopen
    obtain ⟨kind, kids, hgives, hclosed⟩ := (ihInside hrep hinside).closeElement he
    exact (ihAfter hclosed hafter).behind (by simp) hgives rfl rfl

/-- Outside all elements the content was read behind `f`, where in all one tree
stands at most. -/
def Rooted (c : Content) (f : Forest) (t' : PartialTree) : Prop :=
  ∃ g, List.Forall₂ Item.Gives (c.withoutOuterComments.items []) g.listing ∧
    t'.Represents [] (f ++ g) ∧ (f ++ g).AtMostOne

/-- The root element in front of what is after it. -/
theorem Rooted.behind {items : List Item} (h : Rooted after tree t')
    (hgives : List.Forall₂ Item.Gives items tree.listing)
    (hitems : c.withoutOuterComments.items [] = items ++ after.withoutOuterComments.items []) :
    Rooted c .nil t' := by
  obtain ⟨g, hg, hrep, hone⟩ := h
  refine ⟨tree ++ g, ?_, hrep, hone⟩
  rw [hitems, Forest.listing_append]
  exact List.rel_append hgives hg

/-- Reading what is outside the root element, and the root element. -/
theorem Represents.rooted (h : t.Represents [] f) (hone : f.AtMostOne)
    (hok : Reads t c.pieces t') : Rooted c f t' := by
  induction c generalizing t f with
  | nil =>
    cases hok
    refine ⟨.nil, .nil, ?_⟩
    rw [Forest.append_nil]
    exact ⟨h, hone⟩
  | piece m alone after ih =>
    obtain ⟨offset, t₁, ht₁, hok⟩ := hok.of_piece
    cases m with
    | start tag => cases alone
    | close => cases alone
    | empty tag =>
      obtain ⟨t₀, ht₀, rfl⟩ := Outcome.map_eq_ok.1 ht₁
      obtain ⟨hnil, e, line, he, hopen, -⟩ := h.exists_of_openElement ht₀
      obtain rfl := hnil rfl
      obtain ⟨kind, kids, hgives, hrep⟩ := hopen.filled_nil.closeElement he
      exact (ih hrep (.inr ⟨kind, line, kids, rfl⟩) hok).behind hgives rfl
    | comment body =>
      cases ht₁
      rw [addComment_outside h] at hok
      exact ih (h.withProlog _) hone hok
    | text raw =>
      simp only [addPiece] at ht₁
      split at ht₁ <;> cases ht₁
      rw [addText_nil h] at hok
      exact ih h hone hok
    | cdata data =>
      cases ht₁
      rw [addText_nil h] at hok
      exact ih h hone hok
    | instruction body =>
      cases ht₁
      exact ih (h.addInstruction body) hone hok
    | declaration =>
      cases ht₁
      exact ih h hone hok
  | element tag inside after _ ih =>
    obtain ⟨offset, t₁, t₂, hopen, hinside, hafter⟩ := hok.of_element
    obtain ⟨hnil, e, line, he, hrep, -⟩ := h.exists_of_openElement hopen
    obtain rfl := hnil rfl
    obtain ⟨kind, kids, hgives, hclosed⟩ := (hrep.filled hinside).closeElement he
    exact (ih hclosed (.inr ⟨kind, line, kids, rfl⟩) hafter).behind hgives rfl

end PartialTree

namespace Document

/-- The arena that is read from a text holds its elements and comments in
document order.  The root is node 0, everything is attached, node `i` is the
`i`-th element or comment, and what stands inside an element has the ids after
it.  The text of an element is all its character data in front of its first
child; it has none if there are no such data, or if they are blank and there is
a child (`Content.elementText`). -/
theorem inPreorder_of_parse {input : String} {d : Document} (h : parse input = .ok d) :
    ∃ c : Content, (Markup.scan input.toList).stop = none ∧
      (∀ c' : Content, c'.pieces = (Markup.scan input.toList).pieces.map (·.2) ↔ c' = c) ∧
      d.root = 0 ∧ (∀ n < d.size, d.isAttached n = true) ∧
      d.descendants d.root = List.range d.size ∧
      d.size = (c.withoutOuterComments.items []).length ∧
      ∀ (i : Nat) (item : Content.Item), (c.withoutOuterComments.items [])[i]? = some item →
        ∃ kind, item.kind = .ok kind ∧ d.kind? i = some kind ∧
          d.descendants i = List.range' i (item.below + 1) := by
  obtain ⟨c, hc⟩ := Content.exists_of_parse h
  obtain ⟨hstop, t, ht, hfinish⟩ := exists_reads_of_parse h
  have hd : d.WellFormed := wellFormed_of_parse h
  rw [← (hc c).2 rfl] at ht
  obtain ⟨f, hgives, hrep, hone⟩ :=
    (PartialTree.represents_start (LineTracker.ofText input)).rooted (.inl rfl) ht
  rw [Forest.nil_append] at hrep hone
  obtain ⟨-, hne, rfl⟩ := hrep.finish hfinish
  obtain ⟨kind, line, kids, rfl⟩ := hone.resolve_left hne
  let f : Forest := .node kind line kids .nil
  let d : Document := { ofForest f with prolog := t.prolog }
  have hsize : d.size = f.size := size_ofForest f
  have hroot : d.root = 0 := root_ofForest f
  have hplanted : d.Planted none 0 f :=
    @planted_of_agree { nodes := #[], root := 0 } d none (by simp) f fun _ _ _ => rfl
  have hall : d.descendants d.root = List.range d.size := by
    rw [hsize, List.range_eq_range', hroot]
    exact (hd.preorder_descendants (hroot ▸ hd.root_lt_size)).unique hplanted.preorder
  refine ⟨c, hstop, hc, hroot, fun n hn => ?attached, hall, ?size, fun i item hi => ?item⟩
  case attached =>
    have hmem : n ∈ d.descendants d.root := hall ▸ List.mem_range.2 hn
    exact hd.isAttached_iff.2 ((hd.mem_descendants hd.root_lt_size).1 hmem)
  case size =>
    rw [hgives.length_eq, Forest.length_listing]
    exact hsize
  case item =>
    obtain ⟨hlt, rfl⟩ := List.getElem?_eq_some_iff.1 hi
    have hlt' : i < f.listing.length := hgives.length_eq ▸ hlt
    obtain ⟨hkind, hbelow⟩ := hgives.get hlt hlt'
    have hlisted := hplanted.listed hd (List.getElem?_eq_getElem hlt')
    rw [Nat.zero_add] at hlisted
    exact ⟨_, hkind, hlisted.1, hlisted.2.trans (congrArg (List.range' i <| · + 1) hbelow.symm)⟩

/-- A text with an instruction and a section among the character data, with
comments inside and outside of the root, and with blanks. -/
def mixedText : String :=
  "<!--c--><a>x&lt;<?i?><![CDATA[y]]><!--d-->tail<b> <c/></b><d> </d></a>"

def mixedContent : Content :=
  .piece (.comment ['c']) rfl (.element ['a']
    (.piece (.text "x&lt;".toList) rfl (.piece (.instruction ['i']) rfl
      (.piece (.cdata ['y']) rfl (.piece (.comment ['d']) rfl (.piece (.text "tail".toList) rfl
        (.element ['b'] (.piece (.text [' ']) rfl (.piece (.empty ['c']) rfl .nil))
          (.element ['d'] (.piece (.text [' ']) rfl .nil) .nil)))))))
    .nil)

theorem inPreorder_of_parse_mixedText :
    ∃ d, parse mixedText = .ok d ∧
      mixedContent.pieces = (Markup.scan mixedText.toList).pieces.map (·.2) ∧
      d.root = 0 ∧ (∀ n < d.size, d.isAttached n = true) ∧ d.descendants 0 = [0, 1, 2, 3, 4] ∧
      [0, 2, 4].map d.text? = [some "x<y", none, some " "] ∧
      ∀ (i : Nat) (item : Content.Item),
        (mixedContent.withoutOuterComments.items [])[i]? = some item →
          ∃ kind, item.kind = .ok kind ∧ d.kind? i = some kind ∧
            d.descendants i = List.range' i (item.below + 1) := by
  let d : Document := .ofTree [.comment "c"] { name := .plain "a", text := some "x<y" } (some 1)
    (.node (.comment "d") (some 1) .nil
      (.node (.element { name := .plain "b" }) (some 1)
        (.node (.element { name := .plain "c" }) (some 1) .nil .nil)
        (.node (.element { name := .plain "d", text := some " " }) (some 1) .nil .nil)))
  have hparse : parse mixedText = .ok d := by decide +kernel
  have hpieces : mixedContent.pieces = (Markup.scan mixedText.toList).pieces.map (·.2) := by
    decide +kernel
  obtain ⟨c, -, hc, hroot, hattached, hall, -, hitems⟩ := inPreorder_of_parse hparse
  obtain rfl := (hc _).1 hpieces
  refine ⟨d, hparse, hpieces, hroot, hattached, ?_, by decide +kernel, hitems⟩
  rw [hroot] at hall
  exact hall.trans (by decide +kernel)

end Document

end LabelTemplate.Xml
