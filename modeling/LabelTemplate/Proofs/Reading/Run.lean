import LabelTemplate.Proofs.Arena.Operations
import LabelTemplate.Proofs.Reading.Cutting
import LabelTemplate.Proofs.Reading.Frames

/-!
# A whole reading

`Forest.Legible` is what reading makes sure of in a tree: every element is as
its start tag was read inside the declarations around it, an element with
children has no blank text, and comments are leaves that can be written as
they are.

`PartialTree.Legible` is the invariant of reading.  Each piece keeps it
(`Legible.addPiece`), so a document that was read is one legible tree
(`legible_of_parse`), and in particular well formed.
-/

namespace LabelTemplate.Xml

/-! ## Legible trees -/

/-- True of a text that stays in front of children. -/
def Element.TextStays (e : Element) (kids : Forest) : Prop :=
  kids ≠ .nil → ∀ s, e.text = some s → Text.isBlankText s = false

def Forest.Legible : List (List NamespaceDecl) → Forest → Prop
  | _, .nil => True
  | scopes, .node (.element e) _ kids rest =>
    (e.ReadIn scopes ∧ e.TextStays kids ∧ kids.Legible (e.namespaces :: scopes)) ∧
      rest.Legible scopes
  | scopes, .node (.comment text) _ kids rest =>
    (kids = .nil ∧ Markup.CommentText text.toList) ∧ rest.Legible scopes

def Misc.Legible : Misc → Prop
  | .comment text => Markup.CommentText text.toList
  | .instruction text => Markup.InstructionText text.toList

namespace Forest

theorem legible_append {scopes : List (List NamespaceDecl)} {f g : Forest} :
    (f ++ g).Legible scopes ↔ f.Legible scopes ∧ g.Legible scopes := by
  induction f with
  | nil => simp [Legible]
  | node kind line kids rest _ ih => cases kind <;> simp only [node_append, Legible, ih, and_assoc]

theorem Legible.proper {scopes : List (List NamespaceDecl)} {f : Forest}
    (h : f.Legible scopes) : f.Proper := by
  induction f generalizing scopes with
  | nil => trivial
  | node kind line kids rest ihk ihr =>
    cases kind with
    | element e =>
      obtain ⟨⟨-, -, hkids⟩, hrest⟩ := h
      exact ⟨fun _ => rfl, ihk hkids, ihr hrest⟩
    | comment text =>
      obtain ⟨⟨hkids, -⟩, hrest⟩ := h
      subst hkids
      exact ⟨fun hne => absurd rfl hne, trivial, ihr hrest⟩

end Forest

/-- An element that is closed has no blank text in front of children. -/
theorem Element.textStays_closedOver (e : Element) (kids : Forest) :
    (e.closedOver kids).TextStays kids := by
  intro hne s hs
  rw [closedOver, if_neg hne] at hs
  obtain ⟨-, hblank⟩ := Option.filter_eq_some_iff.1 hs
  simpa using hblank

theorem Element.ReadIn.closedOver {scopes : List (List NamespaceDecl)} {e : Element}
    (h : e.ReadIn scopes) (kids : Forest) : (e.closedOver kids).ReadIn scopes := by
  unfold Element.closedOver
  split
  · exact h
  · exact h.withText _

@[simp] theorem Element.namespaces_closedOver (e : Element) (kids : Forest) :
    (e.closedOver kids).namespaces = e.namespaces := by
  unfold closedOver
  split <;> rfl

theorem Element.ReadIn.withData {scopes : List (List NamespaceDecl)} {e : Element}
    (h : e.ReadIn scopes) (kids : Forest) (data : String) : (e.withData kids data).ReadIn scopes := by
  unfold Element.withData
  split
  · exact h.withText _
  · exact h

/-! ## Legible frames -/

/-- The declarations in scope inside the innermost open element. -/
def scopesOf (frames : List Frame) : List (List NamespaceDecl) :=
  frames.map (·.element.namespaces)

def FramesLegible : List Frame → Prop
  | [] => True
  | fr :: outer =>
    fr.before.Legible (scopesOf outer) ∧ fr.element.ReadIn (scopesOf outer) ∧ FramesLegible outer

namespace PartialTree

/-- What is known of a partial tree whose pieces were all accepted. -/
structure Legible (t : PartialTree) (frames : List Frame) (f : Forest) : Prop where
  represents : t.Represents frames f
  outside : FramesLegible frames
  inside : f.Legible (scopesOf frames)
  /-- Nothing comes before the root. -/
  base : ∀ fr, frames.getLast? = some fr → fr.before = .nil
  /-- The root is the only tree. -/
  top : frames = [] → f = .nil ∨ ∃ e line kids, f = .node (.element e) line kids .nil
  prolog : ∀ m ∈ t.prolog, m.Legible

theorem legible_start (lines : LineTracker) : Legible { lines } [] .nil where
  represents := represents_start lines
  outside := trivial
  inside := trivial
  base := by simp
  top := fun _ => .inl rfl
  prolog := by simp

variable {t t' : PartialTree} {frames : List Frame} {f : Forest}

theorem Represents.withProlog (h : t.Represents frames f) (prolog : List Misc) :
    Represents { t with prolog } frames f :=
  ⟨h.arena, h.opened, h.scopes, h.root⟩

/-- A comment outside all elements is no node. -/
theorem addComment_outside (h : t.Represents [] f) (offset : Nat) (body : List Char) :
    t.addComment offset body = { t with prolog := t.prolog ++ [.comment (String.ofList body)] } := by
  unfold addComment
  rw [if_pos (by rw [h.opened]; rfl)]

/-- An instruction is no node anywhere. -/
theorem Represents.addInstruction (h : t.Represents frames f) (body : List Char) :
    (t.addInstruction body).Represents frames f := by
  unfold PartialTree.addInstruction
  split
  · exact h.withProlog _
  · exact h

/-- What it takes to open an element. -/
theorem openElement_eq_ok {offset : Nat} {content : List Char}
    (h : t.openElement offset content = .ok t') :
    ¬ (t.opened.isEmpty = true ∧ t.root.isSome = true) ∧
      ∃ e, readElement t.scopes content = .ok e := by
  unfold openElement at h
  split at h
  · cases h
  · refine ⟨‹_›, ?_⟩
    split at h
    · cases h
    · exact ⟨_, ‹_›⟩

/-- An element is opened inside the declarations around it, and outside all
elements only where there is no root yet. -/
theorem Represents.exists_of_openElement {offset : Nat} {content : List Char}
    (h : t.Represents frames f) (hok : t.openElement offset content = .ok t') :
    (frames = [] → f = .nil) ∧ ∃ e line, readElement (scopesOf frames) content = .ok e ∧
      t'.Represents (⟨f, e, line⟩ :: frames) .nil ∧ t'.prolog = t.prolog := by
  obtain ⟨hguard, e, he⟩ := openElement_eq_ok hok
  have hone : frames = [] → f = .nil := by
    rintro rfl
    by_contra hf
    exact hguard ⟨by rw [h.opened]; rfl, by rw [h.root, plug, if_neg hf]; rfl⟩
  obtain ⟨t'', line, hopen, hprolog, hrep⟩ :=
    @PartialTree.Represents.openElement t frames f h offset content e he hone
  obtain rfl : t'' = t' := Except.ok.inj (hopen.symm.trans hok)
  have hscopes : t.scopes = scopesOf frames := h.scopes
  exact ⟨hone, e, some line, hscopes ▸ he, hrep, hprolog⟩

theorem Legible.openElement {offset : Nat} {content : List Char} (h : t.Legible frames f)
    (hok : t.openElement offset content = .ok t') :
    ∃ fr, t'.Legible (fr :: frames) .nil := by
  obtain ⟨hone, e, line, he, hrep, hprolog⟩ := h.represents.exists_of_openElement hok
  refine ⟨⟨f, e, line⟩, hrep, ⟨h.inside, (readIn_of_readElement he).1, h.outside⟩, trivial, ?_,
    by simp, ?_⟩
  · cases frames with
    | nil => simpa using hone rfl
    | cons fr outer => simpa using h.base
  · rw [hprolog]
    exact h.prolog

theorem Legible.closeElement {fr : Frame} {outer : List Frame} (h : t.Legible (fr :: outer) f) :
    ∃ f', t.closeElement.Legible outer f' := by
  obtain ⟨hrep, hprolog⟩ := h.represents.closeElement
  obtain ⟨hbefore, hread, houter⟩ := h.outside
  refine ⟨_, hrep, houter, ?_, ?_, ?_, ?_⟩
  · rw [Forest.legible_append]
    refine ⟨hbefore, ⟨hread.closedOver f, Element.textStays_closedOver fr.element f, ?_⟩, trivial⟩
    rw [Element.namespaces_closedOver]
    exact h.inside
  · intro fr' hfr'
    cases outer with
    | nil => cases hfr'
    | cons fr'' outer => exact h.base fr' (by simpa using hfr')
  · rintro rfl
    rw [h.base fr rfl]
    exact .inr ⟨_, _, _, rfl⟩
  · rw [hprolog]
    exact h.prolog

theorem Legible.addText {fr : Frame} {outer : List Frame} (h : t.Legible (fr :: outer) f)
    (data : List Char) : ∃ fr', (t.addText data).Legible (fr' :: outer) f := by
  obtain ⟨hrep, hprolog⟩ := h.represents.addText data
  obtain ⟨hbefore, hread, houter⟩ := h.outside
  refine ⟨_, hrep, ⟨hbefore, hread.withData f _, houter⟩, ?_, ?_, by simp, ?_⟩
  · simpa [scopesOf] using h.inside
  · intro fr' hfr'
    cases outer with
    | nil =>
      cases hfr'
      exact h.base fr rfl
    | cons fr'' outer => exact h.base fr' (by simpa using hfr')
  · rw [hprolog]
    exact h.prolog

theorem Legible.addComment {body : List Char} (h : t.Legible frames f)
    (hbody : Markup.CommentText body) (offset : Nat) :
    ∃ f', (t.addComment offset body).Legible frames f' := by
  cases frames with
  | nil =>
    rw [addComment_outside h.represents]
    refine ⟨f, h.represents.withProlog _, trivial, h.inside, h.base, h.top, ?_⟩
    intro m hm
    rcases List.mem_append.1 hm with hm | hm
    · exact h.prolog m hm
    · rw [List.mem_singleton.1 hm]
      simpa [Misc.Legible] using hbody
  | cons fr outer =>
    obtain ⟨line, hrep, hprolog⟩ := h.represents.addComment offset body
    refine ⟨_, hrep, h.outside, ?_, h.base, by simp, ?_⟩
    · rw [Forest.legible_append]
      exact ⟨h.inside, ⟨rfl, by simpa using hbody⟩, trivial⟩
    · rw [hprolog]
      exact h.prolog

theorem Legible.addInstruction {body : List Char} (h : t.Legible frames f)
    (hbody : Markup.InstructionText body) : (t.addInstruction body).Legible frames f := by
  refine ⟨h.represents.addInstruction body, h.outside, h.inside, h.base, h.top, ?_⟩
  unfold PartialTree.addInstruction
  split
  · intro m hm
    rcases List.mem_append.1 hm with hm | hm
    · exact h.prolog m hm
    · rw [List.mem_singleton.1 hm]
      simpa [Misc.Legible] using hbody
  · exact h.prolog

theorem closeElement_of_opened_nil (h : t.opened = []) : t.closeElement = t := by
  unfold PartialTree.closeElement
  rw [h]

/-- Every accepted piece keeps the invariant of reading. -/
theorem Legible.addPiece {p : Nat × Markup} (h : t.Legible frames f) (hcut : p.2.Cut)
    (hok : t.addPiece p = .ok t') : ∃ frames' f', t'.Legible frames' f' := by
  obtain ⟨offset, piece⟩ := p
  have hclose : ∃ frames' f', t.closeElement.Legible frames' f' := by
    cases frames with
    | nil =>
      rw [closeElement_of_opened_nil h.represents.opened]
      exact ⟨_, _, h⟩
    | cons fr outer =>
      obtain ⟨f', hf'⟩ := h.closeElement
      exact ⟨_, _, hf'⟩
  have htext : ∀ data, ∃ frames' f', (t.addText data).Legible frames' f' := fun data => by
    cases frames with
    | nil =>
      rw [addText_nil h.represents]
      exact ⟨_, _, h⟩
    | cons fr outer =>
      obtain ⟨fr', hfr'⟩ := h.addText data
      exact ⟨_, _, hfr'⟩
  cases piece with
  | start content =>
    obtain ⟨fr, hfr⟩ := h.openElement hok
    exact ⟨_, _, hfr⟩
  | empty content =>
    obtain ⟨t₁, ht₁, rfl⟩ := Outcome.map_eq_ok.1 hok
    obtain ⟨fr, hfr⟩ := h.openElement ht₁
    obtain ⟨f', hf'⟩ := hfr.closeElement
    exact ⟨_, _, hf'⟩
  | close =>
    cases hok
    exact hclose
  | text raw =>
    simp only [PartialTree.addPiece] at hok
    split at hok <;> cases hok
    exact htext _
  | cdata data =>
    cases hok
    exact htext _
  | comment body =>
    cases hok
    obtain ⟨f', hf'⟩ := h.addComment hcut offset
    exact ⟨_, _, hf'⟩
  | instruction body =>
    cases hok
    exact ⟨_, _, h.addInstruction hcut⟩
  | declaration =>
    cases hok
    exact ⟨_, _, h⟩

end PartialTree

/-- The document of one tree, with the nodes in the order of their ids. -/
def Document.ofTree (prolog : List Misc) (e : Element) (line : Option Nat) (kids : Forest) :
    Document :=
  { Document.ofForest (.node (.element e) line kids .nil) with prolog }

namespace PartialTree

variable {t : PartialTree} {frames : List Frame} {f : Forest}

/-- A finished reading has closed all elements and has a root. -/
theorem Represents.finish {size : Nat} {d : Document} (h : t.Represents frames f)
    (hok : t.finish size = .ok d) :
    frames = [] ∧ f ≠ .nil ∧ d = { Document.ofForest f with prolog := t.prolog } := by
  unfold PartialTree.finish at hok
  split at hok
  · cases hok
  · rename_i hopened
    cases frames with
    | cons fr outer =>
      rw [h.opened] at hopened
      simp [openIds] at hopened
    | nil =>
      have hroot := h.root
      by_cases hf : f = .nil
      · rw [plug, if_pos hf] at hroot
        rw [hroot] at hok
        cases hok
      · rw [plug, if_neg hf] at hroot
        rw [hroot] at hok
        cases hok
        have harena : t.arena = .ofForest f := h.arena
        rw [← harena]
        exact ⟨rfl, hf, rfl⟩

/-- A finished reading is of one tree. -/
theorem Legible.finish {size : Nat} {d : Document} (h : t.Legible frames f)
    (hok : t.finish size = .ok d) :
    ∃ e line kids, Forest.Legible [] (.node (.element e) line kids .nil) ∧
      d = .ofTree t.prolog e line kids := by
  obtain ⟨rfl, hne, hd⟩ := h.represents.finish hok
  obtain ⟨e, line, kids, rfl⟩ := (h.top rfl).resolve_left hne
  exact ⟨e, line, kids, h.inside, hd⟩

end PartialTree

namespace Document

/-- A document that was read is one legible tree. -/
theorem legible_of_parse {input : String} {d : Document} (h : parse input = .ok d) :
    ∃ prolog e line kids, (∀ m ∈ prolog, Misc.Legible m) ∧
      Forest.Legible [] (.node (.element e) line kids .nil) ∧ d = .ofTree prolog e line kids := by
  unfold parse at h
  obtain ⟨t, ht, h⟩ := Outcome.bind_eq_ok.1 h
  have hlegible : ∃ frames f, t.Legible frames f := by
    refine Outcome.foldlM_keeps (P := fun t => ∃ frames f, PartialTree.Legible t frames f)
      (fun p hp t₁ t₂ ⟨frames, f, hf⟩ hstep => ?_) ⟨[], .nil, PartialTree.legible_start _⟩ ht
    exact hf.addPiece (Markup.cut_of_mem_scan p hp) hstep
  obtain ⟨frames, f, hf⟩ := hlegible
  split at h
  · cases h
  · obtain ⟨e, line, kids, htree, rfl⟩ := hf.finish h
    exact ⟨t.prolog, e, line, kids, hf.prolog, htree, rfl⟩

theorem linked_empty : ({ nodes := #[], root := 0 } : Document).Linked := by
  have hnode : ∀ n, ({ nodes := #[], root := 0 } : Document).node? n = none := fun n => by
    simp [node?]
  have hparent : ∀ n, ({ nodes := #[], root := 0 } : Document).parent? n = none := fun n => by
    simp [parent?, hnode]
  have hchildren : ∀ n, ({ nodes := #[], root := 0 } : Document).children n = [] := fun n => by
    simp [children, hnode]
  refine ⟨fun p c => by simp [hparent, hchildren], fun p => by simp [hchildren],
    fun p c hc => by simp [hchildren] at hc, fun n hn => ?_⟩
  cases hn with
  | child h => simp [hparent] at h
  | step h _ => simp [hparent] at h

/-- The root of a tree is its element, and has no parent. -/
theorem root_ofTree (prolog : List Misc) (e : Element) (line : Option Nat) (kids : Forest) :
    (ofTree prolog e line kids).root = 0 ∧
      (ofTree prolog e line kids).kind? 0 = some (.element e) ∧
      (ofTree prolog e line kids).parent? 0 = none := by
  have hsize : ({ nodes := #[], root := 0 } : Document).size = 0 := rfl
  refine ⟨root_ofForest _, ?_, ?_⟩
  · change (({ nodes := #[], root := 0 } : Document).graft none _).kind? 0 = _
    rw [graft_node, graft_nil, hsize, kind?_graft (by simp) kids (by simp),
      kind?_sprout _ _ _ _ (by simp), hsize, if_pos rfl]
  · change (({ nodes := #[], root := 0 } : Document).graft none _).parent? 0 = _
    rw [graft_node, graft_nil, hsize, parent?_graft (by simp) kids (by simp),
      parent?_sprout _ _ _ _ (by simp), hsize, if_pos rfl]

theorem wellFormed_ofTree {e : Element} {line : Option Nat} {kids : Forest}
    (h : (Forest.node (.element e) line kids .nil).Proper) (prolog : List Misc) :
    (ofTree prolog e line kids).WellFormed := by
  obtain ⟨hroot, hkind, hparent⟩ := root_ofTree prolog e line kids
  have hlinked : (ofForest (.node (.element e) line kids .nil)).Linked :=
    linked_empty.graft (by simp) h
  refine (hlinked.congr (e := ofTree prolog e line kids) (fun _ => rfl) (fun _ => rfl)
    fun _ hm => hm).wellFormed ?_ ?_
  · rw [hroot, isElement_eq, hkind]
    rfl
  · rw [hroot, hparent]

theorem wellFormed_of_parse {input : String} {d : Document} (h : parse input = .ok d) :
    d.WellFormed := by
  obtain ⟨prolog, e, line, kids, -, htree, rfl⟩ := legible_of_parse h
  exact wellFormed_ofTree htree.proper prolog

end Document

end LabelTemplate.Xml
