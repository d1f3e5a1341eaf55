import LabelTemplate.Proofs.Writing.Rereading

/-!
# Written trees are read back

`Adds` says what reading the text of a forest does in the middle of any
reading: the frames stay as they are, and the forest that `reread` gives
stands behind what was there, or the reading fails where `reread` has
nothing.

The text of a tree does so if the text of its children does (`adds_element`),
so that of every forest does (`Forest.readsBack`).  A whole document is its
prolog and one such tree (`parse_toXml`).
-/

namespace LabelTemplate.Xml

namespace PartialTree

/-- The reading `r` goes on at `tail` with `g` read behind `cur`, or has
failed if there is no `g`. -/
def Adds (size : Nat) (opened : List (List Char)) (tail : List Char) (prolog : List Misc)
    (frames : List Frame) (cur : Forest) (g : Option Forest) (r : Except ReadError Document) :
    Prop :=
  match g with
  | some g =>
    GoesOn size opened tail (fun t' => (∃ cur', t'.Represents frames cur' ∧
      cur'.bare = cur.bare ++ g.bare) ∧ t'.prolog = prolog) r
  | none => ∃ err, r = .error err

variable {size : Nat} {opened : List (List Char)} {t : PartialTree} {frames : List Frame}
  {cur : Forest}

theorem openElement_error {fault : ReadFault} {content : List Char}
    (h : readElement t.scopes content = .error fault) (offset : Nat) :
    ∃ err, t.openElement offset content = .error err := by
  unfold openElement
  split
  · exact ⟨_, rfl⟩
  · rw [h]
    exact ⟨_, rfl⟩

/-- A comment is read as a leaf. -/
theorem adds_comment {fr : Frame} {outer : List Frame} (hrep : t.Represents (fr :: outer) cur)
    {text : String} (htext : Markup.CommentText text.toList) (level : Nat)
    (scope : PrefixBindings) (line : Option Nat) (offset : Nat) (tail : List Char) :
    Adds size opened tail t.prolog (fr :: outer) cur
      (some (.node (.comment text) none .nil .nil))
      (t.run size (Markup.scanFrom offset opened
        ((Forest.node (.comment text) line .nil .nil).markup level scope false tail))) := by
  obtain ⟨offset', hscan⟩ := Markup.scanFrom_comment htext offset opened tail
  obtain ⟨line', hrep', hprolog⟩ := hrep.addComment offset text.toList
  refine ⟨t.addComment offset text.toList, offset', ⟨⟨_, hrep', ?_⟩, hprolog⟩, ?_⟩
  · rw [Forest.bare_append, String.ofList_toList]
    rfl
  · have hpiece : t.addPiece (offset, .comment text.toList) =
        .ok (t.addComment offset text.toList) := rfl
    simp only [Forest.markup, indent, List.nil_append]
    rw [hscan, run_cons_ok hpiece]

/-- An element that is read with its content, up to its end tag. -/
theorem Represents.closed {fr : Frame} (h : t.Represents (fr :: frames) cur) {e : Element}
    (he : fr.element.closedOver cur = e) {kids' : Forest} (hkids : cur.bare = kids'.bare) :
    ∃ cur', t.closeElement.Represents frames cur' ∧
      cur'.bare = fr.before.bare ++ (Forest.node (.element e) none kids' .nil).bare := by
  refine ⟨_, h.closeElement.1, ?_⟩
  rw [Forest.bare_append, he, Forest.bare, hkids, Forest.bare]
  rfl

/-- An element with neither text nor children is written as one tag. -/
theorem adds_emptyElement (hrep : t.Represents frames cur) (hone : frames = [] → cur = .nil)
    {e : Element} (he : e.Writable) (scope : PrefixBindings) (hnone : e.shownText.isNone = true)
    (level : Nat) (line : Option Nat) (offset : Nat) (tail : List Char) :
    Adds size opened tail t.prolog frames cur
      ((Forest.node (.element e) line .nil .nil).reread t.scopes scope)
      (t.run size (Markup.scanFrom offset opened
        ((Forest.node (.element e) line .nil .nil).markup level scope false tail))) := by
  have hdecls := nameText_shownDecls he scope
  obtain ⟨offset', hscan⟩ := Markup.scanFrom_empty he hdecls offset opened tail
  rw [Forest.reread_element, Forest.markup_element, if_pos ⟨hnone, rfl⟩, hscan]
  cases hread : readElement t.scopes (e.head (e.shownDecls scope)) with
  | error fault =>
    obtain ⟨err, herr⟩ := openElement_error hread offset
    have hpiece : t.addPiece (offset, .empty (e.head (e.shownDecls scope))) = .error err := by
      simp only [addPiece, herr]
      rfl
    exact ⟨err, run_cons_error hpiece _⟩
  | ok r =>
    obtain ⟨t₁, line₁, hopen, hprolog, hrep₁⟩ :=
      @Represents.openElement t frames cur hrep offset _ r hread hone
    have htext : { r with text := e.finalText .nil } = r := by
      have hr := (readElement_head_spec he hdecls hread).2
      rw [Element.finalText, if_pos rfl, Option.isNone_iff_eq_none.1 hnone, ← hr]
    refine ⟨t₁.closeElement, offset',
      ⟨@Represents.closed _ _ _ _ hrep₁ _ ?_ .nil rfl, ?_⟩, ?_⟩
    · rw [Element.closedOver, if_pos rfl, htext]
    · rw [hrep₁.closeElement.2, hprolog]
    · have hpiece : t.addPiece (offset, .empty (e.head (e.shownDecls scope))) =
          .ok t₁.closeElement := by
        simp only [addPiece, hopen]
        rfl
      exact run_cons_ok hpiece _

/-- An element is read if its children are. -/
theorem adds_element (hrep : t.Represents frames cur) (hone : frames = [] → cur = .nil)
    {e : Element} (he : e.Writable) {kids : Forest} {scope : PrefixBindings} {level : Nat}
    (hkids : ∀ (t : PartialTree) (fr : Frame) (offset : Nat) (tail : List Char),
      t.Represents (fr :: frames) .nil → fr.element.namespaces = e.shownDecls scope →
      Adds size (e.name.written.toList :: opened) tail t.prolog
        (fr.padded .nil (if kids = .nil then [] else indent (level + 1) e.shownText.isNone) ::
          frames) .nil
        (kids.reread (e.shownDecls scope :: scopesOf frames)
          ((e.shownDecls scope).foldl .bind scope))
        (t.run size (Markup.scanFrom offset (e.name.written.toList :: opened)
          (kids.markup (level + 1) ((e.shownDecls scope).foldl .bind scope) e.shownText.isNone
            tail))))
    (line : Option Nat) (offset : Nat) (tail : List Char) :
    Adds size opened tail t.prolog frames cur
      ((Forest.node (.element e) line kids .nil).reread (scopesOf frames) scope)
      (t.run size (Markup.scanFrom offset opened
        ((Forest.node (.element e) line kids .nil).markup level scope false tail))) := by
  have hdecls := nameText_shownDecls he scope
  have hscopes : t.scopes = scopesOf frames := hrep.scopes
  by_cases hleaf : e.shownText.isNone = true ∧ kids = .nil
  · obtain ⟨hnone, rfl⟩ := hleaf
    rw [← hscopes]
    exact adds_emptyElement hrep hone he scope hnone level line offset tail
  · rw [Forest.reread_element, Forest.markup_element, ← hscopes, if_neg hleaf]
    obtain ⟨offset₁, hscan⟩ := Markup.scanFrom_start he hdecls offset opened
      (textChars e.shownText ++ kids.markup (level + 1) ((e.shownDecls scope).foldl .bind scope)
        e.shownText.isNone (indent level (kids ≠ .nil) ++ '<' :: '/' ::
          (e.name.written.toList ++ '>' :: tail)))
    rw [hscan]
    cases hread : readElement t.scopes (e.head (e.shownDecls scope)) with
    | error fault =>
      obtain ⟨err, herr⟩ := openElement_error hread offset
      have hpiece : t.addPiece (offset, .start (e.head (e.shownDecls scope))) = .error err := herr
      exact ⟨err, run_cons_error hpiece _⟩
    | ok r =>
      obtain ⟨hnamespaces, htext⟩ := readElement_head_spec he hdecls hread
      obtain ⟨t₁, line₁, hopen, hprolog₁, hrep₁⟩ :=
        @Represents.openElement t frames cur hrep offset _ r hread hone
      have hhead : e.shownText.isSome = true → (kids.markup (level + 1)
          ((e.shownDecls scope).foldl .bind scope) e.shownText.isNone
          (indent level (kids ≠ .nil) ++ '<' :: '/' ::
            (e.name.written.toList ++ '>' :: tail))).head? = some '<' := fun hsome => by
        rw [Option.isNone_eq_false_iff.2 hsome]
        refine Forest.head?_markup _ _ fun hnil => ?_
        simp [hnil, indent]
      obtain ⟨t₂, offset₂, ⟨hrep₂, hprolog₂⟩, hrun₂⟩ :=
        @run_content size _ _ _ hrep₁ htext e offset₁ (e.name.written.toList :: opened) _ hhead
      have hpiece : t.addPiece (offset, .start (e.head (e.shownDecls scope))) = .ok t₁ := hopen
      have hinner := hkids t₂ _ offset₂ (indent level (kids ≠ .nil) ++ '<' :: '/' ::
        (e.name.written.toList ++ '>' :: tail)) hrep₂ hnamespaces
      rw [run_cons_ok hpiece, hrun₂]
      rw [← hscopes] at hinner
      change Adds size opened tail t.prolog frames cur (Option.map _ _) _
      cases hreread : kids.reread (e.shownDecls scope :: t.scopes)
          ((e.shownDecls scope).foldl .bind scope) with
      | none =>
        rw [hreread] at hinner
        exact hinner
      | some kids' =>
        rw [hreread] at hinner
        obtain ⟨t₃, offset₃, ⟨⟨cur₃, hrep₃, hcur₃⟩, hprolog₃⟩, hrun₃⟩ := hinner
        obtain ⟨t₄, offset₄, ⟨hrep₄, hprolog₄⟩, hrun₄⟩ :=
          @run_indent size _ _ _ _ hrep₃ level (kids ≠ .nil) offset₃
            (e.name.written.toList :: opened) ('/' :: (e.name.written.toList ++ '>' :: tail))
        obtain ⟨offset₅, hclose⟩ := Markup.scanFrom_close he.name offset₄ opened tail
        have hnil : cur₃ = .nil ↔ kids = .nil := by
          rw [← Forest.reread_eq_nil hreread, ← @Forest.bare_eq_nil_iff kids',
            ← @Forest.bare_eq_nil_iff cur₃, hcur₃]
          rfl
        refine ⟨t₄.closeElement, offset₅, ⟨@Represents.closed _ _ _ _ hrep₄ _
          (Element.closed_text e r hnil (level + 1) level) kids' hcur₃, ?_⟩, ?_⟩
        · rw [hrep₄.closeElement.2, hprolog₄, hprolog₃, hprolog₂, hprolog₁]
        · have hpiece : t₄.addPiece (offset₄, .close) = .ok t₄.closeElement := rfl
          rw [hrun₃, hrun₄, hclose, run_cons_ok hpiece]

/-- One forest after the other. -/
theorem Adds.trans {tail tail' : List Char} {prolog : List Misc} {g h : Option Forest}
    {r : Except ReadError Document} (hfirst : Adds size opened tail' prolog frames cur g r)
    (hthen : ∀ (t' : PartialTree) cur' offset tree, t'.Represents frames cur' →
      t'.prolog = prolog → g = some tree → cur'.bare = cur.bare ++ tree.bare →
      Adds size opened tail prolog frames cur' h
        (t'.run size (Markup.scanFrom offset opened tail'))) :
    Adds size opened tail prolog frames cur (g.bind fun tree => h.map (tree ++ ·)) r := by
  cases g with
  | none => exact hfirst
  | some tree =>
    obtain ⟨t', offset, ⟨⟨cur', hrep, hcur⟩, hprolog⟩, rfl⟩ := hfirst
    have hrest := hthen t' cur' offset tree hrep hprolog rfl hcur
    cases h with
    | none => exact hrest
    | some more =>
      obtain ⟨t'', offset', ⟨⟨cur'', hrep', hcur'⟩, hprolog'⟩, hrun⟩ := hrest
      refine ⟨t'', offset', ⟨⟨cur'', hrep', ?_⟩, hprolog'⟩, hrun⟩
      rw [hcur', hcur, Forest.bare_append, Forest.append_assoc]

end PartialTree

/-- The text of a writable forest is read as `reread` says, from the middle of
any reading. -/
theorem Forest.readsBack {f : Forest} (hf : f.Writable) {size level : Nat} {scope : PrefixBindings}
    {breakLine : Bool} {t : PartialTree} {fr : Frame} {outer : List Frame} {cur : Forest}
    (hrep : t.Represents (fr :: outer) cur) (offset : Nat) (opened : List (List Char))
    (tail : List Char) :
    PartialTree.Adds size opened tail t.prolog
      (fr.padded cur (if f = .nil then [] else indent level breakLine) :: outer) cur
      (f.reread (scopesOf (fr :: outer)) scope)
      (t.run size (Markup.scanFrom offset opened (f.markup level scope breakLine tail))) := by
  induction f generalizing level scope breakLine t fr outer cur offset opened tail with
  | nil =>
    refine ⟨t, offset, ⟨⟨cur, ?_, by simp [bare]⟩, rfl⟩, rfl⟩
    rw [if_pos rfl, Frame.padded_nil]
    exact hrep
  | node kind line kids rest ihk ihr =>
    obtain ⟨more, hmore⟩ := exists_markup_node level scope kind line kids
      (rest.markup level scope true tail)
    obtain ⟨t₁, offset₁, ⟨hrep₁, hprolog₁⟩, hrun₁⟩ :=
      @PartialTree.run_indent size t fr outer cur hrep level breakLine offset opened more
    have hscopes : scopesOf (fr.padded cur (indent level breakLine) :: outer) =
        scopesOf (fr :: outer) := by
      simp [scopesOf, Frame.padded]
    have hwritable : rest.Writable := by cases kind <;> exact hf.2.2
    have htree : PartialTree.Adds size opened (rest.markup level scope true tail) t₁.prolog
        (fr.padded cur (indent level breakLine) :: outer) cur
        ((node kind line kids .nil).reread (scopesOf (fr :: outer)) scope)
        (t₁.run size (Markup.scanFrom offset₁ opened
          ((node kind line kids .nil).markup level scope false
            (rest.markup level scope true tail)))) := by
      cases kind with
      | comment text =>
        obtain ⟨rfl, htext, -⟩ := hf
        exact PartialTree.adds_comment hrep₁ htext level scope line offset₁ _
      | element e =>
        obtain ⟨he, hkids, -⟩ := hf
        rw [← hscopes]
        refine PartialTree.adds_element hrep₁ (by simp) he (fun t' fr' offset' tail' hrep' hdecls =>
          ?_) line offset₁ _
        rw [← hdecls]
        exact ihk hkids hrep' offset' _ tail'
    rw [if_neg (by simp), reread_node, markup_node, hmore, hrun₁, ← hmore, ← hprolog₁]
    refine htree.trans fun t₂ cur₂ offset₂ tree hrep₂ hprolog₂ hreread hcur₂ => ?_
    have hne : cur₂ ≠ .nil := by
      rintro rfl
      have htreeNil := (append_eq_nil_iff.1 hcur₂.symm).2
      rw [bare_eq_nil_iff, reread_eq_nil hreread] at htreeNil
      cases htreeNil
    have hrest := @ihr hwritable level scope true _ _ _ _ hrep₂ offset₂ opened tail
    rw [Frame.padded_of_ne_nil _ hne, hscopes, hprolog₂] at hrest
    exact hrest

/-! ## Whole documents -/

namespace PartialTree

variable {size : Nat} {t : PartialTree}

/-- Outside the root a line break does nothing. -/
theorem run_newline {f : Forest} (hrep : t.Represents [] f) {rest : List Char}
    (hrest : rest.head? = some '<' ∨ rest = []) (offset : Nat) :
    ∃ offset', t.run size (Markup.scanFrom offset [] ('\n' :: rest)) =
      t.run size (Markup.scanFrom offset' [] rest) := by
  obtain ⟨offset', hrun⟩ := @run_text size ['\n'] _ rest (by simp) (by simp)
    (Reference.resolve_of_not_mem (by simp)) hrest t offset []
  rw [addText_nil hrep] at hrun
  exact ⟨offset', hrun⟩

/-- A comment or instruction in front of the root goes to the prolog. -/
theorem run_misc (hrep : t.Represents [] .nil) {m : Misc} (hm : m.Legible) {rest : List Char}
    (hrest : rest.head? = some '<') (offset : Nat) :
    GoesOn size [] rest (fun t' => t'.Represents [] .nil ∧ t'.prolog = t.prolog ++ [m])
      (t.run size (Markup.scanFrom offset [] (m.written.toList ++ rest))) := by
  have hopened : t.opened = [] := hrep.opened
  let t' : PartialTree := { t with prolog := t.prolog ++ [m] }
  have hrep' : t'.Represents [] .nil := hrep.withProlog _
  have hpiece : ∃ piece offset', t.addPiece (offset, piece) = .ok t' ∧
      Markup.scanFrom offset [] (m.written.toList ++ rest) =
        (Markup.scanFrom offset' [] ('\n' :: rest)).cons offset piece := by
    cases m with
    | comment text =>
      obtain ⟨offset', hscan⟩ := Markup.scanFrom_comment hm offset [] ('\n' :: rest)
      refine ⟨.comment text.toList, offset', ?_, ?_⟩
      · simp [addPiece, addComment, hopened, t']
      · rw [← hscan]
        simp [Misc.written]
    | instruction text =>
      obtain ⟨offset', hscan⟩ := Markup.scanFrom_instruction hm offset [] ('\n' :: rest)
      refine ⟨.instruction text.toList, offset', ?_, ?_⟩
      · simp [addPiece, addInstruction, hopened, t']
      · rw [← hscan]
        simp [Misc.written]
  obtain ⟨piece, offset', hok, hscan⟩ := hpiece
  obtain ⟨offset'', hrun⟩ := @run_newline size t' _ hrep' rest (.inl hrest) offset'
  refine ⟨t', offset'', ⟨hrep', rfl⟩, ?_⟩
  rw [hscan, run_cons_ok hok, hrun]

theorem head?_prolog (ms : List Misc) {rest : List Char} (hrest : rest.head? = some '<') :
    (ms.flatMap (·.written.toList) ++ rest).head? = some '<' := by
  cases ms with
  | nil => exact hrest
  | cons m ms => cases m <;> simp [Misc.written]

theorem run_prolog (ms : List Misc) (hms : ∀ m ∈ ms, m.Legible) (hrep : t.Represents [] .nil)
    {rest : List Char} (hrest : rest.head? = some '<') (offset : Nat) :
    GoesOn size [] rest (fun t' => t'.Represents [] .nil ∧ t'.prolog = t.prolog ++ ms)
      (t.run size (Markup.scanFrom offset [] (ms.flatMap (·.written.toList) ++ rest))) := by
  induction ms generalizing t offset with
  | nil => exact ⟨t, offset, ⟨hrep, by rw [List.append_nil]⟩, rfl⟩
  | cons m ms ih =>
    obtain ⟨t₁, offset₁, ⟨hrep₁, hprolog₁⟩, hrun₁⟩ :=
      @run_misc size t hrep m (hms m List.mem_cons_self) _ (head?_prolog ms hrest) offset
    obtain ⟨t₂, offset₂, ⟨hrep₂, hprolog₂⟩, hrun₂⟩ :=
      ih (fun m' hm' => hms m' (List.mem_cons_of_mem _ hm')) hrep₁ offset₁
    refine ⟨t₂, offset₂, ⟨hrep₂, ?_⟩, ?_⟩
    · rw [hprolog₂, hprolog₁, List.append_assoc, List.singleton_append]
    · rw [List.flatMap_cons, List.append_assoc, hrun₁, hrun₂]

/-- After the root and a line break the reading is over. -/
theorem run_end {f : Forest} (hrep : t.Represents [] f) (hf : f ≠ .nil) (offset : Nat) :
    t.run size (Markup.scanFrom offset [] ['\n']) =
      .ok { Document.ofForest f with prolog := t.prolog } := by
  obtain ⟨offset', hrun⟩ := @run_newline size t _ hrep [] (.inr rfl) offset
  have harena : t.arena = Document.ofForest f := hrep.arena
  have hopened : t.opened = [] := hrep.opened
  have hroot : t.root = some 0 := by
    rw [hrep.root, plug, if_neg hf]
  have hfinish : t.finish size = .ok { t.arena with prolog := t.prolog } := by
    unfold finish
    rw [hopened, hroot]
    rfl
  rw [hrun, Markup.scanFrom_nil, ← harena]
  exact hfinish

end PartialTree

namespace Document

/-- The text of a document whose root spells a tree. -/
theorem toList_toXml {d : Document} {f : Forest} (hspells : Spells d [d.root] f)
    (hheight : f.height ≤ d.size) :
    d.toXml.toList = xmlDeclaration.toList ++
      (d.prolog.flatMap (·.written.toList) ++ f.markup 0 .fixed false ['\n']) := by
  have hwrite := (foldl_writeNode hspells hheight 0 .fixed
    ⟨xmlDeclaration ++ String.join (d.prolog.map Misc.written), false⟩ ['\n']).1
  rw [List.foldl_cons, List.foldl_nil] at hwrite
  unfold toXml
  rw [String.toList_append, show "\n".toList = ['\n'] from rfl, hwrite, String.toList_append,
    String.toList_join, List.flatMap_map, List.append_assoc]

/-- What is read of a written document. -/
theorem parse_toXml {d : Document} {e : Element} {line : Option Nat} {kids : Forest}
    (hspells : Spells d [d.root] (.node (.element e) line kids .nil))
    (hheight : (Forest.node (.element e) line kids .nil).height ≤ d.size)
    (hprolog : ∀ m ∈ d.prolog, m.Legible) (he : e.Writable) (hkids : kids.Writable) :
    (∀ g, (Forest.node (.element e) line kids .nil).reread [] .fixed = some g →
      ∃ d', parse d.toXml = .ok d' ∧
        d'.bare = { ofForest g with prolog := d.prolog : Document }.bare) ∧
    ((Forest.node (.element e) line kids .nil).reread [] .fixed = none →
      ∃ err, parse d.toXml = .error err) := by
  have htext := toList_toXml hspells hheight
  have hfirst : ((Forest.node (.element e) line kids .nil).markup 0 .fixed false ['\n']).head? =
      some '<' := by
    obtain ⟨more, hmore⟩ := Forest.exists_markup_node 0 .fixed (.element e) line kids ['\n']
    rw [hmore, List.head?_cons]
  let t : PartialTree := { lines := LineTracker.ofText d.toXml }
  have hrep : t.Represents [] .nil := PartialTree.represents_start _
  have hscan : Markup.scan d.toXml.toList = Markup.scanFrom 0 [] d.toXml.toList := by
    rw [htext]
    rfl
  obtain ⟨offset₁, hdeclaration⟩ := Markup.scanFrom_xmlDeclaration
    (d.prolog.flatMap (·.written.toList) ++
      (Forest.node (.element e) line kids .nil).markup 0 .fixed false ['\n'])
  obtain ⟨offset₂, hnewline⟩ := @PartialTree.run_newline d.toXml.utf8ByteSize t _ hrep _
    (.inl (PartialTree.head?_prolog d.prolog hfirst)) offset₁
  obtain ⟨t₁, offset₃, ⟨hrep₁, hprolog₁⟩, hrun₁⟩ :=
    @PartialTree.run_prolog d.toXml.utf8ByteSize t d.prolog hprolog hrep _ hfirst offset₂
  have hpiece : t.addPiece (0, .declaration) = .ok t := rfl
  have hparse : parse d.toXml = t₁.run d.toXml.utf8ByteSize (Markup.scanFrom offset₃ []
      ((Forest.node (.element e) line kids .nil).markup 0 .fixed false ['\n'])) := by
    rw [PartialTree.parse_eq_run, hscan, htext, hdeclaration, PartialTree.run_cons_ok hpiece,
      hnewline, hrun₁]
  have htree := @PartialTree.adds_element d.toXml.utf8ByteSize [] t₁ [] .nil hrep₁ (fun _ => rfl)
    e he kids .fixed 0 (fun t' fr offset tail hrep' hdecls => by
      rw [← hdecls]
      exact Forest.readsBack hkids hrep' offset _ tail) line offset₃ ['\n']
  rw [← hparse] at htree
  constructor
  · intro g hg
    change (Forest.node (.element e) line kids .nil).reread (scopesOf []) .fixed = some g at hg
    rw [hg] at htree
    obtain ⟨t₂, offset₄, ⟨⟨cur, hrep₂, hcur⟩, hprolog₂⟩, hrun₂⟩ := htree
    have hne : cur ≠ .nil := by
      rintro rfl
      have hnil : g = .nil := Forest.bare_eq_nil_iff.1 hcur.symm
      rw [Forest.reread_eq_nil hg] at hnil
      cases hnil
    refine ⟨_, hrun₂.trans (PartialTree.run_end hrep₂ hne offset₄), ?_⟩
    have hnodes : (ofForest cur).bare = (ofForest g).bare := bare_ofForest hcur
    have hsame : t₂.prolog = d.prolog := by
      rw [hprolog₂, hprolog₁]
      rfl
    rw [hsame]
    exact congrArg (fun x : Document => { x with prolog := d.prolog }) hnodes
  · intro hnone
    change (Forest.node (.element e) line kids .nil).reread (scopesOf []) .fixed = none at hnone
    rw [hnone] at htree
    exact htree

end Document

end LabelTemplate.Xml
