import LabelTemplate.Proofs.Arena.Links
import LabelTemplate.Proofs.Text.Tokens
import LabelTemplate.Template.Fill

/-!
# What a fill writes

`applyFill_arithmetic` says for every element and value what a fill does.  The
text is cut at its tokens, by `Text.Splits` and not by a scan; the values go
between the pieces, each as it is.  The fill then either writes this one text
and nothing else (`FillsWith`) or changes nothing (`RefusesFill`).

A document that is handed back by value cannot be left half changed, so that
part is said of the fill as it works in place (`fillInPlace`), which does to
the document what `applyFill` says (`run_fillInPlace`).
-/

namespace LabelTemplate

open Xml

theorem fillToken_ne_empty : fillToken ≠ "" := by
  decide

/-! ## The text -/

namespace FillValue

/-- A text whose pieces after the first are `rest`, with a value in front of
each of these. -/
def between (first : String) (values rest : List String) : String :=
  first ++ String.join (List.zipWith (· ++ ·) values rest)

/-- With a value for every token none is left out and none is made up. -/
theorem join_weave {first : String} {values rest : List String}
    (hlength : values.length = rest.length) :
    String.join (weave (first :: rest) values) = between first values rest := by
  induction rest generalizing first values with
  | nil =>
    obtain rfl := List.length_eq_zero_iff.1 hlength
    simp [weave, between]
  | cons next rest ih =>
    cases values with
    | nil => cases hlength
    | cons value values =>
      have hrest := @ih next values (Nat.succ.inj hlength)
      simp only [weave, between, String.join_cons, List.zipWith_cons_cons] at hrest ⊢
      rw [hrest, String.append_assoc]

variable {text first : String} {rest : List String} {v : FillValue}

/-- A text without tokens is replaced. -/
theorem applyTo_whole (h : Text.pieces fillToken text = [first]) :
    v.applyTo text = match v with
      | single s => .ok s
      | many values => .error (.fillWithoutToken values.length) := by
  unfold applyTo
  rw [h]
  cases v <;> rfl

/-- A text with tokens takes as many values as it has tokens. -/
theorem applyTo_cut (h : Text.pieces fillToken text = first :: rest) (hrest : rest ≠ []) :
    v.applyTo text =
      if v.values.length = rest.length then .ok (between first v.values rest)
      else .error (.fillCount v.values.length rest.length) := by
  obtain ⟨next, later, rfl⟩ := List.exists_cons_of_ne_nil hrest
  unfold applyTo
  rw [h]
  change (if v.values.length = (next :: later).length
    then Except.ok (String.join (weave (first :: next :: later) v.values)) else _) = _
  split
  · rename_i hlength
    rw [join_weave hlength]
  · rfl

end FillValue

/-! ## The document -/

namespace Xml.Document

/-- `d'` is `d` with another text in the element `n`. -/
structure OnlyText (d d' : Document) (n : NodeId) (text : String) : Prop where
  root : d'.root = d.root
  prolog : d'.prolog = d.prolog
  url : d'.url = d.url
  size : d'.size = d.size
  element : d'.element? n = (d.element? n).map ({ · with text := some text })
  parent : d'.parent? n = d.parent? n
  children : d'.children n = d.children n
  line : d'.line? n = d.line? n
  others : ∀ m, m ≠ n → d'.node? m = d.node? m

theorem onlyText_setText (d : Document) (n : NodeId) (text : String) :
    d.OnlyText (d.setText n (some text)) n text where
  root := rfl
  prolog := rfl
  url := rfl
  size := size_updateElement d n _
  element := by rw [setText, element?_updateElement, if_pos rfl]
  parent := parent?_updateElement d n n _
  children := children_updateElement d n n _
  line := by
    unfold setText updateElement line?
    rw [node?_updateNode, if_pos rfl]
    cases d.node? n <;> rfl
  others m hm := by rw [setText, updateElement, node?_updateNode, if_neg (Ne.symm hm)]

/-- A fill that writes into the document that it reads. -/
def fillInPlace (n : NodeId) (v : FillValue) : EStateM Error Document Unit := do
  let d ← get
  match v.applyTo ((d.text? n).getD "") with
  | .ok text => modify (·.setText n (some text))
  | .error fault => throw (.node fault (d.location n))

theorem run_fillInPlace (d : Document) (n : NodeId) (v : FillValue) :
    (fillInPlace n v).run d = match d.applyFill n v with
      | .ok d' => .ok () d'
      | .error err => .error err d := by
  unfold fillInPlace applyFill
  rw [EStateM.run_bind, EStateM.run_get]
  dsimp only
  cases v.applyTo ((d.text? n).getD "") <;> rfl

/-- The fill succeeds and leaves `d` with `text` in the element and otherwise
as it was. -/
def FillsWith (d : Document) (n : NodeId) (v : FillValue) (text : String) : Prop :=
  ∃ d', d.applyFill n v = .ok d' ∧ (fillInPlace n v).run d = .ok () d' ∧ d.OnlyText d' n text

/-- The fill fails with a fault at the element and leaves `d` as it was. -/
def RefusesFill (d : Document) (n : NodeId) (v : FillValue) (fault : NodeFault) : Prop :=
  d.applyFill n v = .error (.node fault (d.location n)) ∧
    (fillInPlace n v).run d = .error (.node fault (d.location n)) d

variable {d : Document} {n : NodeId} {v : FillValue}

theorem fillsWith_of_applyTo {text : String} (h : v.applyTo ((d.text? n).getD "") = .ok text) :
    d.FillsWith n v text := by
  have hfill : d.applyFill n v = .ok (d.setText n (some text)) := by
    rw [applyFill, h]
  exact ⟨_, hfill, by rw [run_fillInPlace, hfill], onlyText_setText d n text⟩

theorem refusesFill_of_applyTo {fault : NodeFault}
    (h : v.applyTo ((d.text? n).getD "") = .error fault) : d.RefusesFill n v fault := by
  have hfill : d.applyFill n v = .error (.node fault (d.location n)) := by
    rw [applyFill, h]
  exact ⟨hfill, by rw [run_fillInPlace, hfill]⟩

/-- The text of an element is cut in one way at its tokens.  Without a token a
single value replaces it and a list of values is refused; with tokens there
must be one value for each, and these go where the tokens were. -/
theorem applyFill_arithmetic {e : Element} (v : FillValue) (he : d.element? n = some e) :
    ∃ first rest, Text.Splits fillToken (e.text.getD "") (first :: rest) ∧
      (∀ ps, Text.Splits fillToken (e.text.getD "") ps → ps = first :: rest) ∧
      (rest = [] → match v with
        | .single s => d.FillsWith n v s
        | .many values => d.RefusesFill n v (.fillWithoutToken values.length)) ∧
      (rest ≠ [] →
        (v.values.length = rest.length →
          d.FillsWith n v (FillValue.between first v.values rest)) ∧
        (v.values.length ≠ rest.length →
          d.RefusesFill n v (.fillCount v.values.length rest.length))) := by
  have htext : (d.text? n).getD "" = e.text.getD "" := by
    rw [text?, he, Option.bind_some]
  have hsplits := Text.splits_pieces fillToken_ne_empty (e.text.getD "")
  obtain ⟨first, rest, hpieces⟩ := List.exists_cons_of_ne_nil hsplits.ne_nil
  rw [hpieces] at hsplits
  refine ⟨first, rest, hsplits, fun ps h => h.unique hsplits, ?_, fun hrest => ⟨?_, ?_⟩⟩
  · rintro rfl
    have hto := FillValue.applyTo_whole (v := v) hpieces
    rw [← htext] at hto
    cases v with
    | single s => exact fillsWith_of_applyTo hto
    | many values => exact refusesFill_of_applyTo hto
  all_goals
    intro hcount
    have hto := FillValue.applyTo_cut (v := v) hpieces hrest
    rw [← htext] at hto
  · exact fillsWith_of_applyTo (hto.trans (if_pos hcount))
  · exact refusesFill_of_applyTo (hto.trans (if_neg hcount))

/-- Braces around a token stay, and a token among the values is a value. -/
theorem applyFill_arithmetic_braces :
    ((ofRoot (.plain "b")).setText 0 (some "\x7b\x7b\x7d\x7d\x7b\x7d")).FillsWith 0
      (.many ["\x7b\x7d", "x"]) "\x7b\x7b\x7d\x7dx" := by
  obtain ⟨first, rest, -, hunique, -, hmany⟩ := applyFill_arithmetic
    (d := (ofRoot (.plain "b")).setText 0 (some "\x7b\x7b\x7d\x7d\x7b\x7d")) (n := 0)
    (.many ["\x7b\x7d", "x"]) rfl
  have hpieces := hunique ["\x7b", "\x7d", ""]
    ((Text.splits_iff fillToken_ne_empty).2 (by decide))
  obtain ⟨rfl, rfl⟩ := List.cons.inj hpieces
  exact (hmany (by decide)).1 (by decide)

end Xml.Document

end LabelTemplate
