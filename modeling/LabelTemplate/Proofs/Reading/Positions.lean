import LabelTemplate.Xml.Position
import Mathlib.Data.List.Induction

/-!
# Positions along a text

A tracker goes on from where it stands.  What it knows there is what the bytes
before it say: how many line feeds they have, and where the last line starts
(`Follows`).  To pass one more byte keeps this (`Follows.passByte`), so it is kept
along a whole run, and every position along growing offsets is the one that is
counted from the start (`positions_eq_map`).

Where the last line starts is said by `OpensLine`, without a scan.
-/

namespace LabelTemplate.Xml

/-! ## Where the last line starts -/

/-- The last line of some bytes starts at an offset: a line feed stands just
before it, unless it is the first line, and none comes after it. -/
structure OpensLine (passed : List UInt8) (start : Nat) : Prop where
  le_length : start ≤ passed.length
  after_lineFeed : start = 0 ∨ passed[start - 1]? = some lineFeed
  no_lineFeed : lineFeed ∉ passed.drop start

section LineStart

variable {passed : List UInt8}

theorem lineStartOf_append (passed : List UInt8) (b : UInt8) :
    lineStartOf (passed ++ [b]) =
      if b = lineFeed then passed.length + 1 else lineStartOf passed := by
  have hlength : (passed ++ [b]).length = passed.length + 1 := by simp
  have hreverse : (passed ++ [b]).reverse = b :: passed.reverse := by simp
  unfold lineStartOf
  rw [hreverse, hlength]
  split
  · rename_i hb
    rw [List.takeWhile_cons_of_neg (by simp [hb])]
    rfl
  · rename_i hb
    rw [List.takeWhile_cons_of_pos (by simp [hb]), List.length_cons]
    omega

theorem OpensLine.le {a b : Nat} (ha : OpensLine passed a) (hb : OpensLine passed b) : b ≤ a := by
  by_contra hlt
  -- A line feed in front of `b` would come after `a`.
  have hfeed := hb.after_lineFeed.resolve_left (by omega)
  refine ha.no_lineFeed (List.mem_iff_getElem?.2 ⟨b - 1 - a, ?_⟩)
  rw [List.getElem?_drop, ← hfeed]
  congr 1
  omega

/-- There is one such offset. -/
theorem OpensLine.unique {a b : Nat} (ha : OpensLine passed a) (hb : OpensLine passed b) : a = b :=
  Nat.le_antisymm (hb.le ha) (ha.le hb)

theorem opensLine_lineStartOf (passed : List UInt8) : OpensLine passed (lineStartOf passed) := by
  induction passed using List.reverseRecOn with
  | nil => exact ⟨Nat.le_refl 0, .inl rfl, List.not_mem_nil⟩
  | append_singleton passed b ih =>
    rw [lineStartOf_append]
    split
    · rename_i hb
      refine ⟨by simp, .inr ?_, ?_⟩
      · rw [Nat.add_sub_cancel, List.getElem?_concat_length, hb]
      · simp
    · rename_i hb
      have hle := ih.le_length
      refine ⟨by rw [List.length_append]; omega, ?_, ?_⟩
      · refine ih.after_lineFeed.imp_right fun hfeed => ?_
        have hlt := (List.getElem?_eq_some_iff.1 hfeed).1
        rw [List.getElem?_append_left hlt, hfeed]
      · rw [List.drop_append_of_le_length hle, List.mem_append, List.mem_singleton]
        exact not_or.2 ⟨ih.no_lineFeed, fun heq => hb heq.symm⟩

end LineStart

/-! ## Positions -/

/-- The position of an offset in a text, the offset past the end being the end. -/
structure Position.IsAt (p : Position) (input : List UInt8) (offset : Nat) : Prop where
  line : p.line = 1 + (input.take offset).count lineFeed
  column : ∃ start, OpensLine (input.take offset) start ∧
    p.column = 1 + min offset input.length - start

theorem positionAt_isAt (input : List UInt8) (offset : Nat) :
    (positionAt input offset).IsAt input offset where
  line := rfl
  column := ⟨_, opensLine_lineStartOf _, by rw [positionAt, List.length_take]⟩

/-- Counting from the start gives this position. -/
theorem Position.isAt_iff {p : Position} {input : List UInt8} {offset : Nat} :
    p.IsAt input offset ↔ p = positionAt input offset := by
  constructor
  · intro h
    obtain ⟨start, hstart, hcolumn⟩ := h.column
    have heq := hstart.unique (opensLine_lineStartOf _)
    rw [positionAt, Position.mk.injEq, h.line, hcolumn, heq, List.length_take]
    exact ⟨rfl, rfl⟩
  · rintro rfl
    exact positionAt_isAt input offset

/-! ## The tracker -/

namespace LineTracker

/-- The tracker has passed the first bytes of a text. -/
structure Follows (t : LineTracker) (input : List UInt8) : Prop where
  size : t.size = input.length
  offset_le : t.offset ≤ input.length
  rest : t.rest = input.drop t.offset
  line : t.line = 1 + (input.take t.offset).count lineFeed
  lineStart : t.lineStart = lineStartOf (input.take t.offset)

variable {t : LineTracker} {input : List UInt8}

theorem pass_end (h : t.rest = []) (count : Nat) : pass count t = t := by
  cases count with
  | zero => rfl
  | succ count => rw [pass, h]

/-- The tracker after the next byte. -/
def passByte (t : LineTracker) (b : UInt8) (rest : List UInt8) : LineTracker :=
  { t with
    rest
    offset := t.offset + 1
    line := if b = lineFeed then t.line + 1 else t.line
    lineStart := if b = lineFeed then t.offset + 1 else t.lineStart }

theorem pass_succ {b : UInt8} {rest : List UInt8} (h : t.rest = b :: rest) (count : Nat) :
    pass (count + 1) t = pass count (t.passByte b rest) := by
  rw [pass, h]
  dsimp only
  split <;> rename_i hb <;> simp only [passByte, hb, if_true, if_false]

theorem Follows.passByte (h : t.Follows input) {b : UInt8} {rest : List UInt8}
    (hrest : t.rest = b :: rest) : (t.passByte b rest).Follows input := by
  have hdrop : input.drop t.offset = b :: rest := h.rest.symm.trans hrest
  have hlt : t.offset < input.length := by
    rw [← List.drop_eq_nil_iff.not.trans Nat.not_le, hdrop]
    exact List.cons_ne_nil _ _
  have hb : input[t.offset] = b := (List.cons.inj ((List.drop_eq_getElem_cons hlt) ▸ hdrop)).1
  have htake : input.take (t.offset + 1) = input.take t.offset ++ [b] := by
    rw [List.take_succ_eq_append_getElem hlt, hb]
  have hlength : (input.take t.offset).length = t.offset :=
    List.length_take_of_le (Nat.le_of_lt hlt)
  refine ⟨h.size, hlt, ?_, ?_, ?_⟩
  · rw [LineTracker.passByte, ← List.drop_drop, hdrop, List.drop_one, List.tail_cons]
  · simp only [LineTracker.passByte, htake, List.count_append, List.count_singleton, h.line,
      beq_iff_eq]
    split <;> omega
  · simp only [LineTracker.passByte, htake, lineStartOf_append, hlength, h.lineStart]

/-- A run over some bytes passes as many of them as there are. -/
theorem Follows.pass (h : t.Follows input) (count : Nat) :
    (pass count t).Follows input ∧ (pass count t).offset = min (t.offset + count) input.length := by
  induction count generalizing t with
  | zero => exact ⟨h, (Nat.min_eq_left h.offset_le).symm⟩
  | succ count ih =>
    cases hrest : t.rest with
    | nil =>
      have hend : input.length ≤ t.offset := List.drop_eq_nil_iff.1 (h.rest ▸ hrest)
      rw [pass_end hrest]
      have hle := h.offset_le
      exact ⟨h, by omega⟩
    | cons b rest =>
      obtain ⟨hfollows, hoffset⟩ := ih (h.passByte hrest)
      rw [pass_succ hrest]
      refine ⟨hfollows, hoffset.trans ?_⟩
      rw [LineTracker.passByte, Nat.add_right_comm, Nat.add_assoc]

/-- What the tracker answers at an offset that it has not gone past. -/
theorem Follows.advanceTo (h : t.Follows input) {offset : Nat}
    (hoffset : t.offset ≤ min offset input.length) :
    (t.advanceTo offset).1.Follows input ∧
      (t.advanceTo offset).1.offset = min offset input.length ∧
      (t.advanceTo offset).2 = positionAt input offset := by
  obtain ⟨hfollows, hat⟩ := h.pass (min offset input.length - t.offset)
  have hthere : t.offset + (min offset input.length - t.offset) = min offset input.length := by omega
  rw [hthere, Nat.min_eq_left (Nat.min_le_right _ _)] at hat
  have htake : input.take (min offset input.length) = input.take offset := by
    rw [← List.take_take, List.take_length]
  have hstart := (opensLine_lineStartOf (input.take offset)).le_length
  rw [List.length_take] at hstart
  unfold LineTracker.advanceTo
  rw [h.size]
  refine ⟨hfollows, hat, ?_⟩
  dsimp only
  rw [hfollows.line, hfollows.lineStart, hat, htake, positionAt, List.length_take]
  congr 1
  omega

/-- The answers at offsets that are asked for one after the other. -/
def positions : LineTracker → List Nat → List Position
  | _, [] => []
  | t, offset :: offsets => (t.advanceTo offset).2 :: positions (t.advanceTo offset).1 offsets

theorem Follows.positions (h : t.Follows input) {offsets : List Nat}
    (hsorted : offsets.Pairwise (· ≤ ·)) (hstart : ∀ offset ∈ offsets, t.offset ≤ offset) :
    t.positions offsets = offsets.map (positionAt input) := by
  induction offsets generalizing t with
  | nil => rfl
  | cons offset offsets ih =>
    obtain ⟨hnext, hrest⟩ := List.pairwise_cons.1 hsorted
    obtain ⟨hfollows, hat, hposition⟩ :=
      h.advanceTo (Nat.le_min.2 ⟨hstart offset List.mem_cons_self, h.offset_le⟩)
    rw [LineTracker.positions, List.map_cons, hposition]
    congr 1
    refine ih hfollows hrest fun next hmem => ?_
    rw [hat]
    exact Nat.le_trans (Nat.min_le_left _ _) (hnext next hmem)

theorem length_byteArray_toList (bytes : ByteArray) : bytes.toList.length = bytes.size := by
  have hloop : ∀ i read, i ≤ bytes.size →
      (ByteArray.toList.loop bytes i read).length = read.length + (bytes.size - i) := by
    intro i read
    fun_induction ByteArray.toList.loop bytes i read with
    | case1 i read hlt ih =>
      intro _
      rw [ih hlt, List.length_cons]
      omega
    | case2 i read hge =>
      intro hle
      rw [List.length_reverse]
      omega
  exact (hloop 0 [] (Nat.zero_le _)).trans (by simp)

/-- A new tracker has passed nothing. -/
theorem follows_ofText (s : String) : (ofText s).Follows s.toUTF8.toList :=
  ⟨(length_byteArray_toList s.toUTF8).symm, Nat.zero_le _, rfl, rfl, rfl⟩

/-- Along growing offsets, which may repeat and lie past the end, a tracker answers
with the positions counted from the start. -/
theorem positions_eq_map (s : String) {offsets : List Nat} (hsorted : offsets.Pairwise (· ≤ ·)) :
    (ofText s).positions offsets = offsets.map (positionAt s.toUTF8.toList) ∧
      ∀ p offset, p.IsAt s.toUTF8.toList offset ↔ p = positionAt s.toUTF8.toList offset :=
  ⟨(follows_ofText s).positions hsorted fun offset _ => Nat.zero_le offset,
    fun _ _ => Position.isAt_iff⟩

/-- Two calls on the two sides of a line feed, repeated, and one past the end. -/
theorem positions_eq_map_acrossLines :
    [2, 3, 3, 5, 9].Pairwise (· ≤ ·) ∧
      (ofText "é\na\n").positions [2, 3, 3, 5, 9] =
        [⟨1, 3⟩, ⟨2, 1⟩, ⟨2, 1⟩, ⟨3, 1⟩, ⟨3, 1⟩] := by
  have hsorted : [2, 3, 3, 5, 9].Pairwise (· ≤ ·) := by decide
  refine ⟨hsorted, (positions_eq_map "é\na\n" hsorted).1.trans ?_⟩
  decide +kernel

end LineTracker

end LabelTemplate.Xml
