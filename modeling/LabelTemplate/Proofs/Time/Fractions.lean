import LabelTemplate.Proofs.Text.Keys
import LabelTemplate.Proofs.Time.Specifiers
import Mathlib.Data.List.DropRight

/-!
# Fractions of written timestamps

A timestamp with a number of digits is written with all nine digits of its
fraction first.  What is to be cut off is then looked for in the finished text:
the digits start at its first point, and a zone mark is only known as the last
character.  So the digits are cut off and nothing else
(`LabelTime.write_cutsFraction`) if the format writes no point in front of the
fraction and at most a zone mark after it, or if there are so many digits that
nothing is cut off.  Anything else loses what follows the digits; but what is
written always is a front of the full text, and the zone mark.
-/

namespace LabelTemplate.Time

open Text (byteSize)

namespace LabelTime

section Cut

variable {size digits : Nat} {cs kept front nine back : List Char}

/-! ## The first bytes of a text -/

theorem takeBytes?_cons {c : Char} (hsize : size ≠ 0) (cs : List Char) :
    takeBytes? size (c :: cs) =
      if c.utf8Size ≤ size then (takeBytes? (size - c.utf8Size) cs).map (c :: ·) else none := by
  cases size with
  | zero => exact absurd rfl hsize
  | succ size => rfl

/-- The bytes of the front are the front. -/
theorem takeBytes?_front (front back : List Char) :
    takeBytes? (byteSize front) (front ++ back) = some front := by
  induction front with
  | nil => rw [Text.byteSize, takeBytes?]
  | cons c front ih =>
    have hc := c.utf8Size_pos
    rw [Text.byteSize, List.cons_append, takeBytes?_cons (by omega), if_pos (Nat.le_add_right _ _),
      Nat.add_sub_cancel_left, ih]
    rfl

/-- More bytes than a text has are all of it. -/
theorem takeBytes?_all (h : byteSize cs ≤ size) : takeBytes? size cs = some cs := by
  induction cs generalizing size with
  | nil => cases size <;> rfl
  | cons c cs ih =>
    rw [Text.byteSize] at h
    have hc := c.utf8Size_pos
    rw [takeBytes?_cons (by omega), if_pos (by omega), ih (by omega)]
    rfl

/-- What is taken is a front of at most so many bytes. -/
theorem takeBytes?_eq_some (h : takeBytes? size cs = some kept) :
    kept <+: cs ∧ byteSize kept ≤ size := by
  induction cs generalizing size kept with
  | nil =>
    obtain rfl : kept = [] := by cases size <;> exact (Option.some.inj h).symm
    exact ⟨List.nil_prefix, Nat.zero_le _⟩
  | cons c cs ih =>
    by_cases hsize : size = 0
    · subst hsize
      cases h
      exact ⟨List.nil_prefix, Nat.zero_le _⟩
    · rw [takeBytes?_cons hsize] at h
      split at h
      · rename_i hc
        obtain ⟨later, hlater, rfl⟩ := Option.map_eq_some_iff.1 h
        obtain ⟨hfront, hle⟩ := ih hlater
        refine ⟨List.cons_prefix_cons.2 ⟨rfl, hfront⟩, ?_⟩
        rw [Text.byteSize]
        omega
      · cases h

theorem byteSize_eq_zero_iff : byteSize cs = 0 ↔ cs = [] := by
  cases cs with
  | nil => exact ⟨fun _ => rfl, fun _ => rfl⟩
  | cons c cs =>
    have hc := c.utf8Size_pos
    rw [Text.byteSize]
    exact ⟨fun h => by omega, fun h => by cases h⟩

theorem byteSize_le_of_front (h : front <+: cs) : byteSize front ≤ byteSize cs := by
  obtain ⟨later, rfl⟩ := h
  rw [Text.byteSize_append]
  exact Nat.le_add_right _ _

/-! ## Points -/

/-- The text without the points at its end. -/
def pointless (cs : List Char) : List Char := cs.rdropWhile (· == '.')

theorem pointless_of_getLast? (h : cs.getLast? ≠ some '.') : pointless cs = cs := by
  refine List.rdropWhile_eq_self_iff.2 fun hne hpoint => h ?_
  rw [List.getLast?_eq_some_getLast hne, beq_iff_eq.1 hpoint]

theorem getLast?_pointless (cs : List Char) : (pointless cs).getLast? ≠ some '.' := by
  intro h
  have hne : pointless cs ≠ [] := by
    intro hnil
    rw [hnil] at h
    cases h
  rw [List.getLast?_eq_some_getLast hne] at h
  refine List.rdropWhile_last_not (· == '.') cs hne (beq_iff_eq.2 (Option.some.inj h))

theorem pointless_front (cs : List Char) : pointless cs <+: cs := List.rdropWhile_prefix _ _

/-- What stands before the first point. -/
def beforePoint (cs : List Char) : List Char := cs.takeWhile (· != '.')

/-- A text has no point, or is what stands before the first one and what begins there. -/
theorem beforePoint_cases (cs : List Char) :
    ('.' ∉ cs ∧ beforePoint cs = cs) ∨ ∃ later, cs = beforePoint cs ++ '.' :: later := by
  by_cases h : '.' ∈ cs
  · obtain ⟨before, later, rfl, hbefore⟩ := List.eq_append_cons_of_mem h
    have hall : ∀ c ∈ before, (c != '.') = true := fun c hc =>
      bne_iff_ne.2 fun heq => hbefore (heq ▸ hc)
    have hcut : beforePoint (before ++ '.' :: later) = before := by
      rw [beforePoint, List.takeWhile_append_of_pos hall]
      simp
    exact .inr ⟨later, by rw [hcut]⟩
  · exact .inl ⟨h, List.takeWhile_eq_self_iff.2 fun c hc =>
      bne_iff_ne.2 fun heq => h (heq ▸ hc)⟩

theorem beforePoint_of_notMem (h : '.' ∉ cs) : beforePoint cs = cs := by
  obtain ⟨-, heq⟩ | ⟨later, heq⟩ := beforePoint_cases cs
  · exact heq
  · exact absurd (heq ▸ List.mem_append_right _ List.mem_cons_self) h

theorem beforePoint_front (cs : List Char) : beforePoint cs <+: cs := List.takeWhile_prefix _

/-- The first point of a text and all after it take bytes of their own. -/
theorem byteSize_beforePoint_lt {later : List Char} (h : cs = beforePoint cs ++ '.' :: later) :
    byteSize cs = byteSize (beforePoint cs) + 1 + byteSize later := by
  have hbytes := congrArg byteSize h
  rw [Text.byteSize_append, Text.byteSize, ← Nat.add_assoc] at hbytes
  exact hbytes

theorem point_notMem_beforePoint (cs : List Char) : '.' ∉ beforePoint cs := fun h =>
  bne_iff_ne.1 (List.mem_takeWhile_imp (p := fun c => c != '.') h) rfl

/-- The fraction is looked for at the first point of the whole text. -/
theorem cutFraction?_around (digits : Nat) (front later : List Char) :
    cutFraction? digits (front ++ '.' :: later) =
      (takeBytes? ((byteSize (beforePoint front) + digits + 1) % UInt64.size)
        (front ++ '.' :: later)).map pointless := by
  have hsplit : ∃ rest, Text.splitOnceChars '.' (front ++ '.' :: later) =
      some (beforePoint front, rest) := by
    obtain ⟨hfront, heq⟩ | ⟨rest, heq⟩ := beforePoint_cases front
    · exact ⟨later, Text.splitOnceChars_eq_some_iff.2 ⟨by rw [heq], by rwa [heq]⟩⟩
    · refine ⟨rest ++ '.' :: later, Text.splitOnceChars_eq_some_iff.2
        ⟨?_, point_notMem_beforePoint front⟩⟩
      rw [← List.cons_append, ← List.append_assoc, ← heq]
  obtain ⟨rest, hsplit⟩ := hsplit
  rw [cutFraction?, hsplit]
  rfl

/-! ## The digits that are kept -/

/-- The point and the first of some digits; without digits the point goes as well. -/
def cutDigits (digits : Nat) (nine : List Char) : List Char :=
  if digits = 0 then [] else '.' :: nine.take digits

/-- All that a fraction of nine digits loses by the cut are digits, or its point with all of
them: the text in front has no other point and nothing follows; or the number of digits is
so large that nothing is cut off.  `back` is what follows without the zone mark. -/
def CutsFractionOnly (digits : Nat) (front back : List Char) : Prop :=
  byteSize (beforePoint front) + digits + 1 < UInt64.size ∧
    (('.' ∉ front ∧ back = [] ∧ digits ≤ 9) ∨
      (byteSize front + 10 + byteSize back ≤ byteSize (beforePoint front) + digits + 1 ∧
        back.getLast? ≠ some '.'))

instance (digits : Nat) (front back : List Char) : Decidable (CutsFractionOnly digits front back) :=
  inferInstanceAs (Decidable (_ ∧ _))

/-- With digits there is only room for a front without a point. -/
theorem front_of_digits
    (hroom : byteSize front + (1 + digits) + byteSize back ≤
      byteSize (beforePoint front) + digits + 1) : '.' ∉ front ∧ back = [] := by
  have hbefore := byteSize_le_of_front (beforePoint_front front)
  refine ⟨?_, byteSize_eq_zero_iff.1 (by omega)⟩
  obtain ⟨hnone, -⟩ | ⟨later, heq⟩ := beforePoint_cases front
  · exact hnone
  · have hfront := byteSize_beforePoint_lt heq
    omega

/-- Without digits, too, there is only room for a front without a point. -/
theorem front_of_no_digits {later : List Char}
    (hroom : byteSize front + byteSize back ≤ byteSize (beforePoint front) + 1)
    (hlast : (front ++ back).getLast? ≠ some '.') (hfollows : back <+: '.' :: later) :
    '.' ∉ front ∧ back = [] := by
  obtain ⟨hnone, heq⟩ | ⟨later, heq⟩ := beforePoint_cases front
  · refine ⟨hnone, ?_⟩
    cases back with
    | nil => rfl
    | cons c back =>
      -- There is room for one more byte, which would be the point of the fraction.
      obtain rfl := (List.cons_prefix_cons.1 hfollows).1
      have hback : back = [] := byteSize_eq_zero_iff.1 <| by
        rw [heq, Text.byteSize] at hroom
        change byteSize front + (1 + byteSize back) ≤ _ at hroom
        omega
      subst hback
      exact absurd (by simp) hlast
  · have hfront := byteSize_beforePoint_lt heq
    have hlater : later = [] := byteSize_eq_zero_iff.1 (by omega)
    have hback : back = [] := byteSize_eq_zero_iff.1 (by omega)
    rw [hback, heq, hlater] at hlast
    exact absurd (by simp) hlast

/-- The nine digits of a full fraction. -/
structure NineDigits (nine : List Char) : Prop where
  length : nine.length = 9
  isDigit : ∀ c ∈ nine, c.isDigit = true

theorem byteSize_of_isDigit (h : ∀ c ∈ cs, c.isDigit = true) : byteSize cs = cs.length := by
  induction cs with
  | nil => rfl
  | cons c cs ih =>
    obtain ⟨hc, hcs⟩ := List.forall_mem_cons.1 h
    have hsize : c.utf8Size = 1 := by
      have hle : c.val ≤ 57 := by simpa using (Bool.and_eq_true_iff.1 hc).2
      exact Char.utf8Size_eq_one_iff.2 (UInt32.le_trans hle (by decide))
    rw [Text.byteSize, ih hcs, hsize, List.length_cons, Nat.add_comm]

namespace NineDigits

variable (h : NineDigits nine)

include h

theorem byteSize_take (digits : Nat) : byteSize (nine.take digits) = min digits 9 := by
  rw [byteSize_of_isDigit fun c hc => h.isDigit c (List.mem_of_mem_take hc), List.length_take,
    h.length]

theorem byteSize_eq : byteSize nine = 9 := by
  rw [byteSize_of_isDigit h.isDigit, h.length]

theorem ne_point {c : Char} (hc : c ∈ nine) : c ≠ '.' := by
  rintro rfl
  exact absurd (h.isDigit _ hc) (by decide)

/-- A text that ends in some of the digits does not end in a point. -/
theorem getLast?_append_take (hdigits : digits ≠ 0) (start : List Char) :
    (start ++ nine.take digits).getLast? ≠ some '.' := by
  have hne : nine.take digits ≠ [] := by
    rw [Ne, List.take_eq_nil_iff, ← List.length_eq_zero_iff, h.length]
    omega
  rw [List.getLast?_append_of_ne_nil _ hne, List.getLast?_eq_some_getLast hne]
  intro hlast
  exact h.ne_point (List.mem_of_mem_take (List.getLast_mem hne)) (Option.some.inj hlast)

theorem getLast?_append (start : List Char) : (start ++ nine).getLast? ≠ some '.' := by
  have htake : nine.take 9 = nine := List.take_of_length_le h.length.le
  exact htake ▸ h.getLast?_append_take (by decide) start

theorem cutDigits_of_nine_le (hdigits : 9 ≤ digits) : cutDigits digits nine = '.' :: nine := by
  rw [cutDigits, if_neg (by omega), List.take_of_length_le (h.length ▸ hdigits)]

theorem byteSize_cutDigits (digits : Nat) :
    byteSize (cutDigits digits nine) = if digits = 0 then 0 else 1 + min digits 9 := by
  rw [cutDigits]
  split
  · rfl
  · rw [Text.byteSize, h.byteSize_take]
    rfl

/-- A cut that only takes digits gives the text with fewer digits. -/
theorem cutFraction?_of_cuts (hcuts : CutsFractionOnly digits front back) :
    cutFraction? digits (front ++ '.' :: (nine ++ back)) =
      some (front ++ cutDigits digits nine ++ back) := by
  obtain ⟨hwrap, hcuts⟩ := hcuts
  rw [cutFraction?_around, Nat.mod_eq_of_lt hwrap]
  obtain ⟨hfront, rfl, hdigits⟩ | ⟨hsize, hlast⟩ := hcuts
  · have hbefore : beforePoint front = front := beforePoint_of_notMem hfront
    have hparts : front ++ '.' :: (nine ++ []) =
        (front ++ '.' :: nine.take digits) ++ nine.drop digits := by simp
    have hbytes : byteSize (beforePoint front) + digits + 1 =
        byteSize (front ++ '.' :: nine.take digits) := by
      rw [hbefore, Text.byteSize_append, Text.byteSize, h.byteSize_take, Nat.min_eq_left hdigits]
      exact (Nat.add_assoc _ _ _).trans (congrArg _ (Nat.add_comm _ _))
    rw [hparts, hbytes, takeBytes?_front, Option.map_some, List.append_nil, cutDigits]
    split
    · rename_i hzero
      subst hzero
      have hlast : front.getLast? ≠ some '.' := fun hlast =>
        hfront (List.mem_of_getLast? hlast)
      rw [List.take_zero, List.append_nil, pointless, List.rdropWhile_concat_pos _ _ _ rfl]
      exact congrArg some (pointless_of_getLast? hlast)
    · rename_i hne
      rw [pointless_of_getLast?]
      simpa using h.getLast?_append_take hne (front ++ ['.'])
  · have hbefore := byteSize_le_of_front (beforePoint_front front)
    have hbytes : byteSize (front ++ '.' :: (nine ++ back)) =
        byteSize front + 10 + byteSize back := by
      rw [Text.byteSize_append, Text.byteSize, Text.byteSize_append, h.byteSize_eq]
      change byteSize front + (1 + (9 + byteSize back)) = _
      omega
    rw [takeBytes?_all (hbytes.trans_le hsize), Option.map_some, pointless_of_getLast?,
      h.cutDigits_of_nine_le (by omega), List.append_assoc, List.cons_append]
    cases back with
    | nil => simpa using h.getLast?_append (front ++ ['.'])
    | cons c back =>
      rw [← List.cons_append, ← List.append_assoc,
        List.getLast?_append_of_ne_nil _ (List.cons_ne_nil c back)]
      exact hlast

/-- The text with fewer digits only has room in what is kept if the sum of its sizes does not
wrap around. -/
theorem room_of_le_mod (hdigits : digits < UInt64.size)
    (hbytes : byteSize front + byteSize (cutDigits digits nine) + byteSize back ≤
      (byteSize (beforePoint front) + digits + 1) % UInt64.size) :
    byteSize (beforePoint front) + digits + 1 < UInt64.size := by
  have hbefore := byteSize_le_of_front (beforePoint_front front)
  have hone : 1 < UInt64.size := by decide
  by_contra hge
  rw [Nat.mod_eq_sub_mod (not_lt.1 hge), h.byteSize_cutDigits] at hbytes
  have hle := hbytes.trans (Nat.mod_le _ _)
  split at hle <;> omega

/-- Where the cut gives the text with fewer digits, it only takes digits. -/
theorem cuts_of_cutFraction? (hdigits : digits < UInt64.size)
    (hcut : cutFraction? digits (front ++ '.' :: (nine ++ back)) =
      some (front ++ cutDigits digits nine ++ back)) : CutsFractionOnly digits front back := by
  rw [cutFraction?_around, Option.map_eq_some_iff] at hcut
  obtain ⟨kept, hkept, hcut⟩ := hcut
  obtain ⟨hstart, hsize⟩ := takeBytes?_eq_some hkept
  have hlast : (front ++ cutDigits digits nine ++ back).getLast? ≠ some '.' :=
    hcut ▸ getLast?_pointless kept
  have hbytes : byteSize front + byteSize (cutDigits digits nine) + byteSize back ≤
      (byteSize (beforePoint front) + digits + 1) % UInt64.size := by
    rw [← Text.byteSize_append, ← Text.byteSize_append, ← hcut]
    exact (byteSize_le_of_front (pointless_front kept)).trans hsize
  have hwrap := h.room_of_le_mod hdigits hbytes
  rw [Nat.mod_eq_of_lt hwrap, h.byteSize_cutDigits] at hbytes
  refine ⟨hwrap, ?_⟩
  by_cases hzero : digits = 0
  · subst hzero
    rw [cutDigits, if_pos rfl, List.append_nil] at hlast hcut
    have hfollows : back <+: '.' :: (nine ++ back) :=
      (List.prefix_append_right_inj front).1 (hcut ▸ (pointless_front kept).trans hstart)
    obtain ⟨hfront, hback⟩ := front_of_no_digits hbytes hlast hfollows
    exact .inl ⟨hfront, hback, Nat.zero_le 9⟩
  · rw [if_neg hzero] at hbytes
    by_cases hnine : digits ≤ 9
    · rw [Nat.min_eq_left hnine] at hbytes
      obtain ⟨hfront, hback⟩ := front_of_digits hbytes
      exact .inl ⟨hfront, hback, hnine⟩
    · refine .inr ⟨by omega, fun hpoint => hlast ?_⟩
      have hne : back ≠ [] := by
        rintro rfl
        cases hpoint
      rw [List.getLast?_append_of_ne_nil _ hne, hpoint]

/-- The text with fewer digits is what the cut gives exactly if the cut only takes digits. -/
theorem cutFraction?_iff (hdigits : digits < UInt64.size) :
    cutFraction? digits (front ++ '.' :: (nine ++ back)) =
      some (front ++ cutDigits digits nine ++ back) ↔ CutsFractionOnly digits front back :=
  ⟨h.cuts_of_cutFraction? hdigits, h.cutFraction?_of_cuts⟩

end NineDigits

/-! ## The zone mark -/

/-- The text without a zone mark at its end. -/
def withoutZone (cs : List Char) : List Char :=
  if cs.getLast?.any isZoneMark then cs.dropLast else cs

/-- The zone mark at the end of a text, if there is one. -/
def zoneMark (cs : List Char) : List Char :=
  if cs.getLast?.any isZoneMark then cs.getLast?.toList else []

theorem withoutZone_append_zoneMark (cs : List Char) : withoutZone cs ++ zoneMark cs = cs := by
  unfold withoutZone zoneMark
  split
  · cases cs using List.reverseRecOn <;> simp
  · exact List.append_nil cs

/-- The cut goes on in front of the zone mark. -/
theorem cut?_eq_map (digits : Nat) (written : String) :
    cut? digits written = (cutFraction? digits (withoutZone written.toList)).map fun body =>
      String.ofList (body ++ zoneMark written.toList) := by
  unfold cut? withoutZone zoneMark
  cases hlast : written.toList.getLast? with
  | none =>
    have hnil := List.getLast?_eq_none_iff.1 hlast
    rw [hnil]
    exact congrArg some (String.toList_eq_nil_iff.1 hnil)
  | some z =>
    cases hz : isZoneMark z with
    | true => simp only [hlast, hz, Option.any_some, if_true, Option.toList_some]
    | false => simp [hlast, hz]

/-- Only what stands last can be a zone mark. -/
theorem withoutZone_append (hfront : front.getLast?.any isZoneMark = false) (back : List Char) :
    withoutZone (front ++ back) = front ++ withoutZone back ∧
      zoneMark (front ++ back) = zoneMark back := by
  unfold withoutZone zoneMark
  cases back with
  | nil => simp [hfront]
  | cons c back =>
    rw [List.getLast?_append_of_ne_nil _ (List.cons_ne_nil c back),
      List.dropLast_append_of_ne_nil (List.cons_ne_nil c back)]
    split <;> exact ⟨rfl, rfl⟩

theorem NineDigits.getLast?_not_zoneMark (h : NineDigits nine) (start : List Char) :
    (start ++ nine).getLast?.any isZoneMark = false := by
  have hne : nine ≠ [] := by
    rintro rfl
    cases h.length
  rw [List.getLast?_append_of_ne_nil _ hne, List.getLast?_eq_some_getLast hne, Option.any_some]
  have hdigit := h.isDigit _ (List.getLast_mem hne)
  generalize nine.getLast hne = c at hdigit
  by_contra hz
  obtain hz | hz := Bool.or_eq_true_iff.1 (Bool.not_eq_false _ ▸ hz)
  · rw [beq_iff_eq.1 hz] at hdigit
    cases hdigit
  · rw [beq_iff_eq.1 hz] at hdigit
    cases hdigit

theorem NineDigits.cut?_around (h : NineDigits nine) (digits : Nat) (front back : List Char) :
    cut? digits (String.ofList (front ++ '.' :: (nine ++ back))) =
      (cutFraction? digits (front ++ '.' :: (nine ++ withoutZone back))).map fun body =>
        String.ofList (body ++ zoneMark back) := by
  have hassoc : ∀ back, front ++ '.' :: (nine ++ back) = (front ++ '.' :: nine) ++ back := by simp
  have hnine : (front ++ '.' :: nine).getLast?.any isZoneMark = false := by
    simpa using h.getLast?_not_zoneMark (front ++ ['.'])
  obtain ⟨hbody, hmark⟩ := withoutZone_append hnine back
  rw [cut?_eq_map, String.toList_ofList, hassoc, hbody, hmark, ← hassoc]

/-- A written timestamp whose fraction has nine digits is cut to the one with fewer digits
exactly if the cut only takes digits. -/
theorem NineDigits.cut?_iff (h : NineDigits nine) (hdigits : digits < UInt64.size) :
    cut? digits (String.ofList (front ++ '.' :: (nine ++ back))) =
        some (String.ofList (front ++ cutDigits digits nine ++ back)) ↔
      CutsFractionOnly digits front (withoutZone back) := by
  have hparts : front ++ cutDigits digits nine ++ back =
      (front ++ cutDigits digits nine ++ withoutZone back) ++ zoneMark back := by
    rw [List.append_assoc _ (withoutZone back), withoutZone_append_zoneMark]
  rw [h.cut?_around, ← h.cutFraction?_iff hdigits, Option.map_eq_some_iff]
  constructor
  · rintro ⟨body, hcut, heq⟩
    rw [String.ofList_inj, hparts] at heq
    rw [hcut, List.append_cancel_right heq]
  · intro hcut
    exact ⟨_, hcut, by rw [hparts]⟩

/-- Whatever is cut off, a front of the text is kept, and the zone mark. -/
theorem NineDigits.front_of_cut? (h : NineDigits nine) {s : String}
    (hcut : cut? digits (String.ofList (front ++ '.' :: (nine ++ back))) = some s) :
    ∃ kept, kept <+: front ++ '.' :: (nine ++ withoutZone back) ∧
      s.toList = kept ++ zoneMark back := by
  rw [h.cut?_around, Option.map_eq_some_iff] at hcut
  obtain ⟨body, hbody, rfl⟩ := hcut
  rw [cutFraction?_around, Option.map_eq_some_iff] at hbody
  obtain ⟨taken, htaken, rfl⟩ := hbody
  exact ⟨_, (pointless_front taken).trans (takeBytes?_eq_some htaken).1, String.toList_ofList⟩

end Cut

end LabelTime

/-! ## Full fractions -/

namespace Timestamp

theorem toList_pushn (s : String) (c : Char) (n : Nat) :
    (s.pushn c n).toList = s.toList ++ List.replicate n c := by
  rw [String.pushn_eq_repeat_push]
  induction n with
  | zero => exact (List.append_nil _).symm
  | succ n ih =>
    rw [Nat.repeat, String.toList_push, ih, List.append_assoc, List.replicate_succ']

/-- A number without a sign is written with zeros in front of its digits. -/
theorem toList_writeNumber (width n : Nat) :
    (writeNumber width .zero false n).toList =
      List.replicate (width - (Nat.toDigits 10 n).length) '0' ++ Nat.toDigits 10 n := by
  have hdigits : (toString (n : Int).natAbs).toList = Nat.toDigits 10 n := Nat.toList_repr
  have hlength : (toString (n : Int).natAbs).length = (Nat.toDigits 10 n).length := by
    rw [← String.length_toList, hdigits]
  simp only [writeNumber, Int.not_ofNat_neg, if_false, Bool.false_eq_true, String.toList_append,
    toList_pushn, hdigits, hlength, String.length_empty, Nat.zero_add]
  rfl

/-- The full fraction has nine digits. -/
theorem nineDigits (t : Timestamp) : LabelTime.NineDigits (t.fractionDigits 9).toList := by
  have hlt : t.fraction / Nat.pow 10 (9 - 9) < 10 ^ 9 :=
    (Nat.div_one _).trans_lt (Nat.mod_lt _ (by decide))
  rw [fractionDigits, toList_writeNumber]
  have hle := (Nat.length_toDigits_le_iff (by decide) (by decide)).2 hlt
  constructor
  · rw [List.length_append, List.length_replicate]
    omega
  · intro c hc
    obtain hc | hc := List.mem_append.1 hc
    · rw [List.eq_of_mem_replicate hc]
      rfl
    · exact Nat.isDigit_of_mem_toDigits (by decide) (by decide) hc

/-! ## Writing along a pattern -/

/-- The fraction of a timestamp with its point, cut to some digits. -/
def cutFraction (t : Timestamp) (digits : Nat) : String :=
  String.ofList (LabelTime.cutDigits digits (t.fractionDigits 9).toList)

/-- Writes an item, a fraction of any length with some digits. -/
def writeItemCut? (t : Timestamp) (digits : Nat) : Item → Option String
  | .fraction => some (t.cutFraction digits)
  | item => t.writeItem? item

/-- Writes a timestamp along a pattern, its fractions of any length with some digits and all
else as it is. -/
def writeCut? (t : Timestamp) (digits : Nat) (p : Pattern) : Option String :=
  (p.mapM (t.writeItemCut? digits)).map String.join

/-- What is written along two patterns. -/
theorem join_mapM_append (f : Item → Option String) (p q : Pattern) :
    ((p ++ q).mapM f).map String.join =
      ((p.mapM f).map String.join).bind fun front =>
        ((q.mapM f).map String.join).map (front ++ ·) := by
  rw [List.mapM_append]
  cases p.mapM f with
  | none => rfl
  | some front =>
    cases q.mapM f with
    | none => rfl
    | some back => exact congrArg some String.join_append

/-- What is written along a pattern around an item. -/
theorem join_mapM_around (f : Item → Option String) (p q : Pattern) {item : Item} {s : String}
    (hitem : f item = some s) :
    ((p ++ item :: q).mapM f).map String.join =
      ((p.mapM f).map String.join).bind fun front =>
        ((q.mapM f).map String.join).map (front ++ s ++ ·) := by
  have hcons : ((item :: q).mapM f).map String.join =
      ((q.mapM f).map String.join).map (s ++ ·) := by
    rw [List.mapM_cons, hitem]
    cases q.mapM f with
    | none => rfl
    | some back => exact congrArg some String.join_cons
  rw [join_mapM_append, hcons]
  congr 1
  funext front
  rw [Option.map_map]
  congr 1
  funext back
  exact String.append_assoc.symm

variable {t : Timestamp} {digits : Nat} {p q : Pattern}

/-- Without a fraction of any length there is nothing to cut. -/
theorem writeCut?_of_notMem (h : .fraction ∉ p) : t.writeCut? digits p = t.write? p := by
  have hitems : p.mapM (t.writeItemCut? digits) = p.mapM t.writeItem? := by
    induction p with
    | nil => rfl
    | cons item p ih =>
      rw [List.mem_cons, not_or] at h
      have hitem : t.writeItemCut? digits item = t.writeItem? item := by
        cases item with
        | fraction => exact absurd rfl h.1
        | _ => rfl
      rw [List.mapM_cons, List.mapM_cons, hitem, ih h.2]
  rw [writeCut?, write?, hitems]

/-- The written form around a fraction of any length. -/
theorem writeCut?_around (hp : .fraction ∉ p) (hq : .fraction ∉ q) :
    t.writeCut? digits (p ++ .fraction :: q) =
      (t.write? p).bind fun front => (t.write? q).map (front ++ t.cutFraction digits ++ ·) := by
  have hfront : t.writeCut? digits p = t.write? p := writeCut?_of_notMem hp
  have hback : t.writeCut? digits q = t.write? q := writeCut?_of_notMem hq
  rw [← hfront, ← hback]
  exact join_mapM_around _ p q rfl

/-- The written form around a fraction with all its digits. -/
theorem write?_around :
    t.write? (p ++ .fixedFraction 9 true :: q) =
      (t.write? p).bind fun front => (t.write? q).map (front ++ ("." ++ t.fractionDigits 9) ++ ·) :=
  join_mapM_around _ p q rfl

end Timestamp

/-! ## Timestamps written with some digits -/

namespace LabelTime

section Written

theorem digitCount_lt (decimals : Float) : digitCount decimals < UInt64.size := by
  have hclamp :
      Number.clampInt Number.Binary.truncate 0 Number.wordMax decimals ≤ Number.wordMax := by
    unfold Number.clampInt
    split
    · exact Int.natCast_nonneg _
    · split
      · exact Int.natCast_nonneg _
      · exact Int.le_refl _
    · exact max_le (Int.natCast_nonneg _) (min_le_left _ _)
  exact Nat.lt_of_le_pred (by decide) (Int.toNat_le.2 hclamp)

variable {input format before after : String} {decimals : Float} {t : LabelTime}

/-- What is read with a number of digits in a format with a fraction of any length. -/
theorem read_eq_ok (hread : read input (some format) (some decimals) = .ok t)
    (hformat : Text.contains fractionSpecifier format = true) :
    (Pattern.ofText format).read (Text.trim input) = .ok t.instant ∧ t.format = format ∧
      t.decimals = some (digitCount decimals) := by
  have hchosen : chosenFormat (some format) = format := by
    refine if_neg fun hempty => ?_
    rw [String.isEmpty_iff.1 hempty] at hformat
    cases hformat
  obtain ⟨instant, hinstant, heq⟩ := Outcome.bind_eq_ok.1 hread
  cases heq
  rw [hchosen] at hinstant ⊢
  rw [if_pos hformat]
  exact ⟨hinstant, rfl, rfl⟩

theorem write_of_once {digits : Nat} (hdecimals : t.decimals = some digits)
    (honce : Text.pieces fractionSpecifier t.format = [before, after]) :
    t.write =
      match (t.instant.write? (Pattern.ofText (before ++ fullFractionSpecifier ++ after))).bind
        (cut? digits) with
      | some s => .ok s
      | none => .error .unwritable := by
  unfold write
  rw [hdecimals]
  dsimp only
  rw [honce]
  rfl

section Read

variable (hread : read input (some format) (some decimals) = .ok t)
  (honce : Text.pieces fractionSpecifier format = [before, after])
  (hfield : Item.fraction ∈ Pattern.ofText format)

include hread honce hfield

/-- The written form of what was read is cut out of the one with the full fraction. -/
theorem write_of_read :
    t.write =
      match ((t.instant.write? (Pattern.ofText before)).bind fun front =>
        (t.instant.write? (Pattern.ofText after)).map
          (front ++ ("." ++ t.instant.fractionDigits 9) ++ ·)).bind
            (cut? (digitCount decimals)) with
      | some s => .ok s
      | none => .error .unwritable := by
  obtain ⟨hinstant, hformat, hdecimals⟩ := read_eq_ok hread (Pattern.contains_of_once honce)
  obtain ⟨-, hfull⟩ := Pattern.ofText_around honce hfield (Pattern.unknown_notMem_of_read hinstant)
  rw [write_of_once hdecimals (hformat ▸ honce), hfull, Timestamp.write?_around]

/-- The form that the format asks for is cut inside the fraction. -/
theorem writeCut?_of_read (digits : Nat) :
    t.instant.writeCut? digits (Pattern.ofText format) =
      (t.instant.write? (Pattern.ofText before)).bind fun front =>
        (t.instant.write? (Pattern.ofText after)).map
          (front ++ t.instant.cutFraction digits ++ ·) := by
  obtain ⟨hinstant, -⟩ := read_eq_ok hread (Pattern.contains_of_once honce)
  obtain ⟨hpattern, -⟩ :=
    Pattern.ofText_around honce hfield (Pattern.unknown_notMem_of_read hinstant)
  obtain ⟨hbefore, hafter⟩ := Pattern.fraction_notMem_of_once honce
  rw [hpattern, Timestamp.writeCut?_around hbefore hafter]

/-- A timestamp that was read with a number of digits is written as its format says, with the
fraction cut to so many digits and nothing else changed, exactly if the cut only takes digits.
In any case what is written is a front of the text with the full fraction, and the zone mark;
nothing is written if the format has no written form. -/
theorem write_cutsFraction :
    (t.instant.writeCut? (digitCount decimals) (Pattern.ofText format) = none ∧
        t.write = .error .unwritable) ∨
      ∃ front back, t.instant.write? (Pattern.ofText before) = some front ∧
        t.instant.write? (Pattern.ofText after) = some back ∧
        t.instant.writeCut? (digitCount decimals) (Pattern.ofText format) =
          some (front ++ t.instant.cutFraction (digitCount decimals) ++ back) ∧
        (t.write = .ok (front ++ t.instant.cutFraction (digitCount decimals) ++ back) ↔
          CutsFractionOnly (digitCount decimals) front.toList (withoutZone back.toList)) ∧
        ∀ s, t.write = .ok s → ∃ kept, s.toList = kept ++ zoneMark back.toList ∧
          kept <+: front.toList ++
            '.' :: ((t.instant.fractionDigits 9).toList ++ withoutZone back.toList) := by
  have hwrite := write_of_read hread honce hfield
  rw [writeCut?_of_read hread honce hfield]
  cases hfront : t.instant.write? (Pattern.ofText before) with
  | none =>
    rw [hfront] at hwrite
    exact .inl ⟨rfl, hwrite⟩
  | some front =>
    cases hback : t.instant.write? (Pattern.ofText after) with
    | none =>
      rw [hfront, hback] at hwrite
      exact .inl ⟨rfl, hwrite⟩
    | some back =>
      have hfull : front ++ ("." ++ t.instant.fractionDigits 9) ++ back = String.ofList
          (front.toList ++ '.' :: ((t.instant.fractionDigits 9).toList ++ back.toList)) :=
        String.toList_inj.1 (by simp)
      have hwanted : front ++ t.instant.cutFraction (digitCount decimals) ++ back = String.ofList
          (front.toList ++ cutDigits (digitCount decimals) (t.instant.fractionDigits 9).toList ++
            back.toList) := String.toList_inj.1 (by simp [Timestamp.cutFraction])
      rw [hfront, hback, Option.bind_some, Option.map_some, Option.bind_some, hfull] at hwrite
      refine .inr ⟨front, back, rfl, rfl, rfl, ?_, fun s hs => ?_⟩
      · rw [hwanted, ← t.instant.nineDigits.cut?_iff (digitCount_lt decimals), hwrite]
        split
        · rename_i heq
          rw [heq, Except.ok.injEq, Option.some.injEq]
        · rename_i heq
          rw [heq]
          exact ⟨nofun, nofun⟩
      · rw [hwrite] at hs
        split at hs
        · rename_i heq
          cases hs
          obtain ⟨kept, hkept, hs⟩ := t.instant.nineDigits.front_of_cut? heq
          exact ⟨kept, hs, hkept⟩
        · cases hs

end Read

end Written

/-- Points between the fields of a date. -/
def dotted.format : String := "%d.%m.%Y %H:%M:%S%.fZ"

/-- The start of 1 February 2020 and some microseconds, to three digits. -/
def dotted.time : LabelTime := ⟨⟨⟨2020, 32⟩, 0, 123456000⟩, dotted.format, some 3⟩

/-- The digits start after the day, so that month and year are cut off. -/
theorem write_cutsFraction_dotted :
    read "01.02.2020 00:00:00.123456Z" (some dotted.format) (some 3) = .ok dotted.time ∧
      dotted.time.instant.writeCut? 3 (Pattern.ofText dotted.format) =
        some "01.02.2020 00:00:00.123Z" ∧
      dotted.time.write ≠ .ok "01.02.2020 00:00:00.123Z" ∧ dotted.time.write = .ok "01.02Z" := by
  have hread : read "01.02.2020 00:00:00.123456Z" (some dotted.format) (some 3) =
      .ok dotted.time := rfl
  have hwanted : dotted.time.instant.writeCut? 3 (Pattern.ofText dotted.format) =
      some "01.02.2020 00:00:00.123Z" := by decide +kernel
  have hdigits : digitCount 3 = 3 := by decide +kernel
  have hcut := write_cutsFraction hread
    (by decide +kernel : Text.pieces fractionSpecifier dotted.format = ["%d.%m.%Y %H:%M:%S", "Z"])
    (by decide +kernel)
  rw [hdigits, hwanted] at hcut
  refine ⟨hread, hwanted, ?_, rfl⟩
  obtain ⟨hnone, -⟩ | ⟨front, back, hfront, hback, htext, hiff, -⟩ := hcut
  · cases hnone
  · obtain rfl : "01.02.2020 00:00:00" = front := Option.some.inj
      ((by decide +kernel : some _ = dotted.time.instant.write? _).trans hfront)
    obtain rfl : "Z" = back := Option.some.inj
      ((by decide +kernel : some _ = dotted.time.instant.write? _).trans hback)
    rw [Option.some.inj htext, Ne, hiff]
    decide +kernel

end LabelTime

end LabelTemplate.Time
