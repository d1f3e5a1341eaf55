import LabelTemplate.Proofs.Number.Integers
import LabelTemplate.Proofs.Time.Instants
import LabelTemplate.Template.Builtins

/-!
# Shifts by whole units

A timestamp is shifted by a number of seconds, milliseconds or microseconds, and the
number goes over floats.  The shift that is written is as far from the timestamp as
the rounded product says, which always fits into 64 bits
(`Builtins.datetimeAdd_elapsed`).  It is the number of units itself where the
nanoseconds of seconds have a float, and where those of smaller units are fewer
than 2⁵¹ (`Precise`).
-/

namespace LabelTemplate.Time

open Number

/-- The nanoseconds of the units of shifts. -/
def unitNanos : List (String × Nat) :=
  [("s", nanosPerSecond), ("ms", 1000000), ("microseconds", 1000)]

/-- The numbers of a unit that the way over floats does not change.  A second has 5⁹ nanoseconds
times a power of two, so that a float can have all of them for longer. -/
def Precise (nanos : Nat) (k : Int) : Prop :=
  if nanos = nanosPerSecond then |k| * 5 ^ 9 < 2 ^ 53 else |k| * nanos < 2 ^ 51

instance (nanos : Nat) (k : Int) : Decidable (Precise nanos k) :=
  inferInstanceAs (Decidable (if nanos = nanosPerSecond then _ else _))

/-! ## Scaled integers -/

theorem hasValue_nanosPerSecond : HasValue 1e9 nanosPerSecond :=
  ⟨⟨false, 8388608000000000, -23⟩, by decide +kernel, by
    norm_num [Binary.value, Binary.magnitude, nanosPerSecond]⟩

/-- A float is less than a half away from an integer. -/
def IsNear (x : Float) (k : Int) : Prop := ∃ r, HasValue x r ∧ |r - k| < 1 / 2

theorem IsNear.isFinite {x : Float} {k : Int} (h : IsNear x k) : isFinite x = true := by
  obtain ⟨r, ⟨b, hb, -⟩, -⟩ := h
  unfold Number.isFinite
  rw [hb]

theorem IsNear.nearestInt64 {x : Float} {k : Int} (h : IsNear x k) (hk : |k| < 2 ^ 62) :
    nearestInt64 x = k := by
  obtain ⟨r, hr, hnear⟩ := h
  obtain ⟨hleast, hmost⟩ := abs_lt.1 hk
  exact hr.nearestInt64 hnear (le_trans (by decide) hleast.le) (hmost.le.trans (by decide))

section Scaled

variable {x scale : Float} {k : Int} {c : ℚ}

theorem isNear_scaled_zero (hx : HasValue x 0) (hscale : HasValue scale c) :
    IsNear (x * scale * 1e9) 0 :=
  ⟨0, (hx.zero_mul hscale).zero_mul hasValue_nanosPerSecond, by norm_num⟩

/-- Seconds whose nanoseconds have a float. -/
theorem isNear_scaled_seconds (hx : HasValue x k) (hscale : HasValue scale 1)
    (hlt : |k| * 5 ^ 9 < 2 ^ 53) : IsNear (x * scale * 1e9) (k * nanosPerSecond) := by
  obtain rfl | hk := eq_or_ne k 0
  · simpa using isNear_scaled_zero (by simpa using hx) hscale
  obtain ⟨n, hn⟩ := Int.eq_ofNat_of_zero_le (abs_nonneg k)
  have habs : |(k : ℚ)| = n := by exact_mod_cast hn
  have hpos : 0 < n := by
    have := abs_pos.2 hk
    omega
  have hshort : n * 5 ^ 9 < 2 ^ 53 := by
    rw [hn] at hlt
    exact_mod_cast hlt
  have hlow : (1 : ℚ) ≤ n := by exact_mod_cast hpos
  have hhigh : (n : ℚ) * 5 ^ 9 < 2 ^ 53 := by exact_mod_cast hshort
  obtain ⟨r, hr, hround⟩ := hx.mul_of_le hscale
    (by rw [mul_one, habs]; linarith) (by rw [mul_one, habs]; linarith)
  rw [hround.eq_of_short n 0 (by omega) (by rw [mul_one, habs, zpow_zero, mul_one]), mul_one] at hr
  have hscaled : |(k : ℚ) * nanosPerSecond| = n * 1000000000 := by
    rw [abs_mul, habs, Nat.abs_cast]
    rfl
  have hnanos : |(k : ℚ) * nanosPerSecond| = (n * 5 ^ 9 : Nat) * 2 ^ (9 : Int) := by
    rw [hscaled]
    push_cast
    ring
  obtain ⟨r', hr', hround'⟩ := hr.mul_of_le hasValue_nanosPerSecond
    (by rw [hscaled]; linarith) (by rw [hscaled]; linarith)
  refine ⟨r', hr', ?_⟩
  rw [hround'.eq_of_short _ _ hshort hnanos]
  push_cast
  norm_num

/-- The nanoseconds of a number of milliseconds or microseconds, if they are few, keep away from
the powers of two that bound them. -/
theorem abs_mul_nanos_bounds {parts nanos : Nat} (hk : k ≠ 0)
    (hparts : parts * nanos = nanosPerSecond) (hnanos : 1000 ∣ nanos) (hlt : |k| * nanos < 2 ^ 51) :
    1000 ≤ |(k : ℚ) * nanos| ∧ |(k : ℚ) * nanos| ≤ 2 ^ 51 - 248 := by
  have hint : 1000 ≤ |k| * nanos ∧ |k| * nanos ≤ 2 ^ 51 - 248 := by
    obtain ⟨m, rfl⟩ := hnanos
    have hm : 0 < m := Nat.pos_of_ne_zero (by rintro rfl; cases hparts)
    have hpos : 0 < |k| * m := Int.mul_pos (abs_pos.2 hk) (by omega)
    rw [Nat.cast_mul, mul_left_comm] at hlt ⊢
    omega
  rw [abs_mul, Nat.abs_cast, ← Int.cast_abs]
  exact_mod_cast hint

/-- The scale of a unit is a little off. -/
theorem abs_scale_sub_le {parts nanos : Nat} (hparts : parts * nanos = nanosPerSecond)
    (hc : |c * parts - 1| ≤ 7 / 16 / 2 ^ 53) (hmost : |(k : ℚ) * nanos| ≤ 2 ^ 51) :
    |(k : ℚ) * c * nanosPerSecond - k * nanos| ≤ 7 / 64 := by
  have hsecond : (parts : ℚ) * nanos = nanosPerSecond := by exact_mod_cast hparts
  calc |(k : ℚ) * c * nanosPerSecond - k * nanos|
      = |(k : ℚ) * nanos| * |c * parts - 1| := by
        rw [← hsecond, ← abs_mul]
        congr 1
        ring
    _ ≤ 2 ^ 51 * (7 / 16 / 2 ^ 53) := mul_le_mul hmost hc (abs_nonneg _) (by positivity)
    _ = 7 / 64 := by norm_num

/-- So is the product with it. -/
theorem abs_rounded_sub_le {q r : ℚ} (hround : Rounds q r) (hmost : |q| * nanosPerSecond ≤ 2 ^ 51) :
    |r * nanosPerSecond - q * nanosPerSecond| ≤ 1 / 4 :=
  calc |r * nanosPerSecond - q * nanosPerSecond|
      = |r - q| * nanosPerSecond := by rw [← sub_mul, abs_mul, Nat.abs_cast]
    _ ≤ |q| / 2 ^ 53 * nanosPerSecond :=
        mul_le_mul_of_nonneg_right hround.abs_sub_le (Nat.cast_nonneg _)
    _ = |q| * nanosPerSecond / 2 ^ 53 := div_mul_eq_mul_div _ _ _
    _ ≤ 2 ^ 51 / 2 ^ 53 := div_le_div_of_nonneg_right hmost (by positivity)
    _ = 1 / 4 := by norm_num

/-- Parts of seconds that last less than 2⁵¹ nanoseconds. -/
theorem isNear_scaled_parts (parts : Nat) {nanos : Nat} (hx : HasValue x k)
    (hscale : HasValue scale c) (hparts : parts * nanos = nanosPerSecond)
    (hc : |c * parts - 1| ≤ 7 / 16 / 2 ^ 53) (hnanos : 1000 ∣ nanos) (hlt : |k| * nanos < 2 ^ 51) :
    IsNear (x * scale * 1e9) (k * nanos) := by
  obtain rfl | hk := eq_or_ne k 0
  · simpa using isNear_scaled_zero (by simpa using hx) hscale
  have hvalue : (nanosPerSecond : ℚ) = 1000000000 := rfl
  obtain ⟨hleast, hmost⟩ := abs_mul_nanos_bounds hk hparts hnanos hlt
  have hconstant := abs_scale_sub_le hparts hc (hmost.trans (by norm_num))
  have hscaled : 999 ≤ |(k : ℚ) * c| * nanosPerSecond ∧
      |(k : ℚ) * c| * nanosPerSecond ≤ 2 ^ 51 := by
    have hapart := abs_abs_sub_abs_le_abs_sub ((k : ℚ) * c * nanosPerSecond) (k * nanos)
    rw [abs_mul _ (nanosPerSecond : ℚ), Nat.abs_cast] at hapart
    constructor <;> linarith [abs_le.1 (hapart.trans hconstant)]
  obtain ⟨r, hr, hround⟩ := hx.mul_of_le hscale
    (by rw [hvalue] at hscaled; linarith) (by rw [hvalue] at hscaled; linarith)
  have hnear : |r * nanosPerSecond - k * nanos| ≤ 1 / 4 + 7 / 64 :=
    (abs_sub_le _ _ _).trans (add_le_add (abs_rounded_sub_le hround hscaled.2) hconstant)
  have hproduct : 999 ≤ |r * nanosPerSecond| ∧ |r * nanosPerSecond| < 2 ^ 51 := by
    have hapart := abs_abs_sub_abs_le_abs_sub (r * nanosPerSecond) (k * nanos)
    constructor <;> linarith [abs_le.1 (hapart.trans hnear)]
  -- The last product lies where floats are a quarter apart, so that its error is the least.
  obtain ⟨r', hr', hround'⟩ := hr.mul_of_le hasValue_nanosPerSecond (by linarith) (by linarith)
  have hlast : |r' - r * nanosPerSecond| ≤ 1 / 8 :=
    (hround'.abs_sub_le_of_lt 51 (by exact_mod_cast hproduct.2)).trans_eq (by norm_num)
  refine ⟨r', hr', ?_⟩
  calc |r' - ((k * nanos : Int) : ℚ)|
      ≤ |r' - r * nanosPerSecond| + |r * nanosPerSecond - k * nanos| := by
        push_cast
        exact abs_sub_le _ _ _
    _ ≤ 1 / 8 + (1 / 4 + 7 / 64) := add_le_add hlast hnear
    _ < 1 / 2 := by norm_num

-- A few milliseconds above 2⁵¹ nanoseconds the product rounds to another number.
example : nearestInt64 (2251799817 * 0.001 * 1e9) = 2251799817 * 1000000 + 1 := by decide +kernel

end Scaled

/-! ## Units -/

theorem lookup_unitNanos {unit : String} {nanos : Nat} (h : unitNanos.lookup unit = some nanos) :
    unit = "s" ∧ nanos = nanosPerSecond ∨ unit = "ms" ∧ nanos = 1000000 ∨
      unit = "microseconds" ∧ nanos = 1000 := by
  obtain ⟨front, back, heq, -⟩ := List.lookup_eq_some_iff.1 h
  have hmem : (unit, nanos) ∈ unitNanos := heq ▸ List.mem_append_right _ List.mem_cons_self
  simpa [unitNanos] using hmem

theorem hasValue_one : HasValue 1.0 1 :=
  ⟨⟨false, 4503599627370496, -52⟩, by decide +kernel, by
    norm_num [Binary.value, Binary.magnitude]⟩

/-- A thousandth and a millionth have no float; those that stand for them are a little off. -/
theorem hasValue_thousandth : ∃ c : ℚ, HasValue 0.001 c ∧ |c * 1000 - 1| ≤ 7 / 16 / 2 ^ 53 :=
  ⟨_, ⟨⟨false, 4611686018427388, -62⟩, by decide +kernel, rfl⟩, by
    norm_num [Binary.value, Binary.magnitude, abs_le]⟩

theorem hasValue_millionth : ∃ c : ℚ, HasValue 0.000001 c ∧ |c * 1000000 - 1| ≤ 7 / 16 / 2 ^ 53 :=
  ⟨_, ⟨⟨false, 4722366482869645, -72⟩, by decide +kernel, rfl⟩, by
    norm_num [Binary.value, Binary.magnitude, abs_le]⟩

section Units

variable {unit : String} {nanos : Nat} (hunit : unitNanos.lookup unit = some nanos)

include hunit

/-- The scale of a unit brings precise numbers near to their nanoseconds. -/
theorem exists_scale : ∃ scale, shiftUnits.lookup unit = some scale ∧
    ∀ (x : Float) (k : Int), HasValue x k → Precise nanos k →
      IsNear (x * scale * 1e9) (k * nanos) := by
  obtain ⟨rfl, rfl⟩ | ⟨rfl, rfl⟩ | ⟨rfl, rfl⟩ := lookup_unitNanos hunit
  · exact ⟨1.0, rfl, fun x k hx hk => isNear_scaled_seconds hx hasValue_one hk⟩
  · obtain ⟨c, hscale, hc⟩ := hasValue_thousandth
    exact ⟨0.001, rfl, fun x k hx hk => isNear_scaled_parts 1000 hx hscale rfl hc (by decide) hk⟩
  · obtain ⟨c, hscale, hc⟩ := hasValue_millionth
    exact ⟨0.000001, rfl, fun x k hx hk =>
      isNear_scaled_parts 1000000 hx hscale rfl hc (by decide) hk⟩

theorem Precise.abs_lt {k : Int} (hk : Precise nanos k) : |k| < 2 ^ 53 ∧ |k * nanos| < 2 ^ 62 := by
  rw [abs_mul, Nat.abs_cast]
  obtain ⟨rfl, rfl⟩ | ⟨rfl, rfl⟩ | ⟨rfl, rfl⟩ := lookup_unitNanos hunit
  · change |k| * 5 ^ 9 < 2 ^ 53 at hk
    unfold nanosPerSecond
    omega
  · change |k| * (1000000 : Nat) < 2 ^ 51 at hk
    omega
  · change |k| * (1000 : Nat) < 2 ^ 51 at hk
    omega

end Units

/-! ## Shifts -/

namespace LabelTime

theorem nanos_of_read {input : String} {format : Option String} {decimals : Option Float}
    {t : LabelTime} (h : read input format decimals = .ok t) :
    t.instant.nanos < 2 * nanosPerSecond := by
  obtain ⟨i, hi, h⟩ := Outcome.bind_eq_ok.1 h
  cases h
  exact Pattern.nanos_of_read hi

/-- A shift that does not fail goes as far as the rounded product says. -/
theorem elapsed_of_shift {t u : LabelTime} {x : Float} {unit : String}
    (ht : t.instant.nanos < 2 * nanosPerSecond) (h : t.shift x unit = .ok u) :
    ∃ scale i, shiftUnits.lookup unit = some scale ∧ u = { t with instant := i } ∧
      t.instant.elapsed i = nearestInt64 (x * scale * 1e9) := by
  unfold shift at h
  split at h
  · rename_i scale hscale
    dsimp only at h
    split at h
    · cases h
    · split at h
      · rename_i i hi
        cases h
        exact ⟨scale, i, hscale, rfl, Timestamp.elapsed_addNanos? ht hi⟩
      · cases h
  · cases h

/-- A shift by a precise number of units. -/
theorem shift_of_precise {t : LabelTime} {x : Float} {unit : String} {nanos : Nat} {k : Int}
    {i : Timestamp} (hunit : unitNanos.lookup unit = some nanos) (hx : HasValue x k)
    (hk : Precise nanos k) (hi : t.instant.addNanos? (k * nanos) = some i) :
    t.shift x unit = .ok { t with instant := i } := by
  obtain ⟨scale, hscale, hnear⟩ := exists_scale hunit
  have hproduct := hnear x k hx hk
  unfold shift
  rw [hscale]
  dsimp only
  rw [hproduct.isFinite, hproduct.nearestInt64 (hk.abs_lt hunit).2, hi]
  rfl

end LabelTime

end LabelTemplate.Time

namespace LabelTemplate.Builtins

open Number Time Xml XPath

theorem checkCount_eq_ok {c : ExtensionCall} {name : String} {least most : Nat} {u : Unit} :
    checkCount c name least most = .ok u ↔ least ≤ c.args.length ∧ c.args.length ≤ most := by
  unfold checkCount
  dsimp only
  split
  · rename_i hcount
    refine iff_of_false (fun h => by cases h) ?_
    simp only [gt_iff_lt, Bool.or_eq_true, decide_eq_true_eq] at hcount
    omega
  · rename_i hcount
    refine iff_of_true rfl ?_
    simp only [gt_iff_lt, Bool.or_eq_true, decide_eq_true_eq] at hcount
    omega

theorem writeTime_eq_ok {c : ExtensionCall} {t : LabelTime} {v : Value} :
    writeTime c t = .ok v ↔ ∃ s, t.write = .ok s ∧ v = .string s := by
  unfold writeTime
  split
  · rename_i s hs
    rw [hs]
    constructor
    · rintro ⟨⟩
      exact ⟨s, rfl, rfl⟩
    · rintro ⟨_, ⟨⟩, rfl⟩
      rfl
  · rename_i fault hfault
    rw [hfault]
    exact iff_of_false (fun h => by cases h) fun ⟨_, h, _⟩ => by cases h

/-- The timestamp that a call is given. -/
def givenTime (c : ExtensionCall) (timestamp : Value) (form : List Value) :
    Except TimestampFault LabelTime :=
  LabelTime.read (timestamp.toText c.docs) (writtenForm c form).1 (writtenForm c form).2

/-- When a call that is given a set of nodes succeeds. -/
theorem datetimeAdd_eq_ok {c : ExtensionCall} {timestamp by_ : Value} {form : List Value}
    {v : Value} (hargs : c.args = timestamp :: by_ :: form) :
    datetimeAdd c = .ok v ↔ c.args.length ≤ 4 ∧ ∃ t u x unit s,
      givenTime c timestamp form = .ok t ∧ delta c.docs by_ = .ok (x, unit) ∧
      t.shift x unit = .ok u ∧ u.write = .ok s ∧ v = .string s := by
  have hleast : 2 ≤ c.args.length := by
    rw [hargs, List.length_cons, List.length_cons]
    omega
  unfold datetimeAdd
  rw [Outcome.bind_eq_ok, hargs]
  constructor
  · rintro ⟨_, hcount, h⟩
    dsimp only at h
    split at h
    · rename_i t hread
      obtain ⟨t', ht, h⟩ := Outcome.bind_eq_ok.1 h
      cases ht
      split at h
      · rename_i u hshifted
        obtain ⟨⟨x, unit⟩, hdelta, hshift⟩ := Outcome.bind_eq_ok.1 hshifted
        obtain ⟨s, hs, rfl⟩ := writeTime_eq_ok.1 h
        exact ⟨hargs ▸ (checkCount_eq_ok.1 hcount).2, t, u, x, unit, s, hread, hdelta,
          Outcome.mapError_eq_ok.1 hshift, hs, rfl⟩
      · cases h
    · cases h
  · rintro ⟨hmost, t, u, x, unit, s, hread, hdelta, hshift, hs, rfl⟩
    refine ⟨(), checkCount_eq_ok.2 ⟨hleast, hargs ▸ hmost⟩, ?_⟩
    dsimp only
    rw [show LabelTime.read _ _ _ = .ok t from hread, hdelta]
    simp only [bind, Except.bind, pure, Except.pure, hshift, Except.mapError]
    exact writeTime_eq_ok.2 ⟨s, hs, rfl⟩

/-- What a node with a unit says. -/
theorem delta_eq_ok {docs : Documents} {h : Handle} {hs : List Handle} {unit unit' : String}
    {x : Float} (hunit : unit? docs h = some unit) :
    delta docs (.nodes (h :: hs)) = .ok (x, unit') ↔
      parseFloat? (Text.trim (stringValue docs h)) = some x ∧ unit' = unit := by
  unfold delta
  dsimp only
  rw [hunit]
  dsimp only
  split
  · rename_i x' hx
    rw [hx]
    constructor
    · rintro ⟨⟩
      exact ⟨rfl, rfl⟩
    · rintro ⟨⟨⟩, rfl⟩
      rfl
  · rename_i hx
    rw [hx]
    exact iff_of_false (fun h => by cases h) fun ⟨h, _⟩ => by cases h

/-- A call that shifts a timestamp by an integer of a unit.  If it succeeds, what it writes is as
far from the timestamp as the rounded product says, brought into 64 bits, and exactly that many
units away if the integer is precise.  Then it also succeeds, if the calendar goes that far and
what it comes to has a written form. -/
theorem datetimeAdd_elapsed {c : ExtensionCall} {timestamp : Value} {h : Handle}
    {hs : List Handle} {form : List Value} {unit : String} {nanos : Nat} {k : Int}
    (hargs : c.args = timestamp :: .nodes (h :: hs) :: form)
    (hunit : unit? c.docs h = some unit) (hnanos : unitNanos.lookup unit = some nanos)
    (hk : SpellsInteger (Text.trim (stringValue c.docs h)) k) :
    (∀ v, datetimeAdd c = .ok v → ∃ t i s x scale,
      givenTime c timestamp form = .ok t ∧
      LabelTime.write { t with instant := i } = .ok s ∧ v = .string s ∧
      parseFloat? (Text.trim (stringValue c.docs h)) = some x ∧
      shiftUnits.lookup unit = some scale ∧
      t.instant.elapsed i = nearestInt64 (x * scale * 1e9) ∧
      Int64.minValue.toInt ≤ t.instant.elapsed i ∧ t.instant.elapsed i ≤ Int64.maxValue.toInt ∧
      (Precise nanos k → t.instant.elapsed i = k * nanos)) ∧
    ∀ t i s, Precise nanos k → c.args.length ≤ 4 →
      givenTime c timestamp form = .ok t →
      t.instant.addNanos? (k * nanos) = some i →
      LabelTime.write { t with instant := i } = .ok s → datetimeAdd c = .ok (.string s) := by
  constructor
  · intro v hv
    obtain ⟨-, t, u, x, unit', s, hread, hsaid, hshift, hs, rfl⟩ := (datetimeAdd_eq_ok hargs).1 hv
    obtain ⟨hx, rfl⟩ := (delta_eq_ok hunit).1 hsaid
    obtain ⟨scale, i, hscale, rfl, helapsed⟩ :=
      LabelTime.elapsed_of_shift (LabelTime.nanos_of_read hread) hshift
    refine ⟨t, i, s, x, scale, hread, hs, rfl, hx, hscale, helapsed,
      helapsed ▸ (nearestInt64_mem _).1, helapsed ▸ (nearestInt64_mem _).2, fun hprecise => ?_⟩
    obtain ⟨x', hx', hvalue⟩ := hk.hasValue (hprecise.abs_lt hnanos).1
    obtain rfl : x = x' := Option.some.inj (hx.symm.trans hx')
    obtain ⟨scale', hscale', hnear⟩ := exists_scale hnanos
    obtain rfl : scale = scale' := Option.some.inj (hscale.symm.trans hscale')
    rw [helapsed]
    exact (hnear x k hvalue hprecise).nearestInt64 (hprecise.abs_lt hnanos).2
  · intro t i s hprecise hcount hread hi hs
    obtain ⟨x, hx, hvalue⟩ := hk.hasValue (hprecise.abs_lt hnanos).1
    exact (datetimeAdd_eq_ok hargs).2 ⟨hcount, t, _, x, unit, s, hread,
      (delta_eq_ok hunit).2 ⟨hx, rfl⟩,
      LabelTime.shift_of_precise hnanos hvalue hprecise hi, hs, rfl⟩

/-- A delta of as many milliseconds as are precise. -/
def greatest.delta : Element where
  name := .plain "delta"
  attributes := [⟨.plain "unit", "ms"⟩]
  text := some "2251799813"

/-- A call that shifts the start of 2020 by it. -/
def greatest.call : ExtensionCall where
  docs := #[⟨#[{ kind := .element greatest.delta }], 0, [], none⟩]
  context := []
  clock := .epoch
  element := 0
  source := none
  site := ⟨⟨0, .document⟩, 1, 1⟩
  args := [.string "2020-01-01T00:00:00.000Z", .nodes [⟨0, .element 0⟩]]
  evalTemplate := fun _ => .ok (.string "")
  evalSource := fun _ => .ok (.string "")

/-- The start of 2020, to milliseconds. -/
def greatest.time : LabelTime := ⟨⟨⟨2020, 1⟩, 0, 0⟩, labelFormat, some 3⟩

theorem datetimeAdd_elapsed_greatest :
    datetimeAdd greatest.call = .ok (.string "2020-01-27T01:29:59.813Z") ∧
      ∃ i, LabelTime.write { greatest.time with instant := i } = .ok "2020-01-27T01:29:59.813Z" ∧
        greatest.time.instant.elapsed i = 2251799813 * 1000000 := by
  have hunit : unit? greatest.call.docs ⟨0, .element 0⟩ = some "ms" := rfl
  have htext : Text.trim (stringValue greatest.call.docs ⟨0, .element 0⟩) =
      String.ofList "2251799813".toList := by decide +kernel
  have hspells : SpellsInteger (Text.trim (stringValue greatest.call.docs ⟨0, .element 0⟩))
      2251799813 :=
    htext ▸ .plain (by decide +kernel)
      (List.all_eq_true.1 (by decide +kernel : "2251799813".toList.all isDigit = true))
  have hprecise : Precise 1000000 2251799813 := by decide
  have hgiven : givenTime greatest.call (.string "2020-01-01T00:00:00.000Z") [] =
      .ok greatest.time := rfl
  obtain ⟨hrun, hadd⟩ := datetimeAdd_elapsed (c := greatest.call) rfl hunit rfl hspells
  have hresult := hadd greatest.time ⟨⟨2020, 27⟩, 5399, 813000000⟩ "2020-01-27T01:29:59.813Z"
    hprecise (by decide) hgiven (by decide +kernel) rfl
  obtain ⟨t, i, s, x, scale, ht, hs, hv, -, -, -, -, -, helapsed⟩ := hrun _ hresult
  obtain rfl : greatest.time = t := Except.ok.inj (hgiven.symm.trans ht)
  cases hv
  exact ⟨hresult, i, hs, helapsed hprecise⟩

end LabelTemplate.Builtins
