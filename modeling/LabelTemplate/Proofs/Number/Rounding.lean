import LabelTemplate.Proofs.Number.Parts

/-!
# Rounding to the nearest float

What is shifted out of a mantissa is kept in two bits, which tell whether it is less
than a half, a half or more (`Stands`), so that the rounded mantissa is the nearest
one.  A product is rounded once: it is off by half a unit of its last place at most,
and not at all if it has a float (`HasValue.mul`, `Rounds`).
-/

namespace LabelTemplate.Number

open Float.Model Float.Model.UnpackedFloat

/-! ## Mantissas with what was shifted out -/

/-- A mantissa and the bits that tell what was shifted out of it stand for a number. -/
def Stands (em : ExtendedMantissa) (q : ℚ) : Prop :=
  match em.roundBit, em.stickyBit with
  | false, false => q = em.mantissa
  | false, true => (em.mantissa : ℚ) < q ∧ q < em.mantissa + 1 / 2
  | true, false => q = em.mantissa + 1 / 2
  | true, true => (em.mantissa : ℚ) + 1 / 2 < q ∧ q < em.mantissa + 1

section Stands

variable {em : ExtendedMantissa} {q : ℚ}

theorem stands_exact (m : Nat) : Stands (.ofMantissaAndAccuracy m .exact) m := rfl

/-- A shift halves the number. -/
theorem Stands.shiftRightOne (h : Stands em q) : Stands em.shiftRightOne (q / 2) := by
  obtain ⟨m, round, sticky⟩ := em
  have hm : (m : ℚ) = 2 * (m / 2 : Nat) + (m % 2 : Nat) := by
    exact_mod_cast (Nat.div_add_mod m 2).symm
  have hone : (1 != 0) = true := rfl
  -- The last bit of the mantissa becomes the round bit, any other bit a sticky one.
  obtain hbit | hbit := Nat.mod_two_eq_zero_or_one m <;> rw [hbit] at hm <;>
    cases round <;> cases sticky <;>
    simp only [Stands, ExtendedMantissa.shiftRightOne, hbit, Bool.or_false, Bool.or_true,
      bne_self_eq_false, hone, Nat.cast_zero, Nat.cast_one] at h hm ⊢ <;>
    first
    | linarith
    | exact ⟨by linarith, by linarith⟩

theorem Stands.shiftRight (h : Stands em q) (n : Nat) : Stands (em >>> n) (q / 2 ^ n) := by
  induction n with
  | zero =>
    rw [pow_zero, div_one]
    exact h
  | succ n ih =>
    have hstep := ih.shiftRightOne
    rw [div_div, ← pow_succ] at hstep
    exact hstep

/-- A number is rounded to one at most a half away. -/
theorem Stands.abs_sub_le (h : Stands em q) : |(em.roundedMantissa : ℚ) - q| ≤ 1 / 2 := by
  obtain ⟨m, round, sticky⟩ := em
  rw [abs_le]
  have hbit : (m % 2 : Nat) = (0 : ℚ) ∨ (m % 2 : Nat) = (1 : ℚ) := by
    exact_mod_cast Nat.mod_two_eq_zero_or_one m
  cases round <;> cases sticky <;>
    simp only [Stands, ExtendedMantissa.roundedMantissa, ExtendedMantissa.accuracy,
      Accuracy.roundToNearestEven, Nat.cast_add, Nat.cast_one] at h ⊢
  · exact ⟨by linarith, by linarith⟩
  · exact ⟨by linarith, by linarith⟩
  · obtain hbit | hbit := hbit <;> rw [hbit] <;> exact ⟨by linarith, by linarith⟩
  · exact ⟨by linarith, by linarith⟩

/-- An integer is not changed. -/
theorem Stands.roundedMantissa_eq {n : Nat} (h : Stands em n) : em.roundedMantissa = n := by
  have hround := abs_le.1 h.abs_sub_le
  have hlow : (n : ℚ) < em.roundedMantissa + 1 := by linarith [hround.1]
  have hhigh : (em.roundedMantissa : ℚ) < n + 1 := by linarith [hround.2]
  have hlow : n < em.roundedMantissa + 1 := by exact_mod_cast hlow
  have hhigh : em.roundedMantissa < n + 1 := by exact_mod_cast hhigh
  omega

end Stands

/-! ## Rounded floats -/

/-- The exponent that the mantissa of a number is brought to. -/
def target (m : Nat) (e : Int) : Int := max ((m.log2 : Int) + 1 + e - 53) (-1074)

theorem targetExponent_eq (m : Nat) (e : Int) :
    Format.binary64.targetExponent (totalExponent m e) = target m e := rfl

/-- The digits that are dropped on the way to the target. -/
def dropped (m : Nat) (e : Int) : Nat := (target m e - e).toNat

/-- The mantissa rounded at the target. -/
def nearest (m : Nat) (e : Int) : Nat :=
  (ExtendedMantissa.ofMantissaAndAccuracy m .exact >>> dropped m e).roundedMantissa

section Nearest

variable {m : Nat} {e : Int}

theorem stands_nearest (m : Nat) (e : Int) :
    Stands (ExtendedMantissa.ofMantissaAndAccuracy m .exact >>> dropped m e)
      ((m : ℚ) / 2 ^ dropped m e) :=
  (stands_exact m).shiftRight _

theorem add_dropped (he : e ≤ target m e) : e + dropped m e = target m e := by
  rw [dropped, Int.toNat_of_nonneg (by omega)]
  omega

/-- A rounded mantissa has at most 53 bits, or one carry more. -/
theorem nearest_le (m : Nat) (e : Int) : nearest m e ≤ 2 ^ 53 := by
  have hlow : m.log2 + 1 ≤ 53 + dropped m e := by
    unfold dropped target
    omega
  have hlt : m < 2 ^ 53 * 2 ^ dropped m e := by
    rw [← pow_add]
    exact lt_of_lt_of_le Nat.lt_log2_self (Nat.pow_le_pow_right (by decide) hlow)
  have hq : (m : ℚ) / 2 ^ dropped m e < 2 ^ 53 := by
    rw [div_lt_iff₀ (by positivity)]
    exact_mod_cast hlt
  have hround := (abs_le.1 (stands_nearest m e).abs_sub_le).2
  have hnearest : (nearest m e : ℚ) < 2 ^ 53 + 1 := by
    unfold nearest
    linarith
  exact Nat.lt_succ_iff.1 (by exact_mod_cast hnearest)

/-- Above the least exponent the rounded mantissa has all its bits. -/
theorem le_nearest (hm : 0 < m) (hnormal : target m e ≠ -1074) (he : e ≤ target m e) :
    2 ^ 52 ≤ nearest m e := by
  have hdropped : m.log2 = 52 + dropped m e := by
    have htarget : target m e = (m.log2 : Int) + 1 + e - 53 := by
      unfold target at hnormal ⊢
      omega
    unfold dropped
    omega
  have hle : 2 ^ 52 * 2 ^ dropped m e ≤ m := by
    rw [← pow_add, ← hdropped]
    exact Nat.log2_self_le hm.ne'
  have hq : 2 ^ 52 ≤ (m : ℚ) / 2 ^ dropped m e := by
    rw [le_div_iff₀ (by positivity)]
    exact_mod_cast hle
  have hround := (abs_le.1 (stands_nearest m e).abs_sub_le).1
  have hnearest : (2 : ℚ) ^ 52 < nearest m e + 1 := by
    unfold nearest
    linarith
  exact Nat.lt_succ_iff.1 (by exact_mod_cast hnearest)

theorem shiftToTargetExponent_eq (he : e ≤ target m e) :
    shiftToTargetExponent Format.binary64 m e .exact =
      (ExtendedMantissa.ofMantissaAndAccuracy m .exact >>> dropped m e, target m e) :=
  Prod.ext rfl (add_dropped he)

/-- A mantissa of at most 53 bits stays as it is. -/
theorem shiftToTargetExponent_of_lt (hm : m < 2 ^ 53) (he : -1074 ≤ e) :
    shiftToTargetExponent Format.binary64 m e .exact =
      (ExtendedMantissa.ofMantissaAndAccuracy m .exact, e) := by
  have hlog : m.log2 ≤ 52 := by
    obtain rfl | hne := Nat.eq_zero_or_pos m
    · decide
    · exact Nat.lt_succ_iff.1 ((Nat.log2_lt hne.ne').2 hm)
  have hzero : (target m e - e).toNat = 0 := by
    unfold target
    omega
  unfold shiftToTargetExponent shiftToExponent
  simp only [targetExponent_eq, hzero, Nat.cast_zero, add_zero]
  rfl

/-- The carry out of a rounded mantissa is shifted back. -/
theorem shiftToTargetExponent_carry (he : -1074 ≤ e) :
    shiftToTargetExponent Format.binary64 (2 ^ 53) e .exact =
      (⟨2 ^ 52, false, false⟩, e + 1) := by
  have hone : (target (2 ^ 53) e - e).toNat = 1 := by
    unfold target
    rw [Nat.log2_two_pow]
    omega
  unfold shiftToTargetExponent shiftToExponent
  simp only [targetExponent_eq, hone, Nat.cast_one]
  rfl

/-- A rounded mantissa is carried at most once. -/
theorem roundWithAccuracy_eq (s : Sign) (he : e ≤ target m e) :
    roundWithAccuracy Format.binary64 s m e .exact =
      if h : nearest m e = 0 then .zero s
      else if nearest m e < 2 ^ 53 then .finite s (nearest m e) (target m e) (Nat.pos_of_ne_zero h)
      else .finite s (2 ^ 52) (target m e + 1) (by decide) := by
  have htarget : -1074 ≤ target m e := le_max_right _ _
  have hround : roundWithAccuracy Format.binary64 s m e .exact =
      let final := shiftToTargetExponent Format.binary64 (nearest m e) (target m e) .exact
      if h : final.1.mantissa = 0 then .zero s
      else .finite s final.1.mantissa final.2 (Nat.pos_of_ne_zero h) := by
    unfold roundWithAccuracy
    rw [shiftToTargetExponent_eq he]
    rfl
  rw [hround]
  by_cases hlt : nearest m e < 2 ^ 53
  · simp only [shiftToTargetExponent_of_lt hlt htarget, hlt, if_true]
    rfl
  · have hcarry : nearest m e = 2 ^ 53 := le_antisymm (nearest_le m e) (not_lt.1 hlt)
    simp only [hcarry, shiftToTargetExponent_carry htarget]
    rfl

end Nearest

/-! ## Values -/

/-- The exact value without its sign. -/
def Binary.magnitude (b : Binary) : ℚ := b.mantissa * 2 ^ b.exponent

/-- The exact value. -/
def Binary.value (b : Binary) : ℚ := if b.negative then -b.magnitude else b.magnitude

/-- A float with an exact value. -/
def HasValue (x : Float) (q : ℚ) : Prop := ∃ b, parts x = .finite b ∧ b.value = q

/-- What a rounded product is packed to. -/
theorem parts_roundWithAccuracy (negative : Bool) {m : Nat} {e : Int} (hm : 0 < m)
    (he : e ≤ target m e) (htarget : target m e ≤ 970) :
    ∃ b : Binary, parts (.ofModel (.pack (roundWithAccuracy Format.binary64
        (signOf negative) m e .exact))) = .finite b ∧
      b.negative = negative ∧ b.magnitude = nearest m e * 2 ^ target m e := by
  have hlow : -1074 ≤ target m e := le_max_right _ _
  rw [roundWithAccuracy_eq _ he]
  by_cases hzero : nearest m e = 0
  · rw [dif_pos hzero]
    refine ⟨⟨negative, 0, -1074⟩, parts_pack_zero negative, rfl, ?_⟩
    simp [Binary.magnitude, hzero]
  · rw [dif_neg hzero]
    by_cases hlt : nearest m e < 2 ^ 53
    · rw [if_pos hlt]
      have hcanonical : (⟨negative, nearest m e, target m e⟩ : Binary).Canonical :=
        ⟨hlt, hlow, htarget.trans (by decide),
          or_iff_not_imp_right.2 fun hne => le_nearest hm hne he⟩
      exact ⟨_, parts_pack hcanonical (Nat.pos_of_ne_zero hzero), rfl, rfl⟩
    · rw [if_neg hlt]
      have hcarry : nearest m e = 2 ^ 53 := le_antisymm (nearest_le m e) (not_lt.1 hlt)
      have hcanonical : (⟨negative, 2 ^ 52, target m e + 1⟩ : Binary).Canonical :=
        ⟨(by decide : 2 ^ 52 < 2 ^ 53), by dsimp only; omega, by dsimp only; omega,
          .inl (le_refl _)⟩
      refine ⟨_, parts_pack hcanonical (by decide : 0 < 2 ^ 52), rfl, ?_⟩
      rw [Binary.magnitude, hcarry, zpow_add_one₀ two_ne_zero]
      push_cast
      ring

/-- The mantissas of two floats multiply to one that is not too short for the target. -/
theorem le_target {a b : Binary} (ha : a.Canonical) (hb : b.Canonical) (hma : 0 < a.mantissa)
    (hmb : 0 < b.mantissa) :
    a.exponent + b.exponent ≤ target (a.mantissa * b.mantissa) (a.exponent + b.exponent) := by
  have hlog : 2 ^ 52 ≤ a.mantissa * b.mantissa → 52 ≤ (a.mantissa * b.mantissa).log2 :=
    fun h => (Nat.le_log2 (Nat.mul_pos hma hmb).ne').2 h
  have hea := ha.le_exponent
  have heb := hb.le_exponent
  unfold target
  obtain hna | hna := ha.normal
  · have := hlog (hna.trans (Nat.le_mul_of_pos_right _ hmb))
    omega
  · obtain hnb | hnb := hb.normal
    · have := hlog (hnb.trans (Nat.le_mul_of_pos_left _ hma))
      omega
    · omega

theorem Binary.value_mul (a b : Binary) : a.value * b.value =
    if a.negative != b.negative then -(a.magnitude * b.magnitude)
    else a.magnitude * b.magnitude := by
  unfold Binary.value
  cases a.negative <;> cases b.negative <;> simp

/-- The product of two floats. -/
theorem parts_mul {x y : Float} {a b : Binary} (ha : parts x = .finite a) (hb : parts y = .finite b)
    (hma : 0 < a.mantissa) (hmb : 0 < b.mantissa)
    (htarget : target (a.mantissa * b.mantissa) (a.exponent + b.exponent) ≤ 970) :
    ∃ c : Binary, parts (x * y) = .finite c ∧ c.negative = (a.negative != b.negative) ∧
      c.magnitude = nearest (a.mantissa * b.mantissa) (a.exponent + b.exponent) *
        2 ^ target (a.mantissa * b.mantissa) (a.exponent + b.exponent) := by
  obtain ⟨hca, hxa⟩ := unpack_of_parts ha
  obtain ⟨hcb, hyb⟩ := unpack_of_parts hb
  rw [dif_neg hma.ne'] at hxa
  rw [dif_neg hmb.ne'] at hyb
  have hsign : signOf a.negative * signOf b.negative = signOf (a.negative != b.negative) := by
    cases a.negative <;> cases b.negative <;> rfl
  have hmul : x * y = .ofModel (.pack (roundWithAccuracy Format.binary64
      (signOf (a.negative != b.negative)) (a.mantissa * b.mantissa) (a.exponent + b.exponent)
      .exact)) := by
    change Float.ofModel (.pack (UnpackedFloat.mul Format.binary64 x.toModel.unpack
      y.toModel.unpack)) = _
    rw [hxa, hyb, UnpackedFloat.mul, hsign]
  rw [hmul]
  exact parts_roundWithAccuracy _ (Nat.mul_pos hma hmb) (le_target hca hcb hma hmb) htarget

/-! ## How far a product is off -/

section Distance

variable {m : Nat} {e : Int}

/-- The number that is rounded, in units of the target. -/
theorem eq_div_dropped_mul (he : e ≤ target m e) :
    (m : ℚ) * 2 ^ e = m / 2 ^ dropped m e * 2 ^ target m e := by
  rw [← add_dropped he, zpow_add₀ two_ne_zero, zpow_natCast]
  field_simp

theorem two_pow_log2_le (hm : 0 < m) (e : Int) : (2 : ℚ) ^ ((m.log2 : Int) + e) ≤ m * 2 ^ e := by
  rw [zpow_add₀ two_ne_zero, zpow_natCast]
  have hlog : (2 : ℚ) ^ m.log2 ≤ m := by exact_mod_cast Nat.log2_self_le hm.ne'
  gcongr

theorem lt_two_pow_log2 (m : Nat) (e : Int) : (m : ℚ) * 2 ^ e < 2 ^ ((m.log2 : Int) + 1 + e) := by
  have hpos : (0 : ℚ) < 2 ^ e := by positivity
  have hlog : (m : ℚ) < 2 ^ (m.log2 + 1) := by exact_mod_cast Nat.lt_log2_self
  calc (m : ℚ) * 2 ^ e < 2 ^ (m.log2 + 1) * 2 ^ e := mul_lt_mul_of_pos_right hlog hpos
    _ = 2 ^ ((m.log2 : Int) + 1 + e) := by
      rw [zpow_add₀ two_ne_zero, ← zpow_natCast, Nat.cast_add, Nat.cast_one]

/-- A number that is not too small keeps all bits of its mantissa. -/
theorem target_of_le (hlow : (2 : ℚ) ^ (-1022 : Int) ≤ m * 2 ^ e) :
    target m e = (m.log2 : Int) + 1 + e - 53 := by
  have hlt := hlow.trans_lt (lt_two_pow_log2 m e)
  rw [zpow_lt_zpow_iff_right₀ one_lt_two] at hlt
  unfold target
  omega

theorem target_le_of_lt (hm : 0 < m) (hlow : (2 : ℚ) ^ (-1022 : Int) ≤ m * 2 ^ e) {j : Int}
    (hlt : (m : ℚ) * 2 ^ e < 2 ^ j) : target m e ≤ j - 53 := by
  have hpow := (two_pow_log2_le hm e).trans_lt hlt
  rw [zpow_lt_zpow_iff_right₀ one_lt_two] at hpow
  rw [target_of_le hlow]
  omega

/-- The rounded number is at most half a unit off. -/
theorem abs_nearest_sub_le (he : e ≤ target m e) :
    |(nearest m e : ℚ) * 2 ^ target m e - m * 2 ^ e| ≤ 2 ^ (target m e - 1) := by
  have hpos : (0 : ℚ) < 2 ^ target m e := by positivity
  calc |(nearest m e : ℚ) * 2 ^ target m e - m * 2 ^ e|
      = |(nearest m e : ℚ) - m / 2 ^ dropped m e| * 2 ^ target m e := by
        rw [eq_div_dropped_mul he, ← sub_mul, abs_mul, abs_of_pos hpos]
    _ ≤ 1 / 2 * 2 ^ target m e :=
        mul_le_mul_of_nonneg_right (stands_nearest m e).abs_sub_le hpos.le
    _ = 2 ^ (target m e - 1) := by rw [zpow_sub_one₀ two_ne_zero]; ring

/-- Half a unit is little against the number. -/
theorem two_pow_target_le (hm : 0 < m) (hlow : (2 : ℚ) ^ (-1022 : Int) ≤ m * 2 ^ e) :
    (2 : ℚ) ^ (target m e - 1) ≤ m * 2 ^ e / 2 ^ 53 := by
  have hunit : (2 : ℚ) ^ (target m e - 1) = 2 ^ ((m.log2 : Int) + e) / 2 ^ 53 := by
    rw [target_of_le hlow, show (m.log2 : Int) + 1 + e - 53 - 1 = (m.log2 : Int) + e - 53 by omega,
      zpow_sub₀ two_ne_zero]
    rfl
  rw [hunit]
  exact div_le_div_of_nonneg_right (two_pow_log2_le hm e) (by positivity)

/-- A number that has a float is not changed. -/
theorem nearest_of_short (hm : 0 < m) (he : e ≤ target m e)
    (hlow : (2 : ℚ) ^ (-1022 : Int) ≤ m * 2 ^ e) {n : Nat} {f : Int} (hn : n < 2 ^ 53)
    (heq : (m : ℚ) * 2 ^ e = n * 2 ^ f) :
    (nearest m e : ℚ) * 2 ^ target m e = m * 2 ^ e := by
  have hpos : (0 : ℚ) < 2 ^ f := by positivity
  have hle : target m e ≤ f := by
    have hlt : (2 : ℚ) ^ ((m.log2 : Int) + e) < 2 ^ (53 + f) := by
      calc (2 : ℚ) ^ ((m.log2 : Int) + e) ≤ m * 2 ^ e := two_pow_log2_le hm e
        _ = n * 2 ^ f := heq
        _ < 2 ^ 53 * 2 ^ f := mul_lt_mul_of_pos_right (by exact_mod_cast hn) hpos
        _ = 2 ^ (53 + f) := by rw [zpow_add₀ two_ne_zero]; norm_num
    rw [zpow_lt_zpow_iff_right₀ one_lt_two] at hlt
    rw [target_of_le hlow]
    omega
  have hinteger : (m : ℚ) / 2 ^ dropped m e = (n * 2 ^ (f - target m e).toNat : Nat) := by
    have hunits := (eq_div_dropped_mul he).symm.trans heq
    have hfactor : (2 : ℚ) ^ f = 2 ^ (f - target m e).toNat * 2 ^ target m e := by
      rw [← zpow_natCast, ← zpow_add₀ two_ne_zero, Int.toNat_of_nonneg (by omega)]
      congr 1
      omega
    rw [hfactor, ← mul_assoc] at hunits
    push_cast
    exact mul_right_cancel₀ (by positivity) hunits
  have hstands := stands_nearest m e
  rw [hinteger] at hstands
  rw [nearest, hstands.roundedMantissa_eq, ← hinteger, eq_div_dropped_mul he]

end Distance

theorem Binary.magnitude_nonneg (b : Binary) : 0 ≤ b.magnitude := by
  unfold Binary.magnitude
  positivity

theorem Binary.magnitude_mul (a b : Binary) :
    a.magnitude * b.magnitude =
      (a.mantissa * b.mantissa : Nat) * 2 ^ (a.exponent + b.exponent) := by
  unfold Binary.magnitude
  rw [zpow_add₀ two_ne_zero]
  push_cast
  ring

theorem Binary.abs_value_mul (a b : Binary) : |a.value * b.value| = a.magnitude * b.magnitude := by
  have hnonneg := mul_nonneg a.magnitude_nonneg b.magnitude_nonneg
  rw [Binary.value_mul]
  split
  · rw [abs_neg, abs_of_nonneg hnonneg]
  · exact abs_of_nonneg hnonneg

/-- What is known of the float `r` that a number is rounded to. -/
structure Rounds (q r : ℚ) : Prop where
  abs_sub_le : |r - q| ≤ |q| / 2 ^ 53
  abs_sub_le_of_lt : ∀ j : Int, |q| < 2 ^ j → |r - q| ≤ 2 ^ (j - 54)
  eq_of_short : ∀ (n : Nat) (f : Int), n < 2 ^ 53 → |q| = n * 2 ^ f → r = q

/-- The product of two floats is rounded, if the exact product is neither too small nor too
large. -/
theorem HasValue.mul {x y : Float} {p q : ℚ} (hx : HasValue x p) (hy : HasValue y q)
    (hlow : 2 ^ (-1022 : Int) ≤ |p * q|) (hhigh : |p * q| ≤ 2 ^ (1022 : Int)) :
    ∃ r, HasValue (x * y) r ∧ Rounds (p * q) r := by
  obtain ⟨a, ha, rfl⟩ := hx
  obtain ⟨b, hb, rfl⟩ := hy
  have hne : a.mantissa * b.mantissa ≠ 0 := by
    intro hzero
    rw [Binary.abs_value_mul, Binary.magnitude_mul, hzero, Nat.cast_zero, zero_mul] at hlow
    exact absurd hlow (not_le.2 (by positivity))
  have hma := Nat.pos_of_ne_zero (left_ne_zero_of_mul hne)
  have hmb := Nat.pos_of_ne_zero (right_ne_zero_of_mul hne)
  have hm := Nat.mul_pos hma hmb
  have he := le_target (unpack_of_parts ha).1 (unpack_of_parts hb).1 hma hmb
  have habs := (Binary.abs_value_mul a b).trans (Binary.magnitude_mul a b)
  have hvalue := Binary.value_mul a b
  rw [habs] at hlow hhigh
  rw [Binary.magnitude_mul] at hvalue
  have htarget : target (a.mantissa * b.mantissa) (a.exponent + b.exponent) ≤ 970 :=
    target_le_of_lt hm hlow (hhigh.trans_lt
      (zpow_lt_zpow_right₀ one_lt_two (by decide : (1022 : Int) < 1023)))
  obtain ⟨c, hc, hnegative, hmagnitude⟩ := parts_mul ha hb hma hmb htarget
  have hnear : |c.value - a.value * b.value| ≤
      2 ^ (target (a.mantissa * b.mantissa) (a.exponent + b.exponent) - 1) := by
    have hunit := abs_nearest_sub_le he
    rw [← hmagnitude] at hunit
    rw [hvalue, Binary.value, hnegative]
    split
    · rw [← neg_add', ← sub_eq_add_neg, abs_neg]
      exact hunit
    · exact hunit
  refine ⟨c.value, ⟨c, hc, rfl⟩, ?_, fun j hj => ?_, fun n f hn heq => ?_⟩
  · rw [habs]
    exact hnear.trans (two_pow_target_le hm hlow)
  · rw [habs] at hj
    have hle := target_le_of_lt hm hlow hj
    exact hnear.trans (zpow_le_zpow_right₀ one_le_two (by omega))
  · rw [habs] at heq
    rw [hvalue, Binary.value, hnegative, hmagnitude, nearest_of_short hm he hlow hn heq]

/-- Products that are far from the least and the greatest floats. -/
theorem HasValue.mul_of_le {x y : Float} {p q : ℚ} (hx : HasValue x p) (hy : HasValue y q)
    (hlow : 1 ≤ |p * q| * 2 ^ 30) (hhigh : |p * q| ≤ 2 ^ 62) :
    ∃ r, HasValue (x * y) r ∧ Rounds (p * q) r := by
  refine hx.mul hy ?_ (hhigh.trans ?_)
  · calc (2 : ℚ) ^ (-1022 : Int) ≤ 2 ^ (-30 : Int) :=
        zpow_le_zpow_right₀ one_le_two (by decide)
      _ ≤ |p * q| := by
        rw [zpow_neg, inv_le_iff_one_le_mul₀ (by positivity)]
        exact_mod_cast hlow
  · rw [← zpow_natCast]
    exact zpow_le_zpow_right₀ one_le_two (by decide)

end LabelTemplate.Number
