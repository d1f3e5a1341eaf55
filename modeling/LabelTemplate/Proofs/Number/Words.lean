import LabelTemplate.Proofs.Number.Rounding

/-!
# Floats as words

What a float comes to where a natural number of a machine word is wanted.  A float
below zero and one that is no number are recognized (`HasValue.lt_zero_iff`), and
the others lose their fraction: the word is the integer just below the value as long
as that is a word (`HasValue.toWord_floor`), and the greatest word from there on,
also for the infinite float (`HasValue.toWord_large`, `toWord_infinite`).

`AsWord` lists these cases, and each float is in exactly one (`asWord_iff`).
-/

namespace LabelTemplate.Number

open Float.Model Float.Model.UnpackedFloat

variable {x : Float} {q : ℚ}

/-! ## Below zero -/

theorem unpack_of_infinite {negative : Bool} (h : parts x = .infinite negative) :
    x.toModel.unpack = .infinity (signOf negative) := by
  have hexponent := toNat_unpackExponent x
  have hmantissa := toNat_unpackMantissa x
  have hsign := sign_unpackSign x
  unfold parts at h
  dsimp only at h
  rw [← hexponent, ← hmantissa] at h
  unfold Float.Model.unpack UnpackedFloat.unpack
  dsimp only
  split at h
  · rename_i hbiased
    rw [if_pos (BitVec.eq_of_toNat_eq hbiased)]
    split at h
    · rename_i hfraction
      cases h
      rw [if_pos (BitVec.eq_of_toNat_eq hfraction), hsign]
    · cases h
  · split at h <;> cases h

theorem lt_zero_iff_compare (x : Float) :
    x < 0.0 ↔ x.toModel.unpack.compare (.zero .positive) = some .lt := by
  change Float.lt x 0.0 = true ↔ _
  unfold Float.lt
  rw [decide_eq_true_iff]
  change Float.Model.lt _ _ = true ↔ _
  unfold Float.Model.lt UnpackedFloat.lt
  rw [beq_iff_eq]
  rfl

theorem infinite_lt_zero_iff {negative : Bool} (h : parts x = .infinite negative) :
    x < 0.0 ↔ negative = true := by
  rw [lt_zero_iff_compare, unpack_of_infinite h]
  cases negative <;> simp [signOf, UnpackedFloat.compare]

theorem Binary.value_neg_iff (b : Binary) : b.value < 0 ↔ b.negative = true ∧ b.mantissa ≠ 0 := by
  have hpos : (0 : ℚ) < 2 ^ b.exponent := zpow_pos two_pos _
  unfold value
  split
  · rename_i hnegative
    rw [neg_lt_zero, magnitude, mul_pos_iff_of_pos_right hpos, Nat.cast_pos, Nat.pos_iff_ne_zero]
    simp [hnegative]
  · rename_i hnegative
    simp [hnegative, b.magnitude_nonneg]

theorem HasValue.lt_zero_iff (h : HasValue x q) : x < 0.0 ↔ q < 0 := by
  obtain ⟨b, hb, rfl⟩ := h
  obtain ⟨-, hunpack⟩ := unpack_of_parts hb
  rw [lt_zero_iff_compare, hunpack, b.value_neg_iff]
  split
  · rename_i hzero
    simp [UnpackedFloat.compare, hzero]
  · rename_i hne
    cases b.negative <;> simp [signOf, UnpackedFloat.compare, hne]

/-! ## Without the fraction -/

theorem Binary.floorNat_eq (b : Binary) : b.floorNat = ⌊b.magnitude⌋₊ := by
  unfold floorNat magnitude
  split
  · rename_i hnonneg
    obtain ⟨n, hn⟩ := Int.eq_ofNat_of_zero_le hnonneg
    rw [hn, Int.toNat_natCast, Nat.pow_eq, zpow_natCast]
    exact_mod_cast (Nat.floor_natCast (b.mantissa * 2 ^ n)).symm
  · rename_i hnegative
    obtain ⟨n, hn⟩ : ∃ n : Nat, b.exponent = -(n : Int) := ⟨(-b.exponent).toNat, by omega⟩
    rw [hn, neg_neg, Int.toNat_natCast, Nat.pow_eq, zpow_neg, zpow_natCast, ← div_eq_mul_inv]
    exact_mod_cast (Nat.floor_div_eq_div (K := ℚ) b.mantissa (2 ^ n)).symm

theorem Binary.truncate_eq (b : Binary) (h : 0 ≤ b.value) : b.truncate = ⌊b.value⌋₊ := by
  unfold truncate
  unfold value at h ⊢
  rw [floorNat_eq]
  split
  · rename_i hnegative
    rw [if_pos hnegative] at h
    have hzero : b.magnitude = 0 := le_antisymm (neg_nonneg.1 h) b.magnitude_nonneg
    simp [hzero]
  · rfl

theorem HasValue.toWord_eq (h : HasValue x q) (hq : 0 ≤ q) : toWord x = min wordMax ⌊q⌋₊ := by
  obtain ⟨b, hb, rfl⟩ := h
  unfold toWord clampInt
  rw [hb]
  dsimp only
  rw [b.truncate_eq hq]
  omega

theorem toWord_infinite (h : parts x = .infinite false) : toWord x = wordMax := by
  rw [toWord, clampInt, h]
  rfl

/-! ## What a float comes to -/

/-- The word that a float is cut to, unless it is no number or below zero. -/
def toWord? (x : Float) : Option Nat :=
  if isNaN x || x < 0.0 then none else some (toWord x)

/-- The result for every kind of float. -/
inductive AsWord (x : Float) : Option Nat → Prop
  | nan (h : parts x = .nan) : AsWord x none
  | belowAll (h : parts x = .infinite true) : AsWord x none
  | negative {q : ℚ} (h : HasValue x q) (hq : q < 0) : AsWord x none
  | floor {q : ℚ} {k : Nat} (h : HasValue x q) (hlow : k ≤ q) (hhigh : q < k + 1)
      (hlt : q < 2 ^ 64) : AsWord x (some k)
  | large {q : ℚ} (h : HasValue x q) (hq : 2 ^ 64 ≤ q) : AsWord x (some (2 ^ 64 - 1))
  | aboveAll (h : parts x = .infinite false) : AsWord x (some (2 ^ 64 - 1))

theorem toWord?_of_lt (h : x < 0.0) : toWord? x = none := by
  simp [toWord?, h]

theorem toWord?_of_not_lt (hparts : parts x ≠ .nan) (h : ¬ x < 0.0) :
    toWord? x = some (toWord x) := by
  simp [toWord?, isNaN, hparts, h]

theorem HasValue.toWord?_eq (h : HasValue x q) (hq : 0 ≤ q) :
    toWord? x = some (min wordMax ⌊q⌋₊) := by
  have hparts : parts x ≠ .nan := by
    obtain ⟨b, hb, -⟩ := h
    simp [hb]
  rw [toWord?_of_not_lt hparts (mt h.lt_zero_iff.1 (not_lt.2 hq)), h.toWord_eq hq]

theorem AsWord.toWord?_eq {r : Option Nat} (h : AsWord x r) : toWord? x = r := by
  have hmax : ((wordMax + 1 : Nat) : ℚ) = 2 ^ 64 := by norm_num [wordMax, UInt64.size]
  cases h with
  | nan h => simp [toWord?, isNaN, h]
  | belowAll h => exact toWord?_of_lt ((infinite_lt_zero_iff h).2 rfl)
  | negative h hq => exact toWord?_of_lt (h.lt_zero_iff.2 hq)
  | @floor q k h hlow hhigh hlt =>
    have hq : 0 ≤ q := (Nat.cast_nonneg k).trans hlow
    have hfloor : ⌊q⌋₊ = k := (Nat.floor_eq_iff hq).2 ⟨hlow, hhigh⟩
    have hword : ⌊q⌋₊ < wordMax + 1 := (Nat.floor_lt hq).2 (hmax ▸ hlt)
    rw [h.toWord?_eq hq, min_eq_right (Nat.lt_succ_iff.1 hword), hfloor]
  | @large q h hq =>
    have hword : wordMax + 1 ≤ ⌊q⌋₊ := Nat.le_floor (hmax ▸ hq)
    rw [h.toWord?_eq ((by positivity : (0 : ℚ) ≤ 2 ^ 64).trans hq),
      min_eq_left (Nat.le_of_succ_le hword)]
    rfl
  | aboveAll h =>
    rw [toWord?_of_not_lt (by simp [h]) (by simp [infinite_lt_zero_iff h]), toWord_infinite h]
    rfl

theorem exists_asWord (x : Float) : ∃ r, AsWord x r := by
  cases hparts : parts x with
  | nan => exact ⟨_, .nan hparts⟩
  | infinite negative =>
    cases negative with
    | true => exact ⟨_, .belowAll hparts⟩
    | false => exact ⟨_, .aboveAll hparts⟩
  | finite b =>
    have hvalue : HasValue x b.value := ⟨b, hparts, rfl⟩
    rcases lt_or_ge b.value 0 with hneg | hq
    · exact ⟨_, .negative hvalue hneg⟩
    · rcases lt_or_ge b.value (2 ^ 64) with hlt | hlarge
      · exact ⟨_, .floor hvalue (Nat.floor_le hq) (Nat.lt_floor_add_one _) hlt⟩
      · exact ⟨_, .large hvalue hlarge⟩

/-- The kind of a float decides what it comes to. -/
theorem asWord_iff {r : Option Nat} : AsWord x r ↔ toWord? x = r := by
  refine ⟨AsWord.toWord?_eq, ?_⟩
  rintro rfl
  obtain ⟨r, hr⟩ := exists_asWord x
  rwa [hr.toWord?_eq]

end LabelTemplate.Number
