import LabelTemplate.Number.Text
import LabelTemplate.Proofs.Number.Rounding

/-!
# Integers as floats

An integer of at most 53 bits that is spelled in digits is read as the float with
that value (`SpellsInteger.hasValue`), and a float that is less than a half away from
an integer is rounded to it (`HasValue.nearestInt64`).
-/

namespace LabelTemplate.Number

open Float.Model Float.Model.UnpackedFloat

/-! ## From integers to floats -/

theorem parts_neg {x : Float} {b : Binary} (h : parts x = .finite b) :
    parts (-x) = .finite ⟨!b.negative, b.mantissa, b.exponent⟩ := by
  obtain ⟨hcanonical, hunpack⟩ := unpack_of_parts h
  have hsign : -signOf b.negative = signOf (!b.negative) := by
    cases b.negative <;> rfl
  change parts (.ofModel (.pack x.toModel.unpack.neg)) = _
  rw [hunpack]
  split
  · rename_i hzero
    have hexponent : b.exponent = -1074 := hcanonical.normal.resolve_left (by omega)
    rw [UnpackedFloat.neg, hsign, hzero, hexponent]
    exact parts_pack_zero _
  · rename_i hne
    rw [UnpackedFloat.neg, hsign]
    exact parts_pack (b := ⟨!b.negative, b.mantissa, b.exponent⟩)
      ⟨hcanonical.mantissa_lt, hcanonical.le_exponent, hcanonical.exponent_le, hcanonical.normal⟩
      (Nat.pos_of_ne_zero hne)

theorem HasValue.neg {x : Float} {q : ℚ} (h : HasValue x q) : HasValue (-x) (-q) := by
  obtain ⟨b, hb, rfl⟩ := h
  refine ⟨_, parts_neg hb, ?_⟩
  unfold Binary.value Binary.magnitude
  cases b.negative <;> simp

/-- The digits that an integer is short of a full mantissa. -/
def missing (n : Nat) : Nat := 52 - n.log2

section Short

variable {n : Nat}

theorem log2_shiftLeft_missing (hn : 0 < n) (hlt : n < 2 ^ 53) : (n <<< missing n).log2 = 52 := by
  have hlog := (Nat.log2_lt hn.ne').2 hlt
  have hup := Nat.lt_log2_self (n := n)
  have hlow := Nat.log2_self_le hn.ne'
  have hsum : n.log2 + missing n = 52 := by
    unfold missing
    omega
  have hpos : 0 < 2 ^ missing n := Nat.two_pow_pos _
  rw [Nat.shiftLeft_eq, Nat.log2_eq_iff (Nat.mul_pos hn hpos).ne', ← hsum]
  constructor
  · rw [pow_add]
    exact Nat.mul_le_mul_right _ hlow
  · rw [show n.log2 + missing n + 1 = n.log2 + 1 + missing n by omega, pow_add]
    exact Nat.mul_lt_mul_of_pos_right hup hpos

/-- An integer is brought to a full mantissa before it is rounded. -/
theorem toFloat_eq (hn : 0 < n) (hlt : n < 2 ^ 53) :
    n.toUInt64.toFloat = .ofModel (.pack (roundWithAccuracy Format.binary64 (signOf false)
      (n <<< missing n) (-(missing n : Int)) .exact)) := by
  have hword : n.toUInt64.toNat = n := Nat.mod_eq_of_lt (hlt.trans (by decide))
  have hlog := (Nat.log2_lt hn.ne').2 hlt
  have htarget : (-target n 0).toNat = missing n := by
    unfold target missing
    omega
  have hcompare : compare (n : Int) 0 = .gt := Int.compare_eq_gt.2 (by omega)
  change Float.ofModel (.pack (UnpackedFloat.normalize Format.binary64
    (n.toUInt64.toNat : Int) 0 .positive)) = _
  rw [hword, UnpackedFloat.normalize, hcompare]
  simp only [UnpackedFloat.round, decreaseExponent, targetExponent_eq, Int.toNat_natCast, zero_sub,
    htarget]
  rfl

theorem hasValue_toFloat (hn : 0 < n) (hlt : n < 2 ^ 53) : HasValue n.toUInt64.toFloat n := by
  have hlog := log2_shiftLeft_missing hn hlt
  have hpos : 0 < n <<< missing n := by
    rw [Nat.shiftLeft_eq]
    exact Nat.mul_pos hn (Nat.two_pow_pos _)
  have hmissing : missing n ≤ 52 := Nat.sub_le _ _
  have htarget : target (n <<< missing n) (-(missing n : Int)) = -(missing n : Int) := by
    unfold target
    rw [hlog]
    omega
  have hvalue : ((n <<< missing n : Nat) : ℚ) * 2 ^ (-(missing n : Int)) = n := by
    rw [Nat.shiftLeft_eq, zpow_neg, zpow_natCast]
    push_cast
    field_simp
  have hlow : (2 : ℚ) ^ (-1022 : Int) ≤ (n <<< missing n : Nat) * 2 ^ (-(missing n : Int)) := by
    rw [hvalue]
    calc (2 : ℚ) ^ (-1022 : Int) ≤ 1 := zpow_le_one_of_nonpos₀ one_le_two (by decide)
      _ ≤ n := by exact_mod_cast hn
  obtain ⟨b, hb, hnegative, hmagnitude⟩ :=
    parts_roundWithAccuracy false hpos htarget.ge (htarget.trans_le (by omega))
  rw [nearest_of_short (n := n) (f := 0) hpos htarget.ge hlow hlt (by rw [hvalue]; simp), hvalue]
    at hmagnitude
  rw [toFloat_eq hn hlt]
  refine ⟨b, hb, ?_⟩
  rw [Binary.value, hnegative, hmagnitude]
  rfl

/-- The float that a positive integer of at most 53 bits is written to. -/
theorem hasValue_ofScientific (hn : 0 < n) (hlt : n < 2 ^ 53) :
    HasValue (Float.ofScientific n false 0) n := by
  have hone : HasValue (Float.ofBits 0x3FF0000000000000) 1 :=
    ⟨⟨false, 2 ^ 52, -52⟩, by decide +kernel, by norm_num [Binary.value, Binary.magnitude]⟩
  have hscientific : Float.ofScientific n false 0 =
      n.toUInt64.toFloat * Float.ofBits 0x3FF0000000000000 := by
    unfold Float.ofScientific
    rw [dif_pos ⟨hlt, Nat.zero_le _⟩]
    rfl
  have habs : |(n : ℚ) * 1| = n := by rw [mul_one, Nat.abs_cast]
  have hlow : (1 : ℚ) ≤ n := by exact_mod_cast hn
  have hhigh : (n : ℚ) < 2 ^ 53 := by exact_mod_cast hlt
  obtain ⟨r, hr, hround⟩ := (hasValue_toFloat hn hlt).mul_of_le hone
    (by rw [habs]; linarith) (by rw [habs]; linarith)
  rw [hscientific]
  rw [hround.eq_of_short n 0 hlt (by rw [habs, zpow_zero, mul_one]), mul_one] at hr
  exact hr

end Short

/-- The float of a decimal without a scale. -/
theorem hasValue_ofDecimal (negative : Bool) {n : Nat} (hlt : n < 2 ^ 53) :
    HasValue (ofDecimal negative n 0) (if negative then -(n : ℚ) else n) := by
  have hmagnitude : HasValue (ofDecimal false n 0) n := by
    obtain rfl | hn := Nat.eq_zero_or_pos n
    · exact ⟨⟨false, 0, -1074⟩, by decide +kernel, by simp [Binary.value, Binary.magnitude]⟩
    · have hlog := (Nat.log2_lt hn.ne').2 hlt
      have hsmall : ¬ ((n.log2 : Int) * 30103 / 100000 + 0 > 400) := by omega
      have hlarge : ¬ ((n.log2 : Int) * 30103 / 100000 + 0 < -400) := by omega
      have hdecimal : ofDecimal false n 0 = Float.ofScientific n false 0 := by
        unfold ofDecimal
        dsimp only
        rw [if_neg hn.ne', if_neg hsmall, if_neg hlarge, if_pos (le_refl _)]
        exact congrArg (Float.ofScientific · false 0) (Nat.mul_one n)
      rw [hdecimal]
      exact hasValue_ofScientific hn hlt
  cases negative with
  | false => exact hmagnitude
  | true => exact hmagnitude.neg

/-! ## Spelled integers -/

/-- A sign, if any, and the digits of an integer. -/
inductive SpellsInteger : String → Int → Prop where
  | plain {digits : List Char} (hne : digits ≠ []) (hdigits : ∀ c ∈ digits, isDigit c = true) :
      SpellsInteger (String.ofList digits) (digitsValue digits)
  | plus {digits : List Char} (hne : digits ≠ []) (hdigits : ∀ c ∈ digits, isDigit c = true) :
      SpellsInteger (String.ofList ('+' :: digits)) (digitsValue digits)
  | minus {digits : List Char} (hne : digits ≠ []) (hdigits : ∀ c ∈ digits, isDigit c = true) :
      SpellsInteger (String.ofList ('-' :: digits)) (-digitsValue digits)

section Digits

variable {digits : List Char} (hne : digits ≠ []) (hdigits : ∀ c ∈ digits, isDigit c = true)

include hne hdigits

theorem head_isDigit : ∃ c rest, digits = c :: rest ∧ isDigit c = true := by
  obtain ⟨c, rest, rfl⟩ := List.exists_cons_of_ne_nil hne
  exact ⟨c, rest, rfl, hdigits c List.mem_cons_self⟩

/-- Digits are no name of a number. -/
theorem ofList_digits_ne {first : Char} (hfirst : isDigit first = false) (rest : List Char) :
    String.ofList (digits.map Char.toLower) ≠ String.ofList (first :: rest) := by
  obtain ⟨c, later, rfl, hc⟩ := head_isDigit hne hdigits
  intro heq
  rw [String.ofList_inj, List.map_cons, List.cons.injEq] at heq
  have hlower : c.toLower = c := by
    obtain ⟨-, hnine⟩ := Bool.and_eq_true_iff.1 hc
    refine dif_neg fun hletter => ?_
    exact absurd (UInt32.le_trans hletter.1 (of_decide_eq_true hnine)) (by decide)
  rw [hlower] at heq
  rw [← heq.1, hc] at hfirst
  cases hfirst

/-- Digits are a decimal without an exponent. -/
theorem split_digits (more : Char → Bool) :
    splitDecimal? (digits.takeWhile fun c => isDigit c || more c) = some (digits, []) ∧
      readExponent? (digits.dropWhile fun c => isDigit c || more c) = some 0 := by
  have hall : ∀ c ∈ digits, (isDigit c || more c) = true := fun c hc =>
    Bool.or_eq_true_iff.2 (.inl (hdigits c hc))
  rw [List.takeWhile_eq_self_iff.2 hall, List.dropWhile_eq_nil_iff.2 hall]
  refine ⟨?_, rfl⟩
  unfold splitDecimal?
  rw [List.takeWhile_eq_self_iff.2 hdigits, List.dropWhile_eq_nil_iff.2 hdigits]
  simp [hne]

/-- Digits behind a sign are read as one number. -/
theorem parseFloat?_signed (sign : List Char) (hsign : sign = [] ∨ sign = ['+'] ∨ sign = ['-']) :
    parseFloat? (String.ofList (sign ++ digits)) =
      some (ofDecimal (sign == ['-']) (digitsValue digits) 0) := by
  obtain ⟨hsplit, hexponent⟩ := split_digits hne hdigits (· == '.')
  have hinf : String.ofList (digits.map Char.toLower) ≠ "inf" :=
    ofList_digits_ne hne hdigits (by decide) "nf".toList
  have hinfinity : String.ofList (digits.map Char.toLower) ≠ "infinity" :=
    ofList_digits_ne hne hdigits (by decide) "nfinity".toList
  have hnan : String.ofList (digits.map Char.toLower) ≠ "nan" :=
    ofList_digits_ne hne hdigits (by decide) "an".toList
  have hminus : ∀ rest, digits ≠ '-' :: rest := by
    rintro rest rfl
    cases hdigits _ List.mem_cons_self
  have hplus : ∀ rest, digits ≠ '+' :: rest := by
    rintro rest rfl
    cases hdigits _ List.mem_cons_self
  obtain rfl | rfl | rfl := hsign <;> unfold parseFloat? <;>
    simp only [String.toList_ofList, List.nil_append, List.cons_append, hsplit, hexponent,
      List.append_nil] <;> rfl

end Digits

theorem SpellsInteger.parseFloat?_eq {text : String} {k : Int} (h : SpellsInteger text k) :
    ∃ negative n, k = (if negative then -(n : Int) else n) ∧
      parseFloat? text = some (ofDecimal negative n 0) := by
  cases h with
  | plain hne hdigits => exact ⟨false, _, rfl, parseFloat?_signed hne hdigits [] (.inl rfl)⟩
  | plus hne hdigits =>
    exact ⟨false, _, rfl, parseFloat?_signed hne hdigits ['+'] (.inr (.inl rfl))⟩
  | minus hne hdigits =>
    exact ⟨true, _, rfl, parseFloat?_signed hne hdigits ['-'] (.inr (.inr rfl))⟩

/-- An integer of at most 53 bits that is spelled is read as the float with its value. -/
theorem SpellsInteger.hasValue {text : String} {k : Int} (h : SpellsInteger text k)
    (hk : |k| < 2 ^ 53) : ∃ x, parseFloat? text = some x ∧ HasValue x k := by
  obtain ⟨negative, n, rfl, hread⟩ := h.parseFloat?_eq
  have habs : |if negative then -(n : Int) else n| = n := by
    cases negative with
    | false => exact Nat.abs_cast n
    | true => exact (abs_neg _).trans (Nat.abs_cast n)
  have hlt : n < 2 ^ 53 := by
    rw [habs] at hk
    exact_mod_cast hk
  refine ⟨_, hread, ?_⟩
  push_cast
  exact hasValue_ofDecimal negative hlt

/-! ## From floats to integers -/

theorem Binary.abs_nearestNat_sub_le (b : Binary) : |(b.nearestNat : ℚ) - b.magnitude| ≤ 1 / 2 := by
  unfold nearestNat magnitude
  split
  · rename_i hnonneg
    obtain ⟨n, hn⟩ := Int.eq_ofNat_of_zero_le hnonneg
    rw [hn, Int.toNat_natCast, Nat.pow_eq, zpow_natCast]
    push_cast
    rw [sub_self, abs_zero]
    positivity
  · rename_i hnegative
    obtain ⟨n, hn⟩ : ∃ n : Nat, b.exponent = -((n + 1 : Nat) : Int) :=
      ⟨(-b.exponent).toNat - 1, by omega⟩
    have hunit : (-b.exponent).toNat = n + 1 := by omega
    have hhalf : Nat.pow 2 (n + 1) / 2 = 2 ^ n := by
      rw [Nat.pow_eq, pow_succ, Nat.mul_div_cancel _ two_pos]
    dsimp only
    rw [hunit, hhalf, Nat.pow_eq, hn, zpow_neg, zpow_natCast, ← div_eq_mul_inv]
    have hpos : (0 : ℚ) < 2 ^ (n + 1) := by positivity
    have htwice : (2 : ℚ) ^ (n + 1) = 2 ^ n * 2 := pow_succ _ _
    have hdiv : ∀ k : Nat, (k : ℚ) - b.mantissa / 2 ^ (n + 1) =
        (k * 2 ^ (n + 1) - b.mantissa) / 2 ^ (n + 1) := fun k => by field_simp
    have hlow : ((b.mantissa + 2 ^ n) / 2 ^ (n + 1) : Nat) * (2 : ℚ) ^ (n + 1) ≤
        b.mantissa + 2 ^ n := by
      exact_mod_cast Nat.div_mul_le_self (b.mantissa + 2 ^ n) (2 ^ (n + 1))
    have hhigh : (b.mantissa + 2 ^ n : ℚ) <
        ((b.mantissa + 2 ^ n) / 2 ^ (n + 1) : Nat) * 2 ^ (n + 1) + 2 ^ (n + 1) := by
      exact_mod_cast Nat.lt_div_mul_add (a := b.mantissa + 2 ^ n) (Nat.two_pow_pos (n + 1))
    rw [hdiv, abs_le, le_div_iff₀ hpos, div_le_iff₀ hpos]
    constructor <;> linarith

theorem Binary.abs_round_sub_le (b : Binary) : |(b.round : ℚ) - b.value| ≤ 1 / 2 := by
  have hnear := b.abs_nearestNat_sub_le
  unfold round value
  split
  · rw [Int.cast_neg, Int.cast_natCast, ← neg_sub', abs_neg]
    exact hnear
  · exact hnear

/-- A float that is less than a half away from an integer of 64 bits is rounded to it. -/
theorem HasValue.nearestInt64 {x : Float} {q : ℚ} {k : Int} (hx : HasValue x q)
    (hnear : |q - k| < 1 / 2) (hlow : Int64.minValue.toInt ≤ k) (hhigh : k ≤ Int64.maxValue.toInt) :
    nearestInt64 x = k := by
  obtain ⟨b, hb, rfl⟩ := hx
  have hclose : |(b.round : ℚ) - k| < 1 :=
    calc |(b.round : ℚ) - k| ≤ |(b.round : ℚ) - b.value| + |b.value - k| := abs_sub_le _ _ _
      _ < 1 / 2 + 1 / 2 := add_lt_add_of_le_of_lt b.abs_round_sub_le hnear
      _ = 1 := by norm_num
  have hround : b.round = k := by
    have hlt : |b.round - k| < 1 := by exact_mod_cast hclose
    rwa [Int.abs_lt_one_iff, sub_eq_zero] at hlt
  unfold Number.nearestInt64 clampInt
  rw [hb]
  dsimp only
  rw [hround, min_eq_right hhigh, max_eq_right hlow]

/-- What a float is rounded to fits into 64 bits. -/
theorem nearestInt64_mem (x : Float) :
    Int64.minValue.toInt ≤ nearestInt64 x ∧ nearestInt64 x ≤ Int64.maxValue.toInt := by
  have hle : Int64.minValue.toInt ≤ Int64.maxValue.toInt := by decide
  have hzero : Int64.minValue.toInt ≤ 0 ∧ 0 ≤ Int64.maxValue.toInt := by decide
  unfold nearestInt64 clampInt
  split
  · exact hzero
  · split
    · exact ⟨le_refl _, hle⟩
    · exact ⟨hle, le_refl _⟩
  · exact ⟨le_max_left _ _, max_le hle (min_le_left _ _)⟩

/-- A zero stays zero when it is multiplied. -/
theorem HasValue.zero_mul {x y : Float} {q : ℚ} (hx : HasValue x 0) (hy : HasValue y q) :
    HasValue (x * y) 0 := by
  obtain ⟨a, ha, hzero⟩ := hx
  obtain ⟨b, hb, -⟩ := hy
  have hma : a.mantissa = 0 := by
    have hmagnitude : a.magnitude = 0 := by
      unfold Binary.value at hzero
      split at hzero
      · exact neg_eq_zero.1 hzero
      · exact hzero
    unfold Binary.magnitude at hmagnitude
    exact_mod_cast (mul_eq_zero.1 hmagnitude).resolve_right (zpow_ne_zero _ two_ne_zero)
  obtain ⟨-, hxa⟩ := unpack_of_parts ha
  obtain ⟨-, hyb⟩ := unpack_of_parts hb
  rw [dif_pos hma] at hxa
  have hmul : x * y = .ofModel (.pack (.zero (signOf (a.negative != b.negative)))) := by
    change Float.ofModel (.pack (UnpackedFloat.mul Format.binary64 x.toModel.unpack
      y.toModel.unpack)) = _
    rw [hxa, hyb]
    split <;> cases a.negative <;> cases b.negative <;> rfl
  exact ⟨_, hmul ▸ parts_pack_zero _, by simp [Binary.value, Binary.magnitude]⟩

end LabelTemplate.Number
