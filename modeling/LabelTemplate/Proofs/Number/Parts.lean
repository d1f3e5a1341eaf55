import LabelTemplate.Number.Binary
import Mathlib

/-!
# Floats and their parts

The exact value of a float is the one that the arithmetic of floats computes with
(`unpack_of_parts`), and it always has a canonical shape.  What has that shape is
packed into a float without a change (`parts_pack`).
-/

namespace LabelTemplate.Number

open Float.Model Float.Model.UnpackedFloat

/-- The sign of a number that is negative or not. -/
def signOf (negative : Bool) : Sign := if negative then .negative else .positive

/-- The shape of the exact values that a float can have. -/
structure Binary.Canonical (b : Binary) : Prop where
  mantissa_lt : b.mantissa < 2 ^ 53
  le_exponent : -1074 ≤ b.exponent
  exponent_le : b.exponent ≤ 971
  normal : 2 ^ 52 ≤ b.mantissa ∨ b.exponent = -1074

section Bits

variable (x : Float)

theorem toNat_unpackMantissa :
    (@unpackMantissa Format.binary64 x.toModel.toBits.toBitVec).toNat =
      x.toBits.toNat % Nat.pow 2 52 := by
  rw [unpackMantissa_def, BitVec.extractLsb'_toNat, Nat.shiftRight_zero]
  rfl

theorem toNat_unpackExponent :
    (@unpackExponent Format.binary64 x.toModel.toBits.toBitVec).toNat =
      x.toBits.toNat / Nat.pow 2 52 % Nat.pow 2 11 := by
  rw [unpackExponent_def, BitVec.extractLsb'_toNat, Nat.shiftRight_eq_div_pow]
  rfl

theorem toNat_unpackSign :
    (@unpackSign Format.binary64 x.toModel.toBits.toBitVec).toNat =
      x.toBits.toNat / Nat.pow 2 63 := by
  have hlt : x.toBits.toNat / Nat.pow 2 63 < 2 :=
    Nat.div_lt_of_lt_mul x.toBits.toNat_lt
  rw [unpackSign_def, BitVec.extractLsb'_toNat, Nat.shiftRight_eq_div_pow]
  exact Nat.mod_eq_of_lt hlt

end Bits

/-- The number that packed components make. -/
theorem toNat_packComponents (s : Sign) (e : BitVec 11) (m : BitVec 52) :
    (packComponents Format.binary64 s e m).toNat =
      (s.toBitVec.toNat * 2 ^ 11 + e.toNat) * 2 ^ 52 + m.toNat := by
  change (s.toBitVec ++ e ++ m).toNat = _
  rw [BitVec.toNat_append, BitVec.toNat_append, ← Nat.shiftLeft_add_eq_or_of_lt m.isLt,
    ← Nat.shiftLeft_add_eq_or_of_lt e.isLt, Nat.shiftLeft_eq, Nat.shiftLeft_eq]

theorem toNat_signOf (negative : Bool) :
    (signOf negative).toBitVec.toNat = if negative then 1 else 0 := by
  cases negative <;> rfl

/-- The fields of a number of 64 bits. -/
theorem fields_of_bits (sign : Nat) {e m : Nat} (he : e < 2 ^ 11) (hm : m < 2 ^ 52) :
    ((sign * 2 ^ 11 + e) * 2 ^ 52 + m) / Nat.pow 2 63 = sign ∧
      ((sign * 2 ^ 11 + e) * 2 ^ 52 + m) / Nat.pow 2 52 % Nat.pow 2 11 = e ∧
      ((sign * 2 ^ 11 + e) * 2 ^ 52 + m) % Nat.pow 2 52 = m := by
  have h63 : Nat.pow 2 63 = 9223372036854775808 := rfl
  have h52 : Nat.pow 2 52 = 4503599627370496 := rfl
  have h11 : Nat.pow 2 11 = 2048 := rfl
  rw [h63, h52, h11]
  omega

/-- The parts of a float whose bits have a sign, a biased exponent and a fraction. -/
theorem parts_of_bits {x : Float} {negative : Bool} {e m : Nat} (he : e < 2047) (hm : m < 2 ^ 52)
    (hbits : x.toBits.toNat = ((if negative then 1 else 0) * 2 ^ 11 + e) * 2 ^ 52 + m) :
    parts x = .finite
      (if e = 0 then ⟨negative, m, -1074⟩ else ⟨negative, m + 2 ^ 52, (e : Int) - 1075⟩) := by
  obtain ⟨hsign, hbiased, hfraction⟩ :=
    fields_of_bits (if negative then 1 else 0) (he.trans (by decide)) hm
  rw [← hbits] at hsign hbiased hfraction
  have hnegative : decide (x.toBits.toNat ≥ Nat.pow 2 63) = negative := by
    have h63 : 0 < Nat.pow 2 63 := by decide
    cases negative
    · exact decide_eq_false (not_le.2 ((Nat.div_eq_zero_iff_lt h63).1 hsign))
    · exact decide_eq_true ((Nat.one_le_div_iff h63).1 hsign.ge)
  unfold parts
  simp only [hnegative, hbiased, hfraction]
  rw [if_neg (by omega)]
  split <;> rfl

/-- The fraction of a normal float with its leading bit. -/
theorem toNat_normal (m : BitVec 52) : (1#1 ++ m).toNat = m.toNat + Nat.pow 2 52 := by
  rw [BitVec.toNat_append, ← Nat.shiftLeft_add_eq_or_of_lt m.isLt]
  exact Nat.add_comm _ _

theorem sign_unpackSign (x : Float) :
    Sign.ofBitVec (@unpackSign Format.binary64 x.toModel.toBits.toBitVec) =
      signOf (x.toBits.toNat ≥ Nat.pow 2 63) := by
  have h63 : 0 < Nat.pow 2 63 := by decide
  have hsign := toNat_unpackSign x
  unfold Sign.ofBitVec signOf
  by_cases hlt : x.toBits.toNat < Nat.pow 2 63
  · rw [Nat.div_eq_of_lt hlt] at hsign
    rw [if_pos (BitVec.eq_of_toNat_eq hsign)]
    exact (if_neg (by simpa using hlt)).symm
  · have hne : @unpackSign Format.binary64 x.toModel.toBits.toBitVec ≠ 0#1 := by
      intro heq
      rw [heq] at hsign
      exact hlt ((Nat.div_eq_zero_iff_lt h63).1 hsign.symm)
    rw [if_neg hne]
    exact (if_pos (by simpa using hlt)).symm

/-- The exact value of a float is that of its model. -/
theorem unpack_of_parts {x : Float} {b : Binary} (h : parts x = .finite b) :
    b.Canonical ∧ x.toModel.unpack =
      if hm : b.mantissa = 0 then .zero (signOf b.negative)
      else .finite (signOf b.negative) b.mantissa b.exponent (Nat.pos_of_ne_zero hm) := by
  have hexponent := toNat_unpackExponent x
  have hmantissa := toNat_unpackMantissa x
  have hsign := sign_unpackSign x
  have hlt : (@unpackMantissa Format.binary64 x.toModel.toBits.toBitVec).toNat < 2 ^ 52 :=
    BitVec.isLt _
  have helt : (@unpackExponent Format.binary64 x.toModel.toBits.toBitVec).toNat < 2 ^ 11 :=
    BitVec.isLt _
  unfold parts at h
  dsimp only at h
  rw [← hexponent, ← hmantissa] at h
  unfold Float.Model.unpack UnpackedFloat.unpack
  dsimp only
  split at h
  · split at h <;> cases h
  · rename_i hfinite
    rw [if_neg fun heq => hfinite (congrArg BitVec.toNat heq)]
    split at h
    · rename_i hzero
      cases h
      rw [if_pos (BitVec.eq_of_toNat_eq hzero)]
      refine ⟨⟨hlt.trans (by decide), le_refl _, (by decide : (-1074 : Int) ≤ 971), .inr rfl⟩, ?_⟩
      by_cases hm : (@unpackMantissa Format.binary64 x.toModel.toBits.toBitVec).toNat = 0
      · rw [dif_pos (BitVec.eq_of_toNat_eq hm), dif_pos hm, hsign]
      · rw [dif_neg fun heq => hm (congrArg BitVec.toNat heq), dif_neg hm, hsign]
        rw [UnpackedFloat.finite.injEq]
        refine ⟨rfl, rfl, ?_⟩
        rw [hzero]
        rfl
    · rename_i hne
      cases h
      rw [if_neg fun heq => hne (congrArg BitVec.toNat heq)]
      have h52 : Nat.pow 2 52 = 2 ^ 52 := rfl
      refine ⟨⟨?_, ?_, ?_, .inl (Nat.le_add_left _ _)⟩, ?_⟩
      · dsimp only
        omega
      · dsimp only
        omega
      · dsimp only
        omega
      · rw [dif_neg (by dsimp only; omega), hsign, UnpackedFloat.finite.injEq]
        exact ⟨rfl, toNat_normal _, rfl⟩

theorem log2_eq_iff_normal {m : Nat} (hm : 0 < m) (hlt : m < 2 ^ 53) :
    m.log2 + 1 = 53 ↔ 2 ^ 52 ≤ m := by
  have hup : m.log2 < 53 := (Nat.log2_lt hm.ne').2 hlt
  rw [← Nat.le_log2 hm.ne']
  omega

theorem parts_pack_zero (negative : Bool) :
    parts (.ofModel (.pack (.zero (signOf negative)))) = .finite ⟨negative, 0, -1074⟩ := by
  cases negative <;> rfl

/-- A value of a canonical shape is packed without a change. -/
theorem parts_pack {b : Binary} (h : b.Canonical) (hm : 0 < b.mantissa) :
    parts (.ofModel (.pack (.finite (signOf b.negative) b.mantissa b.exponent hm))) =
      .finite b := by
  obtain ⟨hlt, hlow, hhigh, hnormal⟩ := h
  obtain ⟨negative, m, e⟩ := b
  dsimp only at hlt hlow hhigh hnormal hm
  have hbits : (Float.ofModel (.pack (.finite (signOf negative) m e hm))).toBits.toNat =
      (UnpackedFloat.pack Format.binary64 (.finite (signOf negative) m e hm)).toNat := rfl
  have hbias : (e + (Format.exponentBias Format.binary64 : Int) +
      (Format.mantissaBitsWithoutImplicit Format.binary64 : Int)) = e + 1075 := by
    change e + 1023 + 52 = _
    omega
  rw [UnpackedFloat.pack] at hbits
  dsimp only at hbits
  rw [hbias, if_neg (by omega)] at hbits
  split at hbits
  · rename_i hlog
    have hlow52 := (log2_eq_iff_normal hm hlt).1 hlog
    rw [toNat_packComponents, toNat_signOf, BitVec.toNat_ofNat, BitVec.toNat_ofNat,
      Nat.mod_eq_of_lt (by omega : (e + 1075).toNat < 2 ^ 11),
      (by omega : m % 2 ^ 52 = m - 2 ^ 52)] at hbits
    have hexponent : ((e + 1075).toNat : Int) - 1075 = e := by omega
    rw [parts_of_bits (by omega) (by omega) hbits, if_neg (by omega), Nat.sub_add_cancel hlow52,
      hexponent]
  · rename_i hlog
    have hlow52 := mt (log2_eq_iff_normal hm hlt).2 hlog
    obtain rfl := hnormal.resolve_left hlow52
    rw [toNat_packComponents, toNat_signOf, BitVec.toNat_ofNat, BitVec.toNat_ofNat,
      Nat.mod_eq_of_lt (not_le.1 hlow52)] at hbits
    rw [parts_of_bits (by decide) (not_le.1 hlow52) hbits, if_pos rfl]

end LabelTemplate.Number
