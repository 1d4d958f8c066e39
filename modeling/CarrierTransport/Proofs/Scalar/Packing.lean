import Mathlib
import CarrierTransport.Scalar.Binary

/-!
# Packed numbers and their exact values

A packed number consists of a sign, an exponent field and a mantissa field, and its exact value
depends on these alone. A value that has been unpacked survives packing and unpacking
(`Packed.unpack_pack_value`), with its sign changed too, so the operations on signs are exact on
packed numbers (`Packed.unpack_pack_abs`).
-/

namespace CarrierTransport.Packed

open Float.Model (Format UnpackedFloat)
open Float.Model.UnpackedFloat (Sign pack unpack packComponents packedNaN packedInfinity packedZero
  unpackSign unpackExponent unpackMantissa unpackExponent_packComponents
  unpackMantissa_packComponents)

variable {spec : Format}

/-! ### Fields -/

@[simp] theorem ofBitVec_toBitVec (s : Sign) : Sign.ofBitVec s.toBitVec = s := by
  cases s <;> rfl

@[simp] theorem unpackSign_packComponents (s : Sign) (E : BitVec spec.exponentBits)
    (M : BitVec spec.mantissaBitsWithoutImplicit) :
    unpackSign (packComponents spec s E M) = s.toBitVec := by
  ext i hi
  simp [unpackSign, packComponents, BitVec.getLsbD_eq_getElem, BitVec.getLsbD_append,
    BitVec.getElem_append, show i = 0 by omega]

/-- The exact value of a number with the given fields. -/
def value (spec : Format) (s : Sign) (E : BitVec spec.exponentBits)
    (M : BitVec spec.mantissaBitsWithoutImplicit) : UnpackedFloat :=
  unpack spec (packComponents spec s E M)

theorem value_eq (s : Sign) (E : BitVec spec.exponentBits)
    (M : BitVec spec.mantissaBitsWithoutImplicit) :
    value spec s E M =
      if E = -1#_ then
        if M = 0#_ then .infinity s else .notANumber
      else if E = 0#_ then
        if h : M = 0#_ then .zero s
        else .finite s M.toNat
          (E.toNat - (spec.exponentBias + spec.mantissaBitsWithoutImplicit) + 1) (by simpa [BitVec.toNat_pos, BitVec.pos_iff_ne_zero])
      else .finite s (1#1 ++ M).toNat
        (E.toNat - (spec.exponentBias + spec.mantissaBitsWithoutImplicit)) (by simp) := by
  simp only [value, unpack, unpackExponent_packComponents, unpackMantissa_packComponents,
    unpackSign_packComponents, ofBitVec_toBitVec]

theorem unpack_eq_value (b : BitVec spec.numBits) :
    unpack spec b =
      value spec (Sign.ofBitVec (unpackSign b)) (unpackExponent b) (unpackMantissa b) := by
  rw [value_eq]
  rfl

theorem abs_value (s : Sign) (E : BitVec spec.exponentBits)
    (M : BitVec spec.mantissaBitsWithoutImplicit) :
    (value spec s E M).abs = value spec .positive E M := by
  rw [value_eq, value_eq]
  split_ifs <;> rfl

/-! ### Packing a value -/

variable (hwide : 1 < spec.exponentBits) (s : Sign) (E : BitVec spec.exponentBits)
  (M : BitVec spec.mantissaBitsWithoutImplicit)

include hwide in
theorem four_le_two_pow_exponentBits : 4 ≤ 2 ^ spec.exponentBits :=
  Nat.pow_le_pow_right (n := 2) (by norm_num) hwide

/-- The exponent field of a finite number leaves room for one more. -/
theorem toNat_exponent_lt (hE : E ≠ -1#_) : E.toNat + 1 < 2 ^ spec.exponentBits := by
  have hlt := E.isLt
  have hne : E.toNat ≠ 2 ^ spec.exponentBits - 1 := by
    intro h
    apply hE
    rw [BitVec.neg_one_eq_allOnes, ← BitVec.toNat_inj, BitVec.toNat_allOnes, h]
  omega

theorem toNat_append : (1#1 ++ M).toNat = 2 ^ spec.mantissaBitsWithoutImplicit + M.toNat := by
  have hadd := Nat.two_pow_add_eq_or_of_lt M.isLt 1
  rw [mul_one] at hadd
  rw [BitVec.toNat_append, Nat.shiftLeft_eq, hadd]
  simp

/-- With its implicit bit a mantissa has full length. -/
theorem log2_append : (1#1 ++ M).toNat.log2 + 1 = spec.mantissaBits := by
  have hM := M.isLt
  rw [toNat_append, Format.mantissaBits, add_comm]
  congr 1
  rw [Nat.log2_eq_iff (by omega), pow_succ]
  omega

theorem log2_mantissa_ne (hM : M ≠ 0#_) : M.toNat.log2 + 1 ≠ spec.mantissaBits := by
  have hne : M.toNat ≠ 0 := fun h => hM (BitVec.toNat_inj.1 (by simpa using h))
  have hlt := (Nat.log2_lt hne).2 M.isLt
  rw [Format.mantissaBits]
  omega

include hwide in
theorem pack_subnormal (hM : M ≠ 0#_) (hpos : 0 < M.toNat) :
    pack spec (.finite s M.toNat
      ((0#_ : BitVec spec.exponentBits).toNat -
        (spec.exponentBias + spec.mantissaBitsWithoutImplicit) + 1) hpos) = packComponents spec s 0#_ M := by
  have hfour := four_le_two_pow_exponentBits hwide
  have hbiased : (((0#_ : BitVec spec.exponentBits).toNat : Int) -
      (spec.exponentBias + spec.mantissaBitsWithoutImplicit) + 1 + spec.exponentBias +
        spec.mantissaBitsWithoutImplicit).toNat = 1 := by
    rw [BitVec.toNat_zero]
    omega
  simp only [pack, hbiased]
  rw [if_neg (by omega), if_neg (log2_mantissa_ne M hM), BitVec.ofNat_toNat, BitVec.setWidth_eq]

theorem pack_normal (hE : E ≠ -1#_) (hpos : 0 < (1#1 ++ M).toNat) :
    pack spec (.finite s (1#1 ++ M).toNat
      (E.toNat - (spec.exponentBias + spec.mantissaBitsWithoutImplicit)) hpos) =
        packComponents spec s E M := by
  have hroom := toNat_exponent_lt E hE
  have hbiased : ((E.toNat : Int) - (spec.exponentBias + spec.mantissaBitsWithoutImplicit) +
      spec.exponentBias + spec.mantissaBitsWithoutImplicit).toNat = E.toNat := by
    omega
  have hmantissa : BitVec.ofNat spec.mantissaBitsWithoutImplicit (1#1 ++ M).toNat = M := by
    rw [← BitVec.toNat_inj, BitVec.toNat_ofNat, toNat_append, Nat.add_mod_left,
      Nat.mod_eq_of_lt M.isLt]
  simp only [pack, hbiased]
  rw [if_neg (by omega), if_pos (log2_append M), hmantissa, BitVec.ofNat_toNat, BitVec.setWidth_eq]

include hwide in
/-- Packing restores the fields of every number. -/
theorem pack_value (h : E = -1#_ → M = 0#_) :
    pack spec (value spec s E M) = packComponents spec s E M := by
  rw [value_eq]
  split_ifs with hE hM hE₀ hM
  · rw [hE, hM]
    rfl
  · exact absurd (h hE) hM
  · rw [hE₀, hM]
    rfl
  · rw [hE₀]
    exact pack_subnormal hwide s M hM _
  · exact pack_normal s E M hE _

include hwide in
theorem unpack_pack_value : unpack spec (pack spec (value spec s E M)) = value spec s E M := by
  by_cases h : E = -1#_ → M = 0#_
  · rw [pack_value hwide s E M h, value]
  -- what is not a number has one representation, with a mantissa that is not zero
  · obtain ⟨hE, hM⟩ := Classical.not_imp.1 h
    have hnan : value spec s E M = .notANumber := by rw [value_eq, if_pos hE, if_neg hM]
    have hone : (1#_ : BitVec spec.mantissaBitsWithoutImplicit) <<<
        (spec.mantissaBitsWithoutImplicit - 1) ≠ 0#_ := by
      intro hzero
      have hbit := congrArg (fun v => v.getLsbD (spec.mantissaBitsWithoutImplicit - 1)) hzero
      have hm := spec.hm
      simp [BitVec.getLsbD_shiftLeft] at hbit
      omega
    rw [hnan, pack, packedNaN]
    exact (value_eq _ _ _).trans (by rw [if_pos rfl, if_neg hone])

include hwide in
theorem unpack_pack_abs (b : BitVec spec.numBits) :
    unpack spec (pack spec (unpack spec b).abs) = (unpack spec b).abs := by
  rw [unpack_eq_value b, abs_value, unpack_pack_value hwide]

end CarrierTransport.Packed
