import Mathlib
import CarrierTransport.Proofs.Scalar.Arithmetic

/-!
# Scalar types with correctly rounded arithmetic

`RoundedScalar` states of a precision that its operations store the exact result rounded to nearest
and that a natural number is converted through double precision. Both precisions of a simulation
are of this kind; only the conversion of a natural number (`place_ofNat`) takes more than a look at
the definitions, as it has a faster way for short numbers.
-/

namespace CarrierTransport

open Float.Model (Format UnpackedFloat)
open Rounding (IsCanonical nearest stored)

/-- The place of a number on the line, that of an infinity at the limit of the format. -/
def BinaryScalar.place {α : Type} [BinaryScalar α] (a : α) : Option ℚ :=
  Rounding.place (BinaryScalar.format α) (BinaryScalar.unpack a)

open BinaryScalar (unpack pack place IsFinite)

/-- A binary scalar type whose operations round the exact result to nearest. -/
class RoundedScalar (α : Type) extends IeeeScalar α, PackedScalar α where
  /-- What a counter of 64 bits holds is in range. -/
  eight_le : 8 ≤ format.exponentBits
  /-- The reciprocal of a number is in range. -/
  three_le : 3 ≤ format.mantissaBits
  unpack_pack (u : UnpackedFloat) : unpack (pack u : α) = stored format u
  add_eq (a b : α) : a + b = pack (UnpackedFloat.add format (unpack a) (unpack b))
  sub_eq (a b : α) : a - b = pack (UnpackedFloat.sub format (unpack a) (unpack b))
  mul_eq (a b : α) : a * b = pack (UnpackedFloat.mul format (unpack a) (unpack b))
  div_eq (a b : α) : a / b = pack (UnpackedFloat.div format (unpack a) (unpack b))
  place_one : Rounding.place format (unpack (1 : α)) = some 1
  /-- A natural number is rounded to double precision first. -/
  place_count {n : ℕ} (hn : n < 2 ^ 64) : Rounding.place format (unpack (Scalar.count n : α)) =
    some (nearest format (nearest Format.binary64 n))

theorem isCanonical_unpack {α : Type} [PackedScalar α] (a : α) :
    IsCanonical (BinaryScalar.format α) (unpack a) := by
  cases h : unpack a with
  | finite s m e hpos => exact PackedScalar.canonical h
  | infinity s => trivial
  | notANumber => trivial
  | zero s => trivial

/-! ### The two precisions -/

theorem nearest_natCast_mem_range {n : ℕ} (hn : n < 2 ^ 64) :
    0 ≤ nearest Format.binary64 n ∧ nearest Format.binary64 n ≤ 2 ^ 64 :=
  Rounding.nearest_mem_range (by decide) (by positivity) (by exact_mod_cast hn.le)

/-- The number of a natural number in double precision. -/
theorem place_ofNat {n : ℕ} (hn : n < 2 ^ 64) :
    place (Float.ofNat n) = some (nearest Format.binary64 n) := by
  have hwide : 1 < Format.binary64.exponentBits := by decide
  change place (Float.ofScientific n false 0) = _
  by_cases hfast : n < 2 ^ 53 ∧ 0 ≤ 22
  · have hcount : place n.toUInt64.toFloat = some (nearest Format.binary64 n) := by
      have hnat : n.toUInt64.toNat = n := Nat.mod_eq_of_lt hn
      rw [← Rounding.place_stored_ofNat hwide n]
      exact congrArg (fun k => Rounding.place _ (stored _ (UnpackedFloat.ofNat _ k))) hnat
    have hone : place Float.exactlyRepresentablePowersOfTen[0] = some 1 := by
      have hunpack : unpack Float.exactlyRepresentablePowersOfTen[0] =
          .finite .positive (2 ^ 52) (-52) (by decide) := rfl
      rw [place, hunpack]
      norm_num [Rounding.place, Rounding.signed]
    obtain ⟨hnonneg, hle⟩ := nearest_natCast_mem_range hn
    have hfinite := Rounding.isFinite_of_mem_range (by decide) hcount hnonneg hle
    have hcanonical : IsCanonical Format.binary64 (unpack n.toUInt64.toFloat) :=
      isCanonical_unpack _
    have hproduct := Rounding.place_stored_mul hwide hcanonical
      (isCanonical_unpack Float.exactlyRepresentablePowersOfTen[0]) hfinite rfl hcount hone
    rw [mul_one, hcanonical.nearest_eq hfinite hcount] at hproduct
    rw [Float.ofScientific, dif_pos hfast, if_neg Bool.false_ne_true]
    exact hproduct
  · rw [Float.ofScientific, dif_neg hfast]
    exact Rounding.place_stored_ofScientific hwide n

theorem isFinite_ofNat {n : ℕ} (hn : n < 2 ^ 64) : IsFinite (Float.ofNat n) := by
  obtain ⟨hnonneg, hle⟩ := nearest_natCast_mem_range hn
  exact Rounding.isFinite_of_mem_range (by decide) (place_ofNat hn) hnonneg hle

instance : RoundedScalar Float where
  eight_le := by decide
  three_le := by decide
  unpack_pack _ := rfl
  add_eq _ _ := rfl
  sub_eq _ _ := rfl
  mul_eq _ _ := rfl
  div_eq _ _ := rfl
  place_one := by
    have hone : unpack (1 : Float) = .finite .positive (2 ^ 52) (-52) (by decide) := rfl
    refine (congrArg (Rounding.place _) hone).trans ?_
    norm_num [Rounding.place, Rounding.signed]
  place_count {n} hn := by
    have htwice := (isCanonical_unpack _).nearest_eq (isFinite_ofNat hn) (place_ofNat hn)
    exact (place_ofNat hn).trans (congrArg some htwice.symm)

instance : RoundedScalar Float32 where
  eight_le := by decide
  three_le := by decide
  unpack_pack _ := rfl
  add_eq _ _ := rfl
  sub_eq _ _ := rfl
  mul_eq _ _ := rfl
  div_eq _ _ := rfl
  place_one := by
    have hone : unpack (1 : Float32) = .finite .positive (2 ^ 23) (-23) (by decide) := rfl
    refine (congrArg (Rounding.place _) hone).trans ?_
    norm_num [Rounding.place, Rounding.signed]
  place_count {n} hn :=
    Rounding.place_stored_roundTo (by decide) (isFinite_ofNat hn) (place_ofNat hn)

end CarrierTransport
