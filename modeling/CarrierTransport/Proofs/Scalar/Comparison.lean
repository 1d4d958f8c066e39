import CarrierTransport.Proofs.Scalar.Packing

/-!
# Comparing floating-point numbers

A comparison of two binary numbers is a comparison of their exact values, and false where one of
them is not a number. Every other value has a rank in a linear order (`rank`), so off the values
that are not numbers a strict comparison behaves like that of a linear order, and a number that is
not below another passes on everything that lies above it (`IeeeScalar.lt_of_not_lt_of_lt`).

`IeeeScalar` states what is used of a precision; both precisions of a simulation have it.
-/

namespace CarrierTransport

open Float.Model (UnpackedFloat Format)
open Float.Model.UnpackedFloat (Sign)

/-! ### Ranks -/

/-- The place of a value among all numbers: the infinities at both ends, between them the negative
values by descending magnitude, zero and the positive values. -/
def rank : UnpackedFloat → Option (ℤ ×ₗ ℤ ×ₗ ℤ)
  | .notANumber => none
  | .infinity .negative => some (toLex (-2, toLex (0, 0)))
  | .finite .negative m e _ => some (toLex (-1, toLex (-e, -m)))
  | .zero _ => some (toLex (0, toLex (0, 0)))
  | .finite .positive m e _ => some (toLex (1, toLex (e, m)))
  | .infinity .positive => some (toLex (2, toLex (0, 0)))

@[simp] theorem compare_sign_self (s : Sign) : compare s s = .eq := by
  cases s <;> rfl

@[simp] theorem compare_negative_positive : compare Sign.negative Sign.positive = .lt :=
  rfl

@[simp] theorem compare_positive_negative : compare Sign.positive Sign.negative = .gt :=
  rfl

section Finite

variable (e e' : ℤ) (m m' : ℕ)

theorem then_compare_eq_lt :
    (compare e e').then (compare m m') = .lt ↔ e < e' ∨ e = e' ∧ m < m' := by
  rw [Ordering.then_eq_lt, compare_lt_iff_lt, compare_eq_iff_eq, compare_lt_iff_lt]

theorem then_compare_eq_gt :
    (compare e e').then (compare m m') = .gt ↔ e' < e ∨ e = e' ∧ m' < m := by
  rw [Ordering.then_eq_gt, compare_gt_iff_gt, compare_eq_iff_eq, compare_gt_iff_gt]

theorem isLE_then_compare :
    ((compare e e').then (compare m m')).isLE = true ↔ e < e' ∨ e = e' ∧ m ≤ m' := by
  have hgt : ∀ c : Ordering, c.isLE = true ↔ ¬ c = .gt := by decide
  rw [hgt, then_compare_eq_gt]
  omega

theorem isGE_then_compare :
    ((compare e e').then (compare m m')).isGE = true ↔ e' < e ∨ e = e' ∧ m' ≤ m := by
  have hlt : ∀ c : Ordering, c.isGE = true ↔ ¬ c = .lt := by decide
  rw [hlt, then_compare_eq_lt]
  omega

end Finite

theorem lt_iff_rank (a b : UnpackedFloat) :
    a.lt b = true ↔ ∃ x ∈ rank a, ∃ y ∈ rank b, x < y := by
  rcases a with ⟨_ | _⟩ | _ | ⟨_⟩ | ⟨_ | _⟩ <;> rcases b with ⟨_ | _⟩ | _ | ⟨_⟩ | ⟨_ | _⟩ <;>
    simp [UnpackedFloat.lt, UnpackedFloat.compare, rank, Prod.Lex.toLex_lt_toLex,
      then_compare_eq_lt, then_compare_eq_gt]

theorem le_iff_rank (a b : UnpackedFloat) :
    a.le b = true ↔ ∃ x ∈ rank a, ∃ y ∈ rank b, x ≤ y := by
  rcases a with ⟨_ | _⟩ | _ | ⟨_⟩ | ⟨_ | _⟩ <;> rcases b with ⟨_ | _⟩ | _ | ⟨_⟩ | ⟨_ | _⟩ <;>
    simp [UnpackedFloat.le, UnpackedFloat.compare, rank, Prod.Lex.toLex_le_toLex,
      isLE_then_compare, isGE_then_compare]

/-! ### Scalar types that compare by value -/

/-- A binary scalar type whose comparisons are those of the exact values. -/
class IeeeScalar (α : Type) extends BinaryScalar α where
  lt_iff (a b : α) : a < b ↔ (unpack a).lt (unpack b) = true
  le_iff (a b : α) : a ≤ b ↔ (unpack a).le (unpack b) = true
  beq_iff (a b : α) : a == b ↔ (unpack a).beq (unpack b) = true
  unpack_zero : unpack 0 = .zero .positive
  unpack_abs (a : α) : unpack (Scalar.abs a) = (unpack a).abs

instance : IeeeScalar Float where
  lt_iff _ _ := decide_eq_true_iff
  le_iff _ _ := decide_eq_true_iff
  beq_iff _ _ := Iff.rfl
  unpack_zero := rfl
  unpack_abs a := @Packed.unpack_pack_abs Format.binary64 (by decide) a.toModel.toBits.toBitVec

instance : IeeeScalar Float32 where
  lt_iff _ _ := decide_eq_true_iff
  le_iff _ _ := decide_eq_true_iff
  beq_iff _ _ := Iff.rfl
  unpack_zero := rfl
  unpack_abs a := @Packed.unpack_pack_abs Format.binary32 (by decide) a.toModel.toBits.toBitVec

namespace IeeeScalar

variable {α : Type} [IeeeScalar α]

/-! ### Laws of the comparisons -/

/-- The value is a number, if perhaps an infinite one. -/
def IsNumber (a : α) : Prop :=
  (BinaryScalar.unpack a).isNaN = false

/-- The rank of a number. -/
def rankOf (a : α) : Option (ℤ ×ₗ ℤ ×ₗ ℤ) :=
  rank (BinaryScalar.unpack a)

theorem lt_iff_rankOf (a b : α) : a < b ↔ ∃ x ∈ rankOf a, ∃ y ∈ rankOf b, x < y :=
  (lt_iff a b).trans (lt_iff_rank _ _)

theorem le_iff_rankOf (a b : α) : a ≤ b ↔ ∃ x ∈ rankOf a, ∃ y ∈ rankOf b, x ≤ y :=
  (le_iff a b).trans (le_iff_rank _ _)

theorem isNumber_iff_rankOf (a : α) : IsNumber a ↔ ∃ x, x ∈ rankOf a := by
  rw [IsNumber, rankOf]
  cases BinaryScalar.unpack a with
  | infinity s => cases s <;> simp [UnpackedFloat.isNaN, rank]
  | notANumber => simp [UnpackedFloat.isNaN, rank]
  | zero s => simp [UnpackedFloat.isNaN, rank]
  | finite s m e hm => cases s <;> simp [UnpackedFloat.isNaN, rank]

theorem not_lt_self (a : α) : ¬ a < a := by
  rw [lt_iff_rankOf]
  rintro ⟨x, hx, y, hy, hlt⟩
  rw [Option.mem_unique hx hy] at hlt
  exact lt_irrefl y hlt

theorem le_of_lt {a b : α} (h : a < b) : a ≤ b := by
  rw [lt_iff_rankOf] at h
  obtain ⟨x, hx, y, hy, hlt⟩ := h
  exact (le_iff_rankOf a b).2 ⟨x, hx, y, hy, hlt.le⟩

theorem lt_of_le_of_lt {a b c : α} (hab : a ≤ b) (hbc : b < c) : a < c := by
  rw [le_iff_rankOf] at hab
  rw [lt_iff_rankOf] at hbc
  obtain ⟨x, hx, y, hy, hxy⟩ := hab
  obtain ⟨y', hy', z, hz, hyz⟩ := hbc
  rw [Option.mem_unique hy' hy] at hyz
  exact (lt_iff_rankOf a c).2 ⟨x, hx, z, hz, hxy.trans_lt hyz⟩

theorem le_trans {a b c : α} (hab : a ≤ b) (hbc : b ≤ c) : a ≤ c := by
  rw [le_iff_rankOf] at hab hbc
  obtain ⟨x, hx, y, hy, hxy⟩ := hab
  obtain ⟨y', hy', z, hz, hyz⟩ := hbc
  rw [Option.mem_unique hy' hy] at hyz
  exact (le_iff_rankOf a c).2 ⟨x, hx, z, hz, hxy.trans hyz⟩

theorem lt_trans {a b c : α} (hab : a < b) (hbc : b < c) : a < c :=
  lt_of_le_of_lt (le_of_lt hab) hbc

instance : @Trans α α α (· < ·) (· < ·) (· < ·) :=
  ⟨lt_trans⟩

/-- What lies above a number lies above every number that is not greater. -/
theorem lt_of_not_lt_of_lt {a b c : α} (hb : IsNumber b) (hab : ¬ a < b) (hac : a < c) : b < c := by
  rw [lt_iff_rankOf] at hab hac
  obtain ⟨x, hx, z, hz, hxz⟩ := hac
  obtain ⟨y, hy⟩ := (isNumber_iff_rankOf b).1 hb
  refine (lt_iff_rankOf b c).2 ⟨y, hy, z, hz, ?_⟩
  by_contra hzy
  exact hab ⟨x, hx, y, hy, hxz.trans_le (not_lt.1 hzy)⟩

/-! ### Magnitudes -/

theorem isNumber_abs (a : α) : IsNumber (Scalar.abs a) ↔ IsNumber a := by
  rw [IsNumber, IsNumber, unpack_abs]
  cases BinaryScalar.unpack a <;> rfl

theorem not_abs_lt (a : α) {t : α} (ht : ¬ 0 < t) : ¬ Scalar.abs a < t := by
  intro h
  refine ht (lt_of_le_of_lt ?_ h)
  rw [lt_iff_rankOf] at h
  obtain ⟨x, hx, -⟩ := h
  refine (le_iff_rankOf 0 (Scalar.abs a)).2 ⟨toLex (0, toLex (0, 0)), ?_, x, hx, ?_⟩
  · rw [rankOf, unpack_zero]
    rfl
  · rw [rankOf, unpack_abs] at hx
    cases hu : BinaryScalar.unpack a <;> rw [hu] at hx <;>
      simp only [UnpackedFloat.abs, rank, Option.mem_def, Option.some.injEq, reduceCtorEq] at hx <;>
      rw [← hx] <;> simp [Prod.Lex.toLex_le_toLex]

theorem zero_beq_zero : ((0 : α) == 0) = true := by
  rw [beq_iff, unpack_zero]
  rfl

/-- The magnitude of a zero of either sign is below every positive bound. -/
theorem abs_lt_of_beq_zero {a t : α} (ha : a == 0) (ht : 0 < t) : Scalar.abs a < t := by
  have habs : BinaryScalar.unpack (Scalar.abs a) = BinaryScalar.unpack (0 : α) := by
    rw [beq_iff, unpack_zero] at ha
    rw [unpack_abs, unpack_zero]
    cases hu : BinaryScalar.unpack a with
    | infinity s => rw [hu] at ha; cases s <;> cases ha
    | notANumber => rw [hu] at ha; cases ha
    | zero s => rfl
    | finite s m e hm => rw [hu] at ha; cases s <;> cases ha
  rw [lt_iff, habs]
  exact (lt_iff 0 t).1 ht

end IeeeScalar

end CarrierTransport
