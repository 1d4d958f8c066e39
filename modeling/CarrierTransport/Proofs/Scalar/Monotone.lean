import Mathlib
import CarrierTransport.Proofs.Scalar.Rounded

/-!
# Monotone arithmetic

The operations of a scalar type whose arithmetic is correctly rounded are monotone where the exact
ones are, as rounding is. So a sum does not fall below the number that something was added to
(`le_add`, `add_le_add`), nor does a product with a part of one rise above its first factor
(`mul_le_of_le_one`), and a difference is positive just if it is taken of a greater number
(`sub_pos_iff`): no difference of numbers that differ is rounded to zero. What rounding does not
explain are the infinities, which each operation treats apart.
-/

namespace CarrierTransport.RoundedScalar

open Float.Model (Format UnpackedFloat)
open Float.Model.UnpackedFloat (Sign)
open Rounding (nearest nearest_mono limit limit_pos stored)
open BinaryScalar (format unpack place IsFinite)
open IeeeScalar (IsNumber)

variable {α : Type} [RoundedScalar α] {a b c : α} {x y z : ℚ} {s : Sign} {spec : Format}

theorem wide : 1 < (format α).exponentBits :=
  lt_of_lt_of_le (by norm_num) eight_le

/-! ### Places -/

theorem place_zero : place (0 : α) = some 0 :=
  congrArg (Rounding.place _) IeeeScalar.unpack_zero

theorem isNumber_iff_place (a : α) : IsNumber a ↔ ∃ x, place a = some x := by
  rw [IsNumber, place]
  cases unpack a <;> simp [Rounding.place, UnpackedFloat.isNaN]

theorem unpack_of_isFinite (ha : IsFinite a) : (∃ s, unpack a = .zero s) ∨
    ∃ s m e, ∃ hpos : 0 < m, unpack a = .finite s m e hpos := by
  rw [IsFinite] at ha
  cases h : unpack a with
  | notANumber =>
    rw [h] at ha
    cases ha
  | infinity s =>
    rw [h] at ha
    cases ha
  | zero s => exact .inl ⟨s, rfl⟩
  | finite s m e hpos => exact .inr ⟨s, m, e, hpos, rfl⟩

theorem isNumber_of_isFinite (ha : IsFinite a) : IsNumber a := by
  rw [IsNumber]
  obtain ⟨s, h⟩ | ⟨s, m, e, hpos, h⟩ := unpack_of_isFinite ha
  · rw [h]
    rfl
  · rw [h]
    rfl

theorem compare_unpack (hx : place a = some x) (hy : place b = some y) :
    (unpack a).compare (unpack b) = some (cmp x y) :=
  Rounding.compare_eq (isCanonical_unpack a) (isCanonical_unpack b) hx hy

theorem lt_iff_place (hx : place a = some x) (hy : place b = some y) : a < b ↔ x < y := by
  rw [IeeeScalar.lt_iff, UnpackedFloat.lt, compare_unpack hx hy]
  simp

theorem le_iff_place (hx : place a = some x) (hy : place b = some y) : a ≤ b ↔ x ≤ y := by
  have hgt : ∀ o : Ordering, o.isLE = true ↔ ¬ o = .gt := by decide
  rw [IeeeScalar.le_iff, UnpackedFloat.le, compare_unpack hx hy, Option.any_some, hgt,
    cmp_eq_gt_iff, not_lt]

theorem beq_iff_place (hx : place a = some x) (hy : place b = some y) :
    (a == b) = true ↔ x = y := by
  rw [IeeeScalar.beq_iff, UnpackedFloat.beq, compare_unpack hx hy]
  simp

/-- What is compared are numbers. -/
theorem isNumber_of_le (h : a ≤ b) : IsNumber a ∧ IsNumber b := by
  rw [IeeeScalar.le_iff_rankOf] at h
  obtain ⟨p, hp, q, hq, -⟩ := h
  exact ⟨(IeeeScalar.isNumber_iff_rankOf a).2 ⟨p, hp⟩, (IeeeScalar.isNumber_iff_rankOf b).2 ⟨q, hq⟩⟩

theorem exists_place_of_le (h : a ≤ b) : ∃ x y, place a = some x ∧ place b = some y ∧ x ≤ y := by
  obtain ⟨ha, hb⟩ := isNumber_of_le h
  obtain ⟨x, hx⟩ := (isNumber_iff_place a).1 ha
  obtain ⟨y, hy⟩ := (isNumber_iff_place b).1 hb
  exact ⟨x, y, hx, hy, (le_iff_place hx hy).1 h⟩

theorem lt_iff_le_and_not_beq (a b : α) : a < b ↔ a ≤ b ∧ (a == b) = false := by
  by_cases hle : a ≤ b
  · obtain ⟨x, y, hx, hy, hxy⟩ := exists_place_of_le hle
    rw [lt_iff_place hx hy, ← Bool.not_eq_true, beq_iff_place hx hy, hxy.lt_iff_ne]
    exact (and_iff_right hle).symm
  · exact iff_of_false (fun h => hle (IeeeScalar.le_of_lt h)) fun h => hle h.1

/-- The kinds of numbers. -/
theorem isFinite_or_infinity (hx : place a = some x) :
    (IsFinite a ∧ |x| < limit (format α)) ∨
      (unpack a = .infinity .positive ∧ x = limit (format α)) ∨
      (unpack a = .infinity .negative ∧ x = -limit (format α)) := by
  rw [place] at hx
  rw [IsFinite]
  have hcanonical := isCanonical_unpack a
  cases h : unpack a with
  | notANumber =>
    rw [h] at hx
    cases hx
  | infinity s =>
    rw [h] at hx
    cases hx
    cases s
    · exact .inr (.inr ⟨rfl, rfl⟩)
    · exact .inr (.inl ⟨rfl, rfl⟩)
  | zero s =>
    rw [h] at hx
    cases hx
    exact .inl ⟨rfl, by rw [abs_zero]; exact limit_pos _⟩
  | finite s m e hpos =>
    rw [h] at hx hcanonical
    cases hx
    refine .inl ⟨rfl, ?_⟩
    rw [Rounding.abs_signed s (by positivity)]
    exact Rounding.Canonical.lt_limit hcanonical

theorem abs_place_le (hx : place a = some x) : |x| ≤ limit (format α) := by
  have hlimit := limit_pos (format α)
  rcases isFinite_or_infinity hx with ⟨-, hlt⟩ | ⟨-, rfl⟩ | ⟨-, rfl⟩
  · exact hlt.le
  · exact (abs_of_pos hlimit).le
  · rw [abs_neg, abs_of_pos hlimit]

theorem place_infinity (ha : unpack a = .infinity s) :
    place a = some (Rounding.signed s (limit (format α))) :=
  congrArg (Rounding.place _) ha

theorem abs_place_lt (ha : IsFinite a) (hx : place a = some x) : |x| < limit (format α) := by
  rw [IsFinite] at ha
  rcases isFinite_or_infinity hx with ⟨-, hlt⟩ | ⟨htop, -⟩ | ⟨hbottom, -⟩
  · exact hlt
  · rw [htop] at ha
    cases ha
  · rw [hbottom] at ha
    cases ha

/-- A number from zero on is finite or the greatest of all. -/
theorem exists_place_of_nonneg (hb : 0 ≤ b) : ∃ y, place b = some y ∧ 0 ≤ y ∧
    (IsFinite b ∨ unpack b = .infinity .positive ∧ y = limit (format α)) := by
  obtain ⟨zero, y, hzero, hy, hle⟩ := exists_place_of_le hb
  cases place_zero.symm.trans hzero
  refine ⟨y, hy, hle, ?_⟩
  rcases isFinite_or_infinity hy with ⟨hfinite, -⟩ | htop | ⟨-, rfl⟩
  · exact .inl hfinite
  · exact .inr htop
  · have hlimit := limit_pos (format α)
    exact absurd hle (by linarith)

/-! ### Operations -/

theorem unpack_add (a b : α) :
    unpack (a + b) = stored (format α) (UnpackedFloat.add (format α) (unpack a) (unpack b)) := by
  rw [add_eq, unpack_pack]

theorem unpack_sub (a b : α) :
    unpack (a - b) = stored (format α) (UnpackedFloat.sub (format α) (unpack a) (unpack b)) := by
  rw [sub_eq, unpack_pack]

theorem unpack_mul (a b : α) :
    unpack (a * b) = stored (format α) (UnpackedFloat.mul (format α) (unpack a) (unpack b)) := by
  rw [mul_eq, unpack_pack]

theorem unpack_div (a b : α) :
    unpack (a / b) = stored (format α) (UnpackedFloat.div (format α) (unpack a) (unpack b)) := by
  rw [div_eq, unpack_pack]

section Finite

variable (ha : IsFinite a) (hb : IsFinite b) (hx : place a = some x) (hy : place b = some y)

include ha hb hx hy

theorem place_add : place (a + b) = some (nearest (format α) (x + y)) := by
  rw [place, unpack_add]
  exact Rounding.place_stored_add wide (isCanonical_unpack a) (isCanonical_unpack b) ha hb hx hy

theorem place_sub : place (a - b) = some (nearest (format α) (x - y)) := by
  rw [place, unpack_sub]
  exact Rounding.place_stored_sub wide (isCanonical_unpack a) (isCanonical_unpack b) ha hb hx hy

theorem place_mul : place (a * b) = some (nearest (format α) (x * y)) := by
  rw [place, unpack_mul]
  exact Rounding.place_stored_mul wide (isCanonical_unpack a) (isCanonical_unpack b) ha hb hx hy

theorem place_div (hne : y ≠ 0) : place (a / b) = some (nearest (format α) (x / y)) := by
  rw [place, unpack_div]
  exact Rounding.place_stored_div wide ha hb hx hy hne

end Finite

theorem nearest_place (ha : IsFinite a) (hx : place a = some x) : nearest (format α) x = x :=
  (isCanonical_unpack a).nearest_eq ha hx

/-! ### Sums -/

theorem add_top (ha : IsFinite a ∨ unpack a = .infinity .positive)
    (hb : unpack b = .infinity .positive) : unpack (a + b) = .infinity .positive := by
  rw [unpack_add, hb]
  rcases ha with ha | ha
  · obtain ⟨s, h⟩ | ⟨s, m, e, hpos, h⟩ := unpack_of_isFinite ha
    all_goals
      rw [h]
      exact Rounding.stored_infinity wide _
  · rw [ha]
    exact Rounding.stored_infinity wide _

theorem infinity_add (ha : unpack a = .infinity s) (hb : IsFinite b) :
    unpack (a + b) = .infinity s := by
  rw [unpack_add, ha]
  obtain ⟨s', h⟩ | ⟨s', m, e, hpos, h⟩ := unpack_of_isFinite hb
  all_goals
    rw [h]
    exact Rounding.stored_infinity wide s

theorem isNaN_stored (hwide : 1 < spec.exponentBits) : (stored spec .notANumber).isNaN = true :=
  congrArg UnpackedFloat.isNaN (Rounding.stored_notANumber hwide)

/-- What has a summand that is not a number is none. -/
theorem isNaN_of_add (hwide : 1 < spec.exponentBits) {u v : UnpackedFloat}
    (h : (stored spec (UnpackedFloat.add spec u v)).isNaN = false) :
    u.isNaN = false ∧ v.isNaN = false := by
  cases u with
  | notANumber => cases (isNaN_stored hwide).symm.trans h
  | _ => cases v with
    | notANumber => cases (isNaN_stored hwide).symm.trans h
    | _ => exact ⟨rfl, rfl⟩

theorem isNumber_of_add (h : IsNumber (a + b)) : IsNumber a ∧ IsNumber b := by
  rw [IsNumber, unpack_add] at h
  exact isNaN_of_add wide h

/-- Nothing that is added to an infinity leads beyond it. -/
theorem not_infinity_lt_add (ha : unpack a = .infinity s) (b : α) :
    ¬ a < a + b := by
  intro h
  have hnumber := (isNumber_of_le (IeeeScalar.le_of_lt h)).2
  have hsum : unpack (a + b) = .infinity s := by
    cases hb : unpack b with
    | notANumber =>
      have hnan := (isNumber_of_add hnumber).2
      rw [IsNumber, hb] at hnan
      cases hnan
    | infinity s' =>
      have hboth : UnpackedFloat.add (format α) (.infinity s) (.infinity s') =
          if s == s' then .infinity s else .notANumber := rfl
      rw [IsNumber, unpack_add, ha, hb, hboth] at hnumber
      rw [unpack_add, ha, hb, hboth]
      split_ifs at hnumber ⊢
      · exact Rounding.stored_infinity wide s
      · cases (isNaN_stored wide).symm.trans hnumber
    | zero s' => exact infinity_add ha (congrArg UnpackedFloat.isFinite hb)
    | finite s' m e hpos => exact infinity_add ha (congrArg UnpackedFloat.isFinite hb)
  rw [lt_iff_place (place_infinity ha) (place_infinity hsum)] at h
  exact lt_irrefl _ h

theorem isNumber_of_sub (h : IsNumber (a - b)) : IsNumber a ∧ IsNumber b := by
  rw [IsNumber, unpack_sub, Rounding.sub_eq_add] at h
  obtain ⟨ha, hb⟩ := isNaN_of_add wide h
  exact ⟨ha, (Rounding.isNaN_neg _).symm.trans hb⟩

theorem not_isNumber_bottom_add_top (ha : unpack a = .infinity .negative)
    (hb : unpack b = .infinity .positive) : ¬ IsNumber (a + b) := by
  rw [IsNumber, unpack_add, ha, hb]
  exact fun h => Bool.false_ne_true (h.symm.trans (isNaN_stored wide))

/-- **A sum is not below what a number from zero on has been added to.** -/
theorem le_add (hb : 0 ≤ b) (h : IsNumber (a + b)) : a ≤ a + b := by
  obtain ⟨x, hx⟩ := (isNumber_iff_place a).1 (isNumber_of_add h).1
  obtain ⟨z, hz⟩ := (isNumber_iff_place (a + b)).1 h
  obtain ⟨y, hy, hnonneg, hb⟩ := exists_place_of_nonneg hb
  rw [le_iff_place hx hz]
  rcases isFinite_or_infinity hx with ⟨ha, hlt⟩ | ⟨ha, rfl⟩ | ⟨ha, rfl⟩
  · rcases hb with hb | ⟨hb, rfl⟩
    · cases (place_add ha hb hx hy).symm.trans hz
      calc x = nearest (format α) x := (nearest_place ha hx).symm
        _ ≤ nearest (format α) (x + y) := nearest_mono _ (le_add_of_nonneg_right hnonneg)
    · cases (place_infinity (add_top (.inl ha) hb)).symm.trans hz
      exact (abs_lt.1 hlt).2.le
  · have hsum : unpack (a + b) = .infinity .positive := by
      rcases hb with hb | ⟨hb, -⟩
      · exact infinity_add ha hb
      · exact add_top (.inr ha) hb
    cases (place_infinity hsum).symm.trans hz
    exact le_rfl
  · exact neg_le_of_abs_le (abs_place_le hz)

/-- It is a number if what has been added to is not the least of all. -/
theorem isNumber_add (hx : place a = some x) (h : -limit (format α) < x) (hb : 0 ≤ b) :
    IsNumber (a + b) := by
  rw [isNumber_iff_place]
  obtain ⟨y, hy, -, hb⟩ := exists_place_of_nonneg hb
  rcases isFinite_or_infinity hx with ⟨ha, -⟩ | ⟨ha, -⟩ | ⟨-, rfl⟩
  · rcases hb with hb | ⟨hb, -⟩
    · exact ⟨_, place_add ha hb hx hy⟩
    · exact ⟨_, place_infinity (add_top (.inl ha) hb)⟩
  · rcases hb with hb | ⟨hb, -⟩
    · exact ⟨_, place_infinity (infinity_add ha hb)⟩
    · exact ⟨_, place_infinity (add_top (.inr ha) hb)⟩
  · exact absurd h (lt_irrefl _)

/-- **Addition is monotone.** -/
theorem add_le_add (hb : 0 ≤ b) (h : b ≤ c) (hc : IsNumber (a + c)) : a + b ≤ a + c := by
  obtain ⟨x, hx⟩ := (isNumber_iff_place a).1 (isNumber_of_add hc).1
  obtain ⟨y, hy, hnonneg, hb'⟩ := exists_place_of_nonneg hb
  obtain ⟨y', y'', hy', hy'', hle⟩ := exists_place_of_le h
  cases hy.symm.trans hy'
  rcases isFinite_or_infinity hy'' with ⟨hc', hlt⟩ | ⟨hc', -⟩ | ⟨-, rfl⟩
  · have hb : IsFinite b := by
      refine hb'.resolve_right ?_
      rintro ⟨-, rfl⟩
      exact absurd (hle.trans_lt (abs_lt.1 hlt).2) (lt_irrefl _)
    have hsame : ∀ {s}, unpack a = .infinity s → a + b ≤ a + c := fun ha =>
      (le_iff_place (place_infinity (infinity_add ha hb)) (place_infinity (infinity_add ha hc'))).2
        le_rfl
    rcases isFinite_or_infinity hx with ⟨ha, -⟩ | ⟨ha, -⟩ | ⟨ha, -⟩
    · rw [le_iff_place (place_add ha hb hx hy) (place_add ha hc' hx hy'')]
      exact nearest_mono _ (add_le_add_right hle x)
    · exact hsame ha
    · exact hsame ha
  -- what is added without bound reaches the greatest number of all
  · have hreach : -limit (format α) < x → (IsFinite a ∨ unpack a = .infinity .positive) →
        a + b ≤ a + c := by
      intro hlt ha
      obtain ⟨z, hz⟩ := (isNumber_iff_place (a + b)).1 (isNumber_add hx hlt hb)
      rw [le_iff_place hz (place_infinity (add_top ha hc'))]
      exact (abs_le.1 (abs_place_le hz)).2
    rcases isFinite_or_infinity hx with ⟨ha, hlt⟩ | ⟨ha, rfl⟩ | ⟨ha, -⟩
    · exact hreach (abs_lt.1 hlt).1 (.inl ha)
    · exact hreach (neg_lt_self (limit_pos _)) (.inr ha)
    · exact absurd hc (not_isNumber_bottom_add_top ha hc')
  · have hlimit := limit_pos (format α)
    exact absurd (hnonneg.trans hle) (by linarith)

/-! ### Products -/

theorem infinity_mul (ha : unpack a = .infinity s) (hb : IsFinite b) (hy : place b = some y)
    (hpos : 0 < y) : unpack (a * b) = .infinity s := by
  rw [unpack_mul, ha]
  rw [place] at hy
  obtain ⟨s', h⟩ | ⟨s', m, e, hm, h⟩ := unpack_of_isFinite hb
  · rw [h] at hy
    cases hy
    exact absurd hpos (lt_irrefl _)
  · rw [h] at hy ⊢
    cases hy
    cases s' with
    | negative =>
      have hvalue : (0 : ℚ) < m * 2 ^ e := by positivity
      exact absurd hpos (neg_neg_of_pos hvalue).not_gt
    | positive => cases s <;> exact Rounding.stored_infinity wide _

theorem isNumber_of_mul (h : IsNumber (a * b)) : IsNumber a ∧ IsNumber b := by
  rw [IsNumber, unpack_mul] at h
  rw [IsNumber, IsNumber]
  cases ha : unpack a with
  | notANumber =>
    rw [ha] at h
    cases (isNaN_stored wide).symm.trans h
  | _ => cases hb : unpack b with
    | notANumber =>
      rw [ha, hb] at h
      cases (isNaN_stored wide).symm.trans h
    | _ => exact ⟨rfl, rfl⟩

/-- A factor is finite, or the greatest of all. -/
theorem exists_place_of_pos (ha : 0 < a) : ∃ x, place a = some x ∧ 0 < x ∧
    (IsFinite a ∨ unpack a = .infinity .positive ∧ x = limit (format α)) := by
  obtain ⟨x, hx, -, hkind⟩ := exists_place_of_nonneg (IeeeScalar.le_of_lt ha)
  exact ⟨x, hx, (lt_iff_place place_zero hx).1 ha, hkind⟩

/-- The product of two positive numbers, of which the second is finite. -/
theorem exists_place_mul (ha : 0 < a) (hfinite : IsFinite b) (hy : place b = some y) (hpos : 0 < y) :
    ∃ x, place a = some x ∧ 0 < x ∧
      place (a * b) = some (if IsFinite a then nearest (format α) (x * y) else x) := by
  obtain ⟨x, hx, hxpos, ha | ⟨ha, rfl⟩⟩ := exists_place_of_pos ha
  · refine ⟨x, hx, hxpos, ?_⟩
    rw [if_pos ha]
    exact place_mul ha hfinite hx hy
  · refine ⟨_, hx, hxpos, ?_⟩
    have hnot : ¬ IsFinite a := by
      rw [IsFinite, ha]
      exact Bool.false_ne_true
    rw [if_neg hnot]
    exact place_infinity (infinity_mul ha hfinite hy hpos)

theorem mul_nonneg_of_pos (ha : 0 < a) (hfinite : IsFinite b) (hy : place b = some y) (hpos : 0 < y) :
    0 ≤ a * b := by
  obtain ⟨x, hx, hxpos, hproduct⟩ := exists_place_mul ha hfinite hy hpos
  rw [le_iff_place place_zero hproduct]
  split_ifs
  · rw [← Rounding.nearest_zero (format α)]
    exact nearest_mono _ (mul_nonneg hxpos.le hpos.le)
  · exact hxpos.le

/-- **Multiplication is monotone.** -/
theorem mul_le_mul_left (ha : 0 < a) (hb : IsFinite b) (hc : IsFinite c) (hy : place b = some y)
    (hz : place c = some z) (hpos : 0 < y) (h : y ≤ z) : a * b ≤ a * c := by
  obtain ⟨x, hx, hxpos, hproduct⟩ := exists_place_mul ha hb hy hpos
  obtain ⟨x', hx', -, hproduct'⟩ := exists_place_mul ha hc hz (hpos.trans_le h)
  cases hx.symm.trans hx'
  rw [le_iff_place hproduct hproduct']
  split_ifs
  · exact nearest_mono _ (mul_le_mul_of_nonneg_left h hxpos.le)
  · exact le_rfl

theorem mul_le_of_le_one (ha : 0 < a) (hb : IsFinite b) (hy : place b = some y) (hpos : 0 < y)
    (h : y ≤ 1) : a * b ≤ a := by
  obtain ⟨x, hx, hxpos, hproduct⟩ := exists_place_mul ha hb hy hpos
  rw [le_iff_place hproduct hx]
  split_ifs with hfinite
  · calc nearest (format α) (x * y) ≤ nearest (format α) x :=
        nearest_mono _ (mul_le_of_le_one_right hxpos.le h)
      _ = x := nearest_place hfinite hx
  · exact le_rfl

/-! ### Fractions -/

/-- The place of a natural number. -/
def countPlace (α : Type) [RoundedScalar α] (n : ℕ) : ℚ :=
  nearest (format α) (nearest Format.binary64 n)

section Fractions

variable {k l d : ℕ}

theorem countPlace_mono : Monotone (countPlace α) := fun k l h =>
  nearest_mono _ (nearest_mono _ (by exact_mod_cast h))

theorem one_le_countPlace (hk : 0 < k) : 1 ≤ countPlace α k := by
  calc (1 : ℚ) = countPlace α 1 := by
        rw [countPlace, Nat.cast_one, Rounding.nearest_one (by decide), Rounding.nearest_one wide]
    _ ≤ countPlace α k := countPlace_mono hk

theorem isFinite_count (hd : d < 2 ^ 64) : IsFinite (Scalar.count d : α) := by
  obtain ⟨hnonneg, hle⟩ := nearest_natCast_mem_range hd
  obtain ⟨hnonneg', hle'⟩ := Rounding.nearest_mem_range (eight_le (α := α)) hnonneg hle
  exact Rounding.isFinite_of_mem_range eight_le (place_count hd) hnonneg' hle'

/-- The place of a fraction of a number of divisions. -/
def fractionPlace (α : Type) [RoundedScalar α] (k d : ℕ) : ℚ :=
  nearest (format α) (countPlace α k / countPlace α d)

theorem place_fraction (hpos : 0 < k) (hk : k ≤ d) (hd : d < 2 ^ 64) :
    place (Scalar.count k / Scalar.count d : α) = some (fractionPlace α k d) := by
  have hne : countPlace α d ≠ 0 :=
    ne_of_gt (one_pos.trans_le (one_le_countPlace (hpos.trans_le hk)))
  exact place_div (isFinite_count (hk.trans_lt hd)) (isFinite_count hd)
    (place_count (hk.trans_lt hd)) (place_count hd) hne

theorem fractionPlace_mono (hpos : 0 < d) (hkl : k ≤ l) :
    fractionPlace α k d ≤ fractionPlace α l d := by
  have hd := one_pos.trans_le (one_le_countPlace (α := α) hpos)
  exact nearest_mono _ (div_le_div_of_nonneg_right (countPlace_mono hkl) hd.le)

theorem fractionPlace_le_one (hpos : 0 < k) (hk : k ≤ d) : fractionPlace α k d ≤ 1 := by
  have hd := one_pos.trans_le (one_le_countPlace (α := α) (hpos.trans_le hk))
  rw [← Rounding.nearest_one (wide (α := α))]
  exact nearest_mono _ ((div_le_one hd).2 (countPlace_mono hk))

/-- No fraction is rounded to zero: the format reaches as far below one as above. -/
theorem fractionPlace_pos (hpos : 0 < k) (hk : k ≤ d) : 0 < fractionPlace α k d := by
  have hd := one_pos.trans_le (one_le_countPlace (α := α) (hpos.trans_le hk))
  refine Rounding.nearest_pos wide ?_
  have hlimit : countPlace α d ≤ limit (format α) := (le_abs_self _).trans (Rounding.abs_nearest_le _ _)
  have hleast : (format α).minExponent ≤ -((2 ^ ((format α).exponentBits - 1) : ℕ) : ℤ) := by
    obtain ⟨-, -, -, hmin⟩ := Rounding.constants_eq (format α)
    have hlong := three_le (α := α)
    omega
  calc (2 : ℚ) ^ (format α).minExponent
      ≤ 2 ^ (-((2 ^ ((format α).exponentBits - 1) : ℕ) : ℤ)) :=
        zpow_le_zpow_right₀ one_le_two hleast
    _ = 1 / limit (format α) := by rw [zpow_neg, zpow_natCast, limit, one_div]
    _ ≤ 1 / countPlace α d := one_div_le_one_div_of_le hd hlimit
    _ ≤ countPlace α k / countPlace α d :=
      div_le_div_of_nonneg_right (one_le_countPlace hpos) hd.le

theorem isFinite_fraction (hpos : 0 < k) (hk : k ≤ d) (hd : d < 2 ^ 64) :
    IsFinite (Scalar.count k / Scalar.count d : α) :=
  Rounding.isFinite_of_mem_range eight_le (place_fraction hpos hk hd) (fractionPlace_pos hpos hk).le
    ((fractionPlace_le_one hpos hk).trans (by norm_num))

end Fractions

/-! ### Lengths -/

theorem infinity_sub (hb : unpack b = .infinity s) (ha : IsFinite a) :
    unpack (b - a) = .infinity s := by
  rw [unpack_sub, hb]
  obtain ⟨s', h⟩ | ⟨s', m, e, hpos, h⟩ := unpack_of_isFinite ha
  all_goals
    rw [h]
    exact Rounding.stored_infinity wide s

theorem sub_infinity (hb : IsFinite b) (ha : unpack a = .infinity s) :
    unpack (b - a) = .infinity (-s) := by
  rw [unpack_sub, ha]
  obtain ⟨s', h⟩ | ⟨s', m, e, hpos, h⟩ := unpack_of_isFinite hb
  all_goals
    rw [h]
    exact Rounding.stored_infinity wide (-s)

theorem top_sub_bottom (hb : unpack b = .infinity .positive) (ha : unpack a = .infinity .negative) :
    unpack (b - a) = .infinity .positive := by
  rw [unpack_sub, hb, ha]
  exact Rounding.stored_infinity wide _

theorem bottom_sub_top (hb : unpack b = .infinity .negative) (ha : unpack a = .infinity .positive) :
    unpack (b - a) = .infinity .negative := by
  rw [unpack_sub, hb, ha]
  exact Rounding.stored_infinity wide _

theorem not_isNumber_infinity_sub_self (hb : unpack b = .infinity s)
    (ha : unpack a = .infinity s) : ¬ IsNumber (b - a) := by
  rw [IsNumber, unpack_sub, hb, ha]
  cases s <;> exact fun h => Bool.false_ne_true (h.symm.trans (isNaN_stored wide))

/-- A finite number is a multiple of the least positive one. -/
theorem exists_multiple (ha : IsFinite a) (hx : place a = some x) :
    ∃ z : ℤ, x = z * 2 ^ (format α).minExponent := by
  have hcanonical := isCanonical_unpack a
  rw [place] at hx
  obtain ⟨s, h⟩ | ⟨s, m, e, hpos, h⟩ := unpack_of_isFinite ha
  · rw [h] at hx
    cases hx
    exact ⟨0, by rw [Int.cast_zero, zero_mul]⟩
  · rw [h] at hx hcanonical
    cases hx
    refine ⟨s.apply (UnpackedFloat.decreaseExponent m e (format α).minExponent).1, ?_⟩
    exact (Rounding.apply_decreaseExponent s m (Rounding.Canonical.least hcanonical)).symm

/-- Numbers that differ are apart by the least positive number. -/
theorem le_sub_of_lt (ha : IsFinite a) (hb : IsFinite b) (hx : place a = some x)
    (hy : place b = some y) (h : x < y) : 2 ^ (format α).minExponent ≤ y - x := by
  obtain ⟨z, rfl⟩ := exists_multiple ha hx
  obtain ⟨z', rfl⟩ := exists_multiple hb hy
  have hunit : (0 : ℚ) < 2 ^ (format α).minExponent := by positivity
  have hless : z + 1 ≤ z' := by exact_mod_cast lt_of_mul_lt_mul_right h hunit.le
  have hless' : (z : ℚ) + 1 ≤ z' := by exact_mod_cast hless
  nlinarith

theorem pos_iff_of_infinity (ha : unpack a = .infinity s) :
    0 < a ↔ s = .positive := by
  have hlimit := limit_pos (format α)
  rw [lt_iff_place place_zero (place_infinity ha)]
  cases s with
  | negative => exact iff_of_false (by rw [Rounding.signed]; linarith) nofun
  | positive => exact iff_of_true hlimit rfl

/-- **A difference is positive just if it is between a number and a greater one.** -/
theorem sub_pos_iff (a b : α) : 0 < b - a ↔ a < b := by
  have hlimit := limit_pos (format α)
  by_cases hnumbers : IsNumber a ∧ IsNumber b
  · obtain ⟨x, hx⟩ := (isNumber_iff_place a).1 hnumbers.1
    obtain ⟨y, hy⟩ := (isNumber_iff_place b).1 hnumbers.2
    rw [lt_iff_place hx hy]
    rcases isFinite_or_infinity hx with ⟨ha, hlt⟩ | ⟨ha, rfl⟩ | ⟨ha, rfl⟩ <;>
      rcases isFinite_or_infinity hy with ⟨hb, hlt'⟩ | ⟨hb, rfl⟩ | ⟨hb, rfl⟩
    · rw [lt_iff_place place_zero (place_sub hb ha hy hx)]
      constructor
      · intro hpos
        by_contra hle
        have hmono := nearest_mono (format α) (sub_nonpos.2 (not_lt.1 hle))
        rw [Rounding.nearest_zero] at hmono
        exact absurd (hpos.trans_le hmono) (lt_irrefl _)
      · exact fun h => Rounding.nearest_pos wide (le_sub_of_lt ha hb hx hy h)
    · exact (pos_iff_of_infinity (infinity_sub hb ha)).trans (iff_of_true rfl (abs_lt.1 hlt).2)
    · exact (pos_iff_of_infinity (infinity_sub hb ha)).trans
        (iff_of_false nofun (abs_lt.1 hlt).1.not_gt)
    · exact (pos_iff_of_infinity (sub_infinity hb ha)).trans
        (iff_of_false nofun (abs_lt.1 hlt').2.not_gt)
    · exact iff_of_false (fun h => not_isNumber_infinity_sub_self hb ha
        (isNumber_of_le (IeeeScalar.le_of_lt h)).2) (lt_irrefl _)
    · exact (pos_iff_of_infinity (bottom_sub_top hb ha)).trans
        (iff_of_false nofun (neg_lt_self hlimit).not_gt)
    · exact (pos_iff_of_infinity (sub_infinity hb ha)).trans (iff_of_true rfl (abs_lt.1 hlt').1)
    · exact (pos_iff_of_infinity (top_sub_bottom hb ha)).trans
        (iff_of_true rfl (neg_lt_self hlimit))
    · exact iff_of_false (fun h => not_isNumber_infinity_sub_self hb ha
        (isNumber_of_le (IeeeScalar.le_of_lt h)).2) (lt_irrefl _)
  · refine iff_of_false (fun h => hnumbers ?_) (fun h => hnumbers ?_)
    · exact (isNumber_of_sub (isNumber_of_le (IeeeScalar.le_of_lt h)).2).symm
    · exact isNumber_of_le (IeeeScalar.le_of_lt h)

theorem mul_one_pos_iff (a : α) : 0 < a * 1 ↔ 0 < a := by
  have hone : IsFinite (1 : α) :=
    Rounding.isFinite_of_mem_range eight_le place_one one_pos.le (by norm_num)
  by_cases hnumber : IsNumber a
  · obtain ⟨x, hx⟩ := (isNumber_iff_place a).1 hnumber
    have hproduct : place (a * 1) = some x := by
      rcases isFinite_or_infinity hx with ⟨ha, -⟩ | ⟨ha, -⟩ | ⟨ha, -⟩
      · rw [place_mul ha hone hx place_one, mul_one, nearest_place ha hx]
      · rw [place_infinity (infinity_mul ha hone place_one one_pos), ← place_infinity ha, hx]
      · rw [place_infinity (infinity_mul ha hone place_one one_pos), ← place_infinity ha, hx]
    rw [lt_iff_place place_zero hproduct, lt_iff_place place_zero hx]
  · refine iff_of_false (fun h => hnumber ?_) (fun h => hnumber ?_)
    · exact (isNumber_of_mul (isNumber_of_le (IeeeScalar.le_of_lt h)).2).1
    · exact (isNumber_of_le (IeeeScalar.le_of_lt h)).2

end CarrierTransport.RoundedScalar
