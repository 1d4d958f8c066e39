import Mathlib
import CarrierTransport.Proofs.Scalar.Comparable
import CarrierTransport.Proofs.Scalar.Stored

/-!
# Correctly rounded arithmetic

Of two finite numbers the operations store the exact result rounded to nearest
(`place_stored_add` and those that follow it), and two numbers compare as their places do
(`compare_eq`).
-/

namespace CarrierTransport.Rounding

open Float.Model (Format UnpackedFloat totalExponent)
open Float.Model.UnpackedFloat (Sign Accuracy roundWithAccuracy decreaseExponent divCore
  accuracyOfFraction)

variable {format : Format} {u v : UnpackedFloat} {x y : ℚ}

/-! ### Finite values -/

theorem IsCanonical.nearest_eq (hu : IsCanonical format u) (hfinite : u.isFinite = true)
    (hx : place format u = some x) : nearest format x = x := by
  cases u with
  | infinity s => cases hfinite
  | notANumber => cases hfinite
  | zero s =>
    cases hx
    exact nearest_zero format
  | finite s m e hpos =>
    cases hx
    rw [nearest_signed s (by positivity), Canonical.magnitude_self hu]

theorem IsCanonical.neg (hu : IsCanonical format u) : IsCanonical format u.neg := by
  cases u <;> exact hu

theorem isFinite_neg (u : UnpackedFloat) : u.neg.isFinite = u.isFinite := by
  cases u <;> rfl

theorem isNaN_neg (u : UnpackedFloat) : u.neg.isNaN = u.isNaN := by
  cases u <;> rfl

theorem place_neg (hx : place format u = some x) : place format u.neg = some (-x) := by
  cases u with
  | notANumber => cases hx
  | infinity s =>
    cases hx
    rw [UnpackedFloat.neg, place, signed_neg]
  | zero s =>
    cases hx
    rw [UnpackedFloat.neg, place, neg_zero]
  | finite s m e hpos =>
    cases hx
    rw [UnpackedFloat.neg, place, signed_neg]

section Wide

variable (hwide : 1 < format.exponentBits)

include hwide

theorem IsCanonical.stored_eq (hu : IsCanonical format u) : stored format u = u := by
  cases u with
  | infinity s => exact stored_infinity hwide s
  | notANumber => exact stored_notANumber hwide
  | zero s => exact stored_zero hwide s
  | finite s m e hpos => exact Canonical.stored_finite hwide s hu hpos

/-! ### Sums and differences -/

omit hwide in
/-- A mantissa written out to a smaller exponent, with its sign. -/
theorem apply_decreaseExponent (s : Sign) (m : ℕ) {e t : ℤ} (h : t ≤ e) :
    (s.apply (decreaseExponent m e t).1 : ℚ) * 2 ^ t = signed s (m * 2 ^ e) := by
  obtain ⟨k, rfl⟩ := Int.le.dest h
  have hvalue : (((decreaseExponent m (t + k) t).1 : ℤ) : ℚ) * 2 ^ t = m * 2 ^ (t + k) := by
    rw [decreaseExponent, add_sub_cancel_left, Int.toNat_natCast, Nat.shiftLeft_eq,
      zpow_add₀ two_ne_zero, zpow_natCast]
    push_cast
    ring
  cases s with
  | negative => rw [Sign.apply, signed, Int.cast_neg, neg_mul, hvalue]
  | positive => exact hvalue

/-- **A sum is rounded to nearest.** -/
theorem place_stored_add (hu : IsCanonical format u) (hv : IsCanonical format v)
    (hfinite : u.isFinite = true) (hfinite' : v.isFinite = true)
    (hx : place format u = some x) (hy : place format v = some y) :
    place format (stored format (UnpackedFloat.add format u v)) = some (nearest format (x + y)) := by
  cases u with
  | infinity s => cases hfinite
  | notANumber => cases hfinite
  | zero s =>
    cases hx
    cases v with
    | infinity s' => cases hfinite'
    | notANumber => cases hfinite'
    | zero s' =>
      cases hy
      rw [UnpackedFloat.add]
      split
      all_goals rw [stored_zero hwide, place, zero_add, nearest_zero]
    | finite s' m' e' hpos' =>
      rw [zero_add, hv.nearest_eq hfinite' hy, ← hy]
      exact congrArg (place format) (hv.stored_eq hwide)
  | finite s m e hpos =>
    cases v with
    | infinity s' => cases hfinite'
    | notANumber => cases hfinite'
    | zero s' =>
      cases hy
      rw [add_zero, hu.nearest_eq hfinite hx, ← hx]
      exact congrArg (place format) (hu.stored_eq hwide)
    | finite s' m' e' hpos' =>
      cases hx
      cases hy
      rw [UnpackedFloat.add]
      dsimp only
      rw [place_stored_normalize hwide, Int.cast_add, add_mul,
        apply_decreaseExponent s m (min_le_left e e'),
        apply_decreaseExponent s' m' (min_le_right e e')]

omit hwide in
/-- A difference is a sum with the sign changed. -/
theorem sub_eq_add (format : Format) (u v : UnpackedFloat) :
    UnpackedFloat.sub format u v = UnpackedFloat.add format u v.neg := by
  cases u with
  | infinity s => cases v <;> rfl
  | notANumber => cases v <;> rfl
  | zero s => cases v <;> rfl
  | finite s m e hpos =>
    cases v with
    | infinity s' => rfl
    | notANumber => rfl
    | zero s' => rfl
    | finite s' m' e' hpos' =>
      have hsign : ∀ n : ℕ, s.apply (decreaseExponent m e (min e e')).1 - s'.apply n =
          s.apply (decreaseExponent m e (min e e')).1 + (-s').apply n := by
        intro n
        cases s'
        · exact (Int.sub_eq_add_neg).trans (congrArg _ (neg_neg _))
        · exact Int.sub_eq_add_neg
      rw [UnpackedFloat.neg, UnpackedFloat.sub, UnpackedFloat.add]
      exact congrArg (UnpackedFloat.normalize format · _ _) (hsign _)

/-- **A difference is rounded to nearest.** -/
theorem place_stored_sub (hu : IsCanonical format u) (hv : IsCanonical format v)
    (hfinite : u.isFinite = true) (hfinite' : v.isFinite = true)
    (hx : place format u = some x) (hy : place format v = some y) :
    place format (stored format (UnpackedFloat.sub format u v)) = some (nearest format (x - y)) := by
  rw [sub_eq_add, sub_eq_add_neg]
  refine place_stored_add hwide hu hv.neg hfinite ?_ hx (place_neg hy)
  rw [isFinite_neg, hfinite']

/-! ### Products and quotients -/

variable {m m' : ℕ} {e e' t : ℤ}

omit hwide in
/-- A value with a full mantissa has lost nothing to its exponent. -/
theorem HasExponent.le_of_full {n : ℕ} (ht : HasExponent format (n * 2 ^ e) t)
    (hfull : 2 ^ format.mantissaBitsWithoutImplicit ≤ n) : e ≤ t := by
  have hfull' : (2 : ℚ) ^ format.mantissaBitsWithoutImplicit ≤ n := by exact_mod_cast hfull
  have hless : (2 : ℚ) ^ format.mantissaBitsWithoutImplicit * 2 ^ e <
      2 ^ format.mantissaBitsWithoutImplicit * 2 ^ (t + 1) := by
    calc (2 : ℚ) ^ format.mantissaBitsWithoutImplicit * 2 ^ e ≤ n * 2 ^ e := by gcongr
      _ < 2 ^ format.mantissaBits * 2 ^ t := ht.lt
      _ = 2 ^ format.mantissaBitsWithoutImplicit * 2 ^ (t + 1) := by
        rw [two_pow_mantissaBits, zpow_add_one₀ two_ne_zero]
        ring
  have hexponent := (zpow_lt_zpow_iff_right₀ one_lt_two).1
    (lt_of_mul_lt_mul_left hless (by positivity))
  omega

omit hwide in
theorem Canonical.add_le_exponent (hm : Canonical format m e) (hm' : Canonical format m' e')
    (hpos : 0 < m) (hpos' : 0 < m') (ht : HasExponent format ((m * m' : ℕ) * 2 ^ (e + e')) t) :
    e + e' ≤ t := by
  have hmin : format.minExponent ≤ 0 := by
    obtain ⟨hbits, -, -, hmin⟩ := constants_eq format
    have hrange : 0 < 2 ^ (format.exponentBits - 1) := by positivity
    have hmantissa := format.hm
    omega
  rcases hm.full with hfull | rfl
  · exact ht.le_of_full (hfull.trans (Nat.le_mul_of_pos_right m hpos'))
  rcases hm'.full with hfull | rfl
  · exact ht.le_of_full (hfull.trans (Nat.le_mul_of_pos_left m' hpos))
  have hleast := ht.least
  omega

/-- **A product is rounded to nearest.** -/
theorem place_stored_mul (hu : IsCanonical format u) (hv : IsCanonical format v)
    (hfinite : u.isFinite = true) (hfinite' : v.isFinite = true)
    (hx : place format u = some x) (hy : place format v = some y) :
    place format (stored format (UnpackedFloat.mul format u v)) = some (nearest format (x * y)) := by
  cases u with
  | infinity s => cases hfinite
  | notANumber => cases hfinite
  | zero s =>
    cases hx
    rw [zero_mul, nearest_zero]
    cases v with
    | infinity s' => cases hfinite'
    | notANumber => cases hfinite'
    | zero s' => exact congrArg (place format) (stored_zero hwide _)
    | finite s' m' e' hpos' => exact congrArg (place format) (stored_zero hwide _)
  | finite s m e hpos =>
    cases v with
    | infinity s' => cases hfinite'
    | notANumber => cases hfinite'
    | zero s' =>
      cases hy
      rw [mul_zero, nearest_zero]
      exact congrArg (place format) (stored_zero hwide _)
    | finite s' m' e' hpos' =>
      cases hx
      cases hy
      have hvalue : (m : ℚ) * 2 ^ e * (m' * 2 ^ e') = (m * m' : ℕ) * 2 ^ (e + e') := by
        rw [zpow_add₀ two_ne_zero]
        push_cast
        ring
      rw [← signed_mul, hvalue, UnpackedFloat.mul]
      refine place_stored_roundWithAccuracy hwide _ (by positivity) ?_ fun t ht => ?_
      · rw [mul_div_cancel_right₀ _ (by positivity)]
        exact represents_exact _
      · exact Canonical.add_le_exponent hu hv hpos hpos' ht

omit hwide in
/-- A quotient of mantissas has no fewer bits than their lengths say, less one. -/
theorem HasExponent.targetExponent_le (hpos : 0 < m)
    (ht : HasExponent format (m * 2 ^ e / (m' * 2 ^ e')) t) (hpos' : 0 < m') :
    format.targetExponent (totalExponent m e - totalExponent m' e') ≤ t := by
  have hlow : (2 : ℚ) ^ (m.log2 : ℤ) ≤ m := by exact_mod_cast Nat.log2_self_le hpos.ne'
  have hhigh : (m' : ℚ) < 2 ^ ((m'.log2 + 1 : ℕ) : ℤ) := by exact_mod_cast Nat.lt_log2_self
  have hunit : (0 : ℚ) < m' * 2 ^ e' := by positivity
  have hless : (2 : ℚ) ^ (m.log2 + e : ℤ) <
      2 ^ (format.mantissaBits + t + (((m'.log2 + 1 : ℕ) : ℤ) + e')) := by
    rw [zpow_add₀ two_ne_zero, zpow_add₀ two_ne_zero, zpow_add₀ two_ne_zero, zpow_add₀ two_ne_zero]
    calc (2 : ℚ) ^ (m.log2 : ℤ) * 2 ^ e ≤ m * 2 ^ e := by gcongr
      _ < 2 ^ format.mantissaBits * 2 ^ t * (m' * 2 ^ e') := (div_lt_iff₀ hunit).1 ht.lt
      _ < 2 ^ format.mantissaBits * 2 ^ t * (2 ^ ((m'.log2 + 1 : ℕ) : ℤ) * 2 ^ e') := by gcongr
  have hexponent := (zpow_lt_zpow_iff_right₀ one_lt_two).1 hless
  have hleast := ht.least
  rw [Format.targetExponent, totalExponent, totalExponent]
  omega

/-- **A quotient is rounded to nearest.** -/
theorem place_stored_div (hfinite : u.isFinite = true) (hfinite' : v.isFinite = true)
    (hx : place format u = some x) (hy : place format v = some y) (hne : y ≠ 0) :
    place format (stored format (UnpackedFloat.div format u v)) = some (nearest format (x / y)) := by
  cases v with
  | infinity s' => cases hfinite'
  | notANumber => cases hfinite'
  | zero s' =>
    cases hy
    exact absurd rfl hne
  | finite s' m' e' hpos' =>
    cases u with
    | infinity s => cases hfinite
    | notANumber => cases hfinite
    | zero s =>
      cases hx
      rw [zero_div, nearest_zero]
      exact congrArg (place format) (stored_zero hwide _)
    | finite s m e hpos =>
      cases hx
      cases hy
      rw [← signed_div, UnpackedFloat.div, divCore]
      dsimp only
      generalize htarget : min (e - e') (format.targetExponent
        (totalExponent m e - totalExponent m' e')) = target
      have hle : target ≤ e - e' := htarget ▸ min_le_left _ _
      refine place_stored_roundWithAccuracy hwide _ (by positivity) ?_ fun t ht => ?_
      · have hvalue : (m : ℚ) * 2 ^ e / (m' * 2 ^ e') / 2 ^ target =
            (m <<< (e - e' - target).toNat : ℕ) / m' := by
          obtain ⟨k, hk⟩ := Int.le.dest hle
          obtain rfl : e = e' + target + k := by omega
          rw [show e' + target + k - e' - target = k by omega, Int.toNat_natCast,
            Nat.shiftLeft_eq, zpow_add₀ two_ne_zero, zpow_add₀ two_ne_zero, zpow_natCast]
          push_cast
          field_simp
        rw [hvalue]
        exact represents_fraction _ hpos'
      · rw [← htarget]
        exact (min_le_right _ _).trans (ht.targetExponent_le hpos hpos')

theorem place_stored_ofScientific (n : ℕ) :
    place format (stored format (UnpackedFloat.ofScientific format n 0)) =
      some (nearest format n) := by
  have hrange : (0 : ℤ) < 2 ^ format.exponentBits := by positivity
  rw [UnpackedFloat.ofScientific]
  split_ifs with hzero hhigh hlow hsign
  · rw [stored_zero hwide, place, hzero, Nat.cast_zero, nearest_zero]
  · exact absurd hhigh (by omega)
  · exact absurd hlow (by omega)
  · refine place_stored_roundWithAccuracy (x := n) hwide .positive (by positivity) ?_ fun t ht => ?_
    · have hvalue : (n : ℚ) / 2 ^ (-(format.mantissaBits : ℤ) + 0) =
          (n <<< format.mantissaBits * 10 ^ (0 : ℤ).toNat : ℕ) := by
        rw [add_zero, zpow_neg, div_inv_eq_mul, zpow_natCast, Nat.shiftLeft_eq]
        push_cast
        simp
      rw [hvalue]
      exact represents_exact _
    · have hone : (1 : ℚ) ≤ n := by exact_mod_cast Nat.one_le_iff_ne_zero.2 hzero
      have hless : (2 : ℚ) ^ (0 : ℤ) < 2 ^ ((format.mantissaBits : ℤ) + t) := by
        rw [zpow_zero, zpow_add₀ two_ne_zero, zpow_natCast]
        exact hone.trans_lt ht.lt
      have hexponent := (zpow_lt_zpow_iff_right₀ one_lt_two).1 hless
      omega
  · exact absurd le_rfl hsign

end Wide

/-! ### Comparisons -/

section Comparison

variable {m m' : ℕ} {e e' : ℤ}

theorem Canonical.lt_of_exponent_lt (hm : Canonical format m e) (hm' : Canonical format m' e')
    (h : e < e') : (m : ℚ) * 2 ^ e < m' * 2 ^ e' := by
  have hfull : (2 : ℚ) ^ format.mantissaBitsWithoutImplicit ≤ m' := by
    exact_mod_cast hm'.full.resolve_right (ne_of_gt (hm.least.trans_lt h))
  calc (m : ℚ) * 2 ^ e < 2 ^ format.mantissaBits * 2 ^ e := hm.hasExponent.lt
    _ = 2 ^ format.mantissaBitsWithoutImplicit * 2 ^ (e + 1) := by
      rw [two_pow_mantissaBits, zpow_add_one₀ two_ne_zero]
      ring
    _ ≤ 2 ^ format.mantissaBitsWithoutImplicit * 2 ^ e' := by
      gcongr
      · exact one_le_two
      · omega
    _ ≤ m' * 2 ^ e' := by gcongr

theorem Canonical.cmp_eq (hm : Canonical format m e) (hm' : Canonical format m' e') :
    (compare e e').then (compare m m') = cmp ((m : ℚ) * 2 ^ e) (m' * 2 ^ e') := by
  rcases lt_trichotomy e e' with hlt | rfl | hgt
  · rw [compare_lt_iff_lt.2 hlt, (cmp_eq_lt_iff _ _).2 (hm.lt_of_exponent_lt hm' hlt)]
    rfl
  · have hunit : (0 : ℚ) < 2 ^ e := by positivity
    rw [compare_eq_iff_eq.2 rfl, Ordering.eq_then, cmp_mul_pos_right hunit,
      Nat.strictMono_cast.cmp_map_eq, cmp_eq_compare]
  · rw [compare_gt_iff_gt.2 hgt, (cmp_eq_gt_iff _ _).2 (hm'.lt_of_exponent_lt hm hgt)]
    rfl

/-- **Two numbers compare as their places do.** -/
theorem compare_eq (hu : IsCanonical format u) (hv : IsCanonical format v)
    (hx : place format u = some x) (hy : place format v = some y) :
    u.compare v = some (cmp x y) := by
  have hlimit := limit_pos format
  have hbounds : ∀ {s : Sign} {m : ℕ} {e : ℤ} {hpos : 0 < m},
      IsCanonical format (.finite s m e hpos) →
        (0 : ℚ) < m * 2 ^ e ∧ (m : ℚ) * 2 ^ e < limit format :=
    fun {s m e hpos} h => ⟨by positivity, Canonical.lt_limit h⟩
  rcases u with ⟨_ | _⟩ | _ | ⟨_⟩ | ⟨_ | _, m, e, hpos⟩ <;>
    rcases v with ⟨_ | _⟩ | _ | ⟨_⟩ | ⟨_ | _, m', e', hpos'⟩ <;> cases hx <;> cases hy
  all_goals
    refine congrArg some ?_
    try have hx := hbounds hu
    try have hy := hbounds hv
    try simp only [signed]
  -- finite values of one sign compare by exponent and mantissa, all others by their kind
  case finite.negative.finite.negative.refl.refl =>
    have hneg : StrictAnti fun q : ℚ => -q := fun _ _ h => neg_lt_neg h
    rw [Canonical.cmp_eq hu hv, cmp_swap]
    exact (hneg.cmp_map_eq _ _).symm
  case finite.positive.finite.positive.refl.refl => exact Canonical.cmp_eq hu hv
  all_goals first
    | exact ((cmp_eq_eq_iff _ _).2 rfl).symm
    | exact ((cmp_eq_lt_iff _ _).2 (by linarith)).symm
    | exact ((cmp_eq_gt_iff _ _).2 (by linarith)).symm

end Comparison

end CarrierTransport.Rounding
