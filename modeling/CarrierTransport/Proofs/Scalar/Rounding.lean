import CarrierTransport.Proofs.Scalar.Packing

/-!
# What is rounded to a number

A mantissa with a round bit and a sticky bit tells in which half of a unit the exact value lies
(`Represents`), and shifts to the right keep it. So whichever mantissa and exponent a value comes
as, it is rounded to a number of the format that is nearer than half a unit in the last place of a
full mantissa (`roundWithAccuracy_eq`), and a decimal that is as near denotes that number
(`ofScientific_eq`).

`PackedScalar` states what is used of a precision that stores the numbers of its format; both
precisions of a simulation have it.
-/

namespace CarrierTransport

namespace Rounding

open Float.Model (Format UnpackedFloat totalExponent)
open Float.Model.UnpackedFloat (Sign Accuracy ExtendedMantissa accuracyOfFraction divCore
  ofScientific roundWithAccuracy shiftToTargetExponent shiftToExponent)

/-! ### Mantissas with a round bit and a sticky bit -/

/-- The numbers that a mantissa with a round bit and a sticky bit stands for. -/
def Represents (em : ExtendedMantissa) (x : ℚ) : Prop :=
  match em.roundBit, em.stickyBit with
  | false, false => x = em.mantissa
  | false, true => em.mantissa < x ∧ x < em.mantissa + 1 / 2
  | true, false => x = em.mantissa + 1 / 2
  | true, true => em.mantissa + 1 / 2 < x ∧ x < em.mantissa + 1

theorem represents_exact (m : ℕ) : Represents (.ofMantissaAndAccuracy m .exact) m :=
  rfl

/-- A quotient is its whole part and a rest below one. -/
theorem quotient_eq (num : ℕ) {den : ℕ} (hden : 0 < den) :
    (num : ℚ) / den = (num / den : ℕ) + ((num % den : ℕ) : ℚ) / den ∧
      ((num % den : ℕ) : ℚ) / den < 1 := by
  have hden' : (0 : ℚ) < den := by exact_mod_cast hden
  constructor
  · rw [div_eq_iff hden'.ne', add_mul, div_mul_cancel₀ _ hden'.ne']
    exact_mod_cast (Nat.div_add_mod' num den).symm
  · rw [div_lt_one hden']
    exact_mod_cast Nat.mod_lt num hden

theorem represents_fraction (num : ℕ) {den : ℕ} (hden : 0 < den) :
    Represents (.ofMantissaAndAccuracy (num / den) (accuracyOfFraction (num % den) den))
      (num / den) := by
  have hden' : (0 : ℚ) < den := by exact_mod_cast hden
  obtain ⟨hsplit, hrest⟩ := quotient_eq num hden
  rw [hsplit, accuracyOfFraction]
  generalize num % den = r at hrest ⊢
  generalize num / den = q
  by_cases hr : r = 0
  · rw [if_pos hr, hr]
    simp [Represents, ExtendedMantissa.ofMantissaAndAccuracy]
  · have hpos : 0 < (r : ℚ) / den := div_pos (by exact_mod_cast Nat.pos_of_ne_zero hr) hden'
    rw [if_neg hr]
    cases hcompare : compare (2 * r) den with
    | lt =>
      have hlt : (2 * r : ℚ) < den := by exact_mod_cast compare_lt_iff_lt.1 hcompare
      have hhalf : (r : ℚ) / den < 1 / 2 := by
        rw [div_lt_div_iff₀ hden' two_pos]
        linarith
      exact ⟨lt_add_of_pos_right _ hpos, (add_lt_add_iff_left _).2 hhalf⟩
    | eq =>
      have heq : (2 * r : ℚ) = den := by exact_mod_cast compare_eq_iff_eq.1 hcompare
      have hhalf : (r : ℚ) / den = 1 / 2 := by
        rw [div_eq_div_iff hden'.ne' two_ne_zero]
        linarith
      exact congrArg _ hhalf
    | gt =>
      have hgt : (den : ℚ) < 2 * r := by exact_mod_cast compare_gt_iff_gt.1 hcompare
      have hhalf : 1 / 2 < (r : ℚ) / den := by
        rw [div_lt_div_iff₀ two_pos hden']
        linarith
      exact ⟨(add_lt_add_iff_left _).2 hhalf, (add_lt_add_iff_left _).2 hrest⟩

variable {em : ExtendedMantissa} {x : ℚ}

theorem Represents.bounds (h : Represents em x) : (em.mantissa : ℚ) ≤ x ∧ x < em.mantissa + 1 := by
  obtain ⟨m, r, s⟩ := em
  cases r <;> cases s <;> simp only [Represents] at h ⊢ <;> constructor <;> linarith

theorem Represents.shiftRightOne (h : Represents em x) :
    Represents em.shiftRightOne (x / 2) := by
  obtain ⟨m, r, s⟩ := em
  have hsplit : (m : ℚ) = 2 * (m / 2 : ℕ) + (m % 2 : ℕ) := by
    exact_mod_cast (Nat.div_add_mod m 2).symm
  rcases Nat.mod_two_eq_zero_or_one m with hm | hm <;> rw [hm] at hsplit <;>
    cases r <;> cases s <;>
    simp only [Represents, ExtendedMantissa.shiftRightOne, hm] at h ⊢ <;>
    push_cast at hsplit <;> simp <;> (try constructor) <;> linarith

/-- Repeated shifts to the right. -/
theorem Represents.shiftRight (h : Represents em x) (n : ℕ) :
    Represents (em >>> n) (x / 2 ^ n) := by
  change Represents (n.repeat ExtendedMantissa.shiftRightOne em) _
  induction n with
  | zero => simpa [Nat.repeat] using h
  | succ n ih =>
    rw [Nat.repeat, pow_succ, ← div_div]
    exact ih.shiftRightOne

/-- What is nearer to a natural number than a half is rounded to it. -/
theorem Represents.roundedMantissa_eq (h : Represents em x) {n : ℕ} (hnear : |x - n| < 1 / 2) :
    em.roundedMantissa = n := by
  obtain ⟨hlow, hhigh⟩ := abs_lt.1 hnear
  obtain ⟨m, r, s⟩ := em
  -- between a number and its successor there is no other
  have heq : ∀ k : ℕ, (k : ℚ) < n + 1 → (n : ℚ) < k + 1 → k = n := by
    intro k hk hn
    have hk' : k < n + 1 := by exact_mod_cast hk
    have hn' : n < k + 1 := by exact_mod_cast hn
    omega
  cases r <;> cases s <;> simp only [Represents] at h
  · exact heq m (by linarith) (by linarith)
  · exact heq m (by linarith) (by linarith)
  · have hlt : m < n := by
      have : (m : ℚ) < n := by linarith
      exact_mod_cast this
    have hlt' : n < m + 1 := by
      have : (n : ℚ) < m + 1 := by linarith
      exact_mod_cast this
    omega
  · exact heq (m + 1) (by push_cast; linarith) (by push_cast; linarith)

/-- A natural number is represented by itself. -/
theorem Represents.mantissa_eq {n : ℕ} (h : Represents em n) : em.mantissa = n := by
  obtain ⟨hlow, hhigh⟩ := h.bounds
  have hlow' : em.mantissa ≤ n := by exact_mod_cast hlow
  have hhigh' : n < em.mantissa + 1 := by exact_mod_cast hhigh
  omega

/-! ### Exponents -/

variable {format : Format}

/-- The exponent that a value has in a format: the value is below the mantissas of one more bit, and
not below the full ones unless the exponent is the least. -/
structure HasExponent (format : Format) (x : ℚ) (e : ℤ) : Prop where
  least : format.minExponent ≤ e
  lt : x < 2 ^ format.mantissaBits * (2 : ℚ) ^ e
  full : 2 ^ format.mantissaBitsWithoutImplicit * (2 : ℚ) ^ e ≤ x ∨ e = format.minExponent

/-- The mantissas and exponents of the finite numbers of a format. -/
structure Canonical (format : Format) (mantissa : ℕ) (exponent : ℤ) : Prop where
  lt : mantissa < 2 ^ format.mantissaBits
  least : format.minExponent ≤ exponent
  greatest : exponent + format.mantissaBits ≤ 2 ^ (format.exponentBits - 1)
  full : 2 ^ format.mantissaBitsWithoutImplicit ≤ mantissa ∨ exponent = format.minExponent

theorem Canonical.hasExponent {m : ℕ} {e : ℤ} (h : Canonical format m e) :
    HasExponent format (m * 2 ^ e) e where
  least := h.least
  lt := by
    refine mul_lt_mul_of_pos_right ?_ (by positivity)
    exact_mod_cast h.lt
  full := h.full.imp_left fun hm => by
    refine mul_le_mul_of_nonneg_right ?_ (by positivity)
    exact_mod_cast hm

/-- Precision below the exponent of a value shows in more bits of the mantissa. -/
theorem HasExponent.targetExponent_eq {m : ℕ} {e t : ℤ} (ht : HasExponent format x t)
    (he : e ≤ t) (hm : (m : ℚ) ≤ x / 2 ^ e) (hm' : x / 2 ^ e < m + 1) :
    format.targetExponent (totalExponent m e) = t := by
  obtain ⟨k, rfl⟩ := Int.le.dest he
  have hpos : (0 : ℚ) < 2 ^ e := by positivity
  have hscale : ∀ b : ℕ, 2 ^ b * (2 : ℚ) ^ (e + k) / 2 ^ e = ((2 ^ (b + k) : ℕ) : ℚ) := by
    intro b
    rw [zpow_add₀ two_ne_zero, zpow_natCast]
    push_cast
    field_simp
    ring
  have hlt : m < 2 ^ (format.mantissaBits + k) := by
    have hx := hm.trans_lt (div_lt_div_of_pos_right ht.lt hpos)
    rw [hscale] at hx
    exact_mod_cast hx
  have hbits : format.mantissaBits = 1 + format.mantissaBitsWithoutImplicit := rfl
  have hleast := ht.least
  have hlog : m.log2 < format.mantissaBits + k := by
    by_cases hzero : m = 0
    · rw [hzero, Nat.log2_zero]
      omega
    · exact (Nat.log2_lt hzero).2 hlt
  rw [Format.targetExponent, totalExponent]
  obtain hfull | hmin := ht.full
  · have hge : 2 ^ (format.mantissaBitsWithoutImplicit + k) ≤ m := by
      have hx := (div_le_div_of_nonneg_right hfull hpos.le).trans_lt hm'
      rw [hscale] at hx
      exact Nat.lt_succ_iff.1 (by exact_mod_cast hx)
    have hne : m ≠ 0 := (lt_of_lt_of_le (by positivity) hge).ne'
    have hlog' := (Nat.le_log2 hne).2 hge
    omega
  · omega

/-- A shift to the exponent of the value. -/
theorem Represents.shiftToTargetExponent {m : ℕ} {e t : ℤ} {accuracy : Accuracy}
    (h : Represents (.ofMantissaAndAccuracy m accuracy) (x / 2 ^ e))
    (ht : HasExponent format x t) (he : e ≤ t) :
    ∃ em, shiftToTargetExponent format m e accuracy = (em, t) ∧ Represents em (x / 2 ^ t) := by
  have hmantissa : (ExtendedMantissa.ofMantissaAndAccuracy m accuracy).mantissa = m := by
    cases accuracy with
    | exact => rfl
    | inexact o => cases o <;> rfl
  obtain ⟨hm, hm'⟩ := h.bounds
  rw [hmantissa] at hm hm'
  have htarget := ht.targetExponent_eq he hm hm'
  obtain ⟨k, rfl⟩ := Int.le.dest he
  refine ⟨ExtendedMantissa.ofMantissaAndAccuracy m accuracy >>> k, ?_, ?_⟩
  · rw [UnpackedFloat.shiftToTargetExponent, htarget, shiftToExponent, add_sub_cancel_left,
      Int.toNat_natCast]
  · rw [zpow_add₀ two_ne_zero, zpow_natCast, ← div_div]
    exact h.shiftRight k

/-! ### Rounding -/

/-- A number that is nearer to a value than half a unit in the last place of a full mantissa. -/
def Near (format : Format) (x y : ℚ) : Prop :=
  |x - y| * 2 ^ (format.mantissaBits + 1) < y

variable {mantissa : ℕ} {exponent : ℤ}

/-- The second shift of a rounding takes back a carry. -/
theorem Canonical.shiftToTargetExponent (h : Canonical format mantissa exponent) {r : ℕ} {t : ℤ}
    (ht : t ≤ exponent) (hr : (r : ℚ) * 2 ^ t = mantissa * 2 ^ exponent) :
    ∃ em, shiftToTargetExponent format r t .exact = (em, exponent) ∧ em.mantissa = mantissa := by
  have hrep : Represents (.ofMantissaAndAccuracy r .exact) (mantissa * 2 ^ exponent / 2 ^ t) := by
    rw [← hr, mul_div_cancel_right₀ _ (by positivity)]
    exact represents_exact r
  obtain ⟨em, hem, hrep⟩ := hrep.shiftToTargetExponent h.hasExponent ht
  rw [mul_div_cancel_right₀ _ (by positivity)] at hrep
  exact ⟨em, hem, hrep.mantissa_eq⟩

theorem two_pow_mantissaBits (format : Format) :
    (2 : ℚ) ^ format.mantissaBits = 2 * 2 ^ format.mantissaBitsWithoutImplicit := by
  rw [Format.mantissaBits, pow_add, pow_one]

/-- A near value in units of the last place. -/
theorem Canonical.exists_units (h : Canonical format mantissa exponent)
    (hnear : Near format x (mantissa * 2 ^ exponent)) :
    ∃ y : ℚ, x = y * 2 ^ exponent ∧
      |y - mantissa| * (4 * 2 ^ format.mantissaBitsWithoutImplicit) < mantissa ∧
      |y - mantissa| < 1 / 2 := by
  have hunit : (0 : ℚ) < 2 ^ exponent := by positivity
  obtain ⟨y, rfl⟩ : ∃ y, x = y * 2 ^ exponent :=
    ⟨x / 2 ^ exponent, (div_mul_cancel₀ _ hunit.ne').symm⟩
  have hone : (1 : ℚ) ≤ 2 ^ format.mantissaBitsWithoutImplicit := one_le_pow₀ one_le_two
  have hbelow : (mantissa : ℚ) < 2 ^ format.mantissaBits := by exact_mod_cast h.lt
  rw [two_pow_mantissaBits] at hbelow
  have hclose : |y - mantissa| * (4 * 2 ^ format.mantissaBitsWithoutImplicit) < mantissa := by
    rw [Near, ← sub_mul, abs_mul, abs_of_pos hunit, mul_right_comm, pow_succ,
      two_pow_mantissaBits] at hnear
    have hlt := lt_of_mul_lt_mul_right hnear hunit.le
    linarith
  exact ⟨y, rfl, hclose, by nlinarith [abs_nonneg (y - mantissa)]⟩

/-- Below the number with the shortest full mantissa the exponent is one less. -/
theorem Canonical.hasExponent_of_near (h : Canonical format mantissa exponent)
    (hnear : Near format x (mantissa * 2 ^ exponent)) :
    ∃ (t : ℤ) (r : ℕ), HasExponent format x t ∧ t ≤ exponent ∧
      (r : ℚ) * 2 ^ t = mantissa * 2 ^ exponent ∧ |x / 2 ^ t - r| < 1 / 2 := by
  obtain ⟨y, rfl, hnear, hhalf⟩ := h.exists_units hnear
  have hunit : (0 : ℚ) < 2 ^ exponent := by positivity
  -- everything is a multiple of the shortest full mantissa
  have hbits := two_pow_mantissaBits format
  have hone : (1 : ℚ) ≤ 2 ^ format.mantissaBitsWithoutImplicit := one_le_pow₀ one_le_two
  have hbelow : (mantissa : ℚ) + 1 ≤ 2 ^ format.mantissaBits := by exact_mod_cast h.lt
  have hfull := h.full
  rw [hbits] at hbelow
  generalize hb : (2 : ℚ) ^ format.mantissaBitsWithoutImplicit = b at hbits hone hbelow hnear
  obtain ⟨hlow, hhigh⟩ := abs_lt.1 hhalf
  by_cases hexponent : b ≤ y ∨ exponent = format.minExponent
  · refine ⟨exponent, mantissa, ⟨h.least, ?_, hexponent.imp_left fun hy => ?_⟩, le_rfl, rfl, ?_⟩
    · rw [hbits]
      exact mul_lt_mul_of_pos_right (by linarith) hunit
    · rw [hb]
      exact mul_le_mul_of_nonneg_right hy hunit.le
    · rwa [mul_div_cancel_right₀ _ hunit.ne']
  · obtain ⟨hy, hmin⟩ := not_or.1 hexponent
    rw [not_le] at hy
    have hmantissa : (mantissa : ℚ) = b := by
      have hlt : (mantissa : ℚ) < b + 1 := by linarith
      rw [← hb] at hlt ⊢
      have hlt' : mantissa < 2 ^ format.mantissaBitsWithoutImplicit + 1 := by exact_mod_cast hlt
      exact_mod_cast le_antisymm (Nat.lt_succ_iff.1 hlt') (hfull.resolve_right hmin)
    have hless : (2 : ℚ) ^ exponent = 2 ^ (exponent - 1) * 2 := by
      rw [← zpow_add_one₀ two_ne_zero, sub_add_cancel]
    have hunit' : (0 : ℚ) < 2 ^ (exponent - 1) := by positivity
    have hleast := h.least
    rw [hmantissa] at hnear
    refine ⟨exponent - 1, 2 ^ format.mantissaBits, ⟨by omega, ?_, .inl ?_⟩, by omega, ?_, ?_⟩
    · rw [hbits, hless]
      nlinarith
    · rw [hb, hless]
      nlinarith
    · push_cast
      rw [hbits, hmantissa, hless]
      ring
    · push_cast
      rw [hbits, hless, ← mul_assoc, mul_right_comm, mul_div_cancel_right₀ _ hunit'.ne',
        mul_comm 2 b, ← sub_mul, abs_mul, abs_two]
      nlinarith

/-- **What is near enough to a number is rounded to it**, if nothing of it is lost before. -/
theorem roundWithAccuracy_eq {m : ℕ} {e : ℤ} {accuracy : Accuracy} (sign : Sign)
    (hpos : 0 < mantissa) (h : Canonical format mantissa exponent)
    (hnear : Near format x (mantissa * 2 ^ exponent))
    (hrep : Represents (.ofMantissaAndAccuracy m accuracy) (x / 2 ^ e))
    (hprecise : ∀ t, HasExponent format x t → e ≤ t) :
    roundWithAccuracy format sign m e accuracy = .finite sign mantissa exponent hpos := by
  obtain ⟨t, r, ht, hle, hr, hhalf⟩ := h.hasExponent_of_near hnear
  obtain ⟨em, hem, hrep⟩ := hrep.shiftToTargetExponent ht (hprecise t ht)
  obtain ⟨em', hem', rfl⟩ := h.shiftToTargetExponent hle hr
  rw [roundWithAccuracy, hem]
  dsimp only
  rw [hrep.roundedMantissa_eq hhalf, hem']
  dsimp only
  rw [dif_neg hpos.ne']

/-! ### Decimals -/

theorem Near.bounds {y : ℚ} (h : Near format x y) : y < 2 * x ∧ x < 2 * y := by
  have hone : (1 : ℚ) ≤ 2 ^ format.mantissaBits := one_le_pow₀ one_le_two
  have habs : |x - y| * 2 < y := by
    rw [Near, pow_succ] at h
    nlinarith [abs_nonneg (x - y)]
  obtain ⟨hlow, hhigh⟩ := abs_lt.1 (show |x - y| < y / 2 by linarith)
  constructor <;> linarith

variable {q : ℕ} {e : ℤ}

theorem Near.ne_zero {y : ℚ} (hy : 0 < y) (h : Near format (q * 10 ^ e) y) : q ≠ 0 := by
  rintro rfl
  have hlow := h.bounds.1
  rw [Nat.cast_zero, zero_mul, mul_zero] at hlow
  exact hy.not_gt hlow

/-- The exponents of a format reach further than its mantissas. -/
theorem range_eq (hformat : format.mantissaBits ≤ 2 ^ (format.exponentBits - 1)) :
    (2 : ℤ) ^ format.exponentBits = 2 * 2 ^ (format.exponentBits - 1) ∧
      (format.mantissaBits : ℤ) ≤ 2 ^ (format.exponentBits - 1) ∧
      (0 : ℤ) < 2 ^ (format.exponentBits - 1) := by
  refine ⟨?_, by exact_mod_cast hformat, by positivity⟩
  rw [← pow_succ', Nat.sub_add_cancel format.he]

/-- A decimal near to a number of the format is not too large for it. -/
theorem Canonical.exponent_le (hformat : format.mantissaBits ≤ 2 ^ (format.exponentBits - 1))
    (h : Canonical format mantissa exponent) (hq : q ≠ 0)
    (hnear : Near format (q * 10 ^ e) (mantissa * 2 ^ exponent)) :
    e ≤ 2 ^ format.exponentBits := by
  have hone : (1 : ℚ) ≤ q := by exact_mod_cast Nat.one_le_iff_ne_zero.2 hq
  obtain ⟨hdouble, hbits, hrange⟩ := range_eq hformat
  have hgreatest := h.greatest
  by_contra hlt
  have hten : (2 : ℚ) ^ e ≤ 10 ^ e := zpow_le_zpow_left₀ (by omega) two_pos.le (by norm_num)
  have hmantissa : (mantissa : ℚ) < 2 ^ format.mantissaBits := by exact_mod_cast h.lt
  have htwo : (2 : ℚ) ^ e < 2 ^ (1 + (format.mantissaBits : ℤ) + exponent) := by
    rw [zpow_add₀ two_ne_zero, zpow_add₀ two_ne_zero, zpow_one, zpow_natCast]
    calc (2 : ℚ) ^ e ≤ 10 ^ e := hten
      _ ≤ q * 10 ^ e := le_mul_of_one_le_left (by positivity) hone
      _ < 2 * (mantissa * 2 ^ exponent) := hnear.bounds.2
      _ < 2 * (2 ^ format.mantissaBits * 2 ^ exponent) := by gcongr
      _ = 2 * 2 ^ format.mantissaBits * 2 ^ exponent := by ring
  have hlt' := (zpow_lt_zpow_iff_right₀ one_lt_two).1 htwo
  omega

/-- Nor is it too small. -/
theorem Canonical.le_exponent (hformat : format.mantissaBits ≤ 2 ^ (format.exponentBits - 1))
    (hpos : 0 < mantissa) (h : Canonical format mantissa exponent)
    (hnear : Near format (q * 10 ^ e) (mantissa * 2 ^ exponent)) :
    -(2 ^ format.exponentBits + (q.log2 : ℤ)) ≤ e := by
  have hmantissa : (1 : ℚ) ≤ mantissa := by exact_mod_cast hpos
  obtain ⟨hdouble, hbits, hrange⟩ := range_eq hformat
  by_contra hlt
  have hten : (10 : ℚ) ^ e ≤ 2 ^ e := by
    obtain ⟨k, rfl⟩ : ∃ k : ℕ, e = -k := ⟨(-e).toNat, by omega⟩
    rw [zpow_neg, zpow_neg, zpow_natCast, zpow_natCast]
    exact inv_anti₀ (by positivity) (pow_le_pow_left₀ two_pos.le (by norm_num) k)
  have hlog : (q : ℚ) < 2 ^ (q.log2 + 1) := by
    exact_mod_cast Nat.lt_log2_self
  have hleast : (2 : ℚ) ^ format.minExponent ≤ 2 ^ exponent :=
    zpow_le_zpow_right₀ one_le_two h.least
  have hunit : (0 : ℚ) < 2 ^ exponent := by positivity
  have hunit' : (0 : ℚ) < 2 ^ e := by positivity
  have htwo : (2 : ℚ) ^ format.minExponent < 2 ^ (1 + ((q.log2 + 1 : ℕ) : ℤ) + e) := by
    rw [zpow_add₀ two_ne_zero, zpow_add₀ two_ne_zero, zpow_one, zpow_natCast]
    calc (2 : ℚ) ^ format.minExponent ≤ mantissa * 2 ^ exponent := by nlinarith
      _ < 2 * (q * 10 ^ e) := hnear.bounds.1
      _ ≤ 2 * (q * 2 ^ e) := by gcongr
      _ < 2 * (2 ^ (q.log2 + 1) * 2 ^ e) := by gcongr
      _ = 2 * 2 ^ (q.log2 + 1) * 2 ^ e := by ring
  have hlt' := (zpow_lt_zpow_iff_right₀ one_lt_two).1 htwo
  rw [Format.minExponent] at hlt'
  omega

/-- A product with a number from one on has lost nothing. -/
theorem mul_eq (hpos : 0 < mantissa) (h : Canonical format mantissa exponent) {q n : ℕ}
    (hq : 0 < q) (hn : 0 < n) (hnear : Near format (q * n) (mantissa * 2 ^ exponent))
    (hmul : 0 < q <<< format.mantissaBits) :
    UnpackedFloat.mul format
        (.finite .positive (q <<< format.mantissaBits) (-format.mantissaBits) hmul)
        (.finite .positive n 0 hn) = .finite .positive mantissa exponent hpos := by
  have hone : (1 : ℚ) ≤ q * n := by exact_mod_cast Nat.mul_pos hq hn
  refine roundWithAccuracy_eq .positive hpos h hnear ?_ fun t ht => ?_
  · have hvalue : (q * n : ℚ) / 2 ^ (-(format.mantissaBits : ℤ) + 0) =
        (q <<< format.mantissaBits * n : ℕ) := by
      rw [add_zero, zpow_neg, div_inv_eq_mul, zpow_natCast, Nat.shiftLeft_eq]
      push_cast
      ring
    rw [hvalue]
    exact represents_exact _
  · have htwo : (2 : ℚ) ^ (0 : ℤ) < 2 ^ ((format.mantissaBits : ℤ) + t) := by
      rw [zpow_zero, zpow_add₀ two_ne_zero, zpow_natCast]
      exact hone.trans_lt ht.lt
    have hlt := (zpow_lt_zpow_iff_right₀ one_lt_two).1 htwo
    omega

/-- A quotient has no fewer bits than its parts say, less one. -/
theorem HasExponent.log2_lt {q n : ℕ} {t : ℤ} (hq : q ≠ 0) (hn : 0 < n)
    (ht : HasExponent format (q / n) t) :
    (q.log2 : ℤ) < format.mantissaBits + t + (n.log2 + 1) := by
  have hn' : (0 : ℚ) < n := by exact_mod_cast hn
  have hlog : (2 : ℚ) ^ q.log2 ≤ q := by exact_mod_cast Nat.log2_self_le hq
  have hlog' : (n : ℚ) < 2 ^ (n.log2 + 1) := by exact_mod_cast Nat.lt_log2_self (n := n)
  have hlt := (div_lt_iff₀ hn').1 ht.lt
  have htwo : (2 : ℚ) ^ (q.log2 : ℤ) <
      2 ^ ((format.mantissaBits : ℤ) + t + ((n.log2 + 1 : ℕ) : ℤ)) := by
    rw [zpow_add₀ two_ne_zero, zpow_add₀ two_ne_zero]
    simp only [zpow_natCast]
    calc (2 : ℚ) ^ q.log2 ≤ q := hlog
      _ < 2 ^ format.mantissaBits * 2 ^ t * n := hlt
      _ < 2 ^ format.mantissaBits * 2 ^ t * 2 ^ (n.log2 + 1) := by gcongr
  exact_mod_cast (zpow_lt_zpow_iff_right₀ one_lt_two).1 htwo

theorem div_eq (hpos : 0 < mantissa) (h : Canonical format mantissa exponent) {q n : ℕ}
    (hq : 0 < q) (hn : 0 < n) (hnear : Near format (q / n) (mantissa * 2 ^ exponent)) :
    UnpackedFloat.div format (.finite .positive q 0 hq) (.finite .positive n 0 hn) =
      .finite .positive mantissa exponent hpos := by
  rw [UnpackedFloat.div, divCore]
  dsimp only
  rw [sub_zero, zero_sub]
  generalize htarget : min 0 (format.targetExponent
    (totalExponent q 0 - totalExponent n 0)) = target
  have hnonpos : target ≤ 0 := htarget ▸ min_le_left _ _
  refine roundWithAccuracy_eq .positive hpos h hnear ?_ fun t ht => ?_
  · have hvalue : (q / n : ℚ) / 2 ^ target = (q <<< (-target).toNat : ℕ) / n := by
      obtain ⟨j, rfl⟩ : ∃ j : ℕ, target = -j := ⟨(-target).toNat, by omega⟩
      rw [neg_neg, Int.toNat_natCast, Nat.shiftLeft_eq, zpow_neg, zpow_natCast, div_inv_eq_mul]
      push_cast
      ring
    rw [hvalue]
    exact represents_fraction _ hn
  · have hlt := ht.log2_lt hq.ne' hn
    have hleast := ht.least
    rw [← htarget, Format.targetExponent, totalExponent, totalExponent]
    omega

/-- **A decimal near enough to a number denotes it.** -/
theorem ofScientific_eq (hformat : format.mantissaBits ≤ 2 ^ (format.exponentBits - 1))
    (hpos : 0 < mantissa) (h : Canonical format mantissa exponent) {q : ℕ} {e : ℤ}
    (hnear : Near format (q * 10 ^ e) (mantissa * 2 ^ exponent)) :
    ofScientific format q e = .finite .positive mantissa exponent hpos := by
  have hvalue : (0 : ℚ) < mantissa * 2 ^ exponent :=
    mul_pos (by exact_mod_cast hpos) (by positivity)
  have hq := hnear.ne_zero hvalue
  have hhigh := h.exponent_le hformat hq hnear
  have hlow := h.le_exponent hformat hpos hnear
  rw [ofScientific, dif_neg hq, if_neg (not_lt.2 hhigh), if_neg (not_lt.2 hlow)]
  have hten : ∀ k : ℕ, 0 < 10 ^ k := fun k => by positivity
  split_ifs with he
  · refine mul_eq hpos h (Nat.pos_of_ne_zero hq) (hten _) ?_ _
    obtain ⟨k, rfl⟩ := Int.eq_ofNat_of_zero_le he
    rw [zpow_natCast] at hnear
    rw [Int.toNat_natCast]
    exact_mod_cast hnear
  · refine div_eq hpos h (Nat.pos_of_ne_zero hq) (hten _) ?_
    obtain ⟨k, rfl⟩ : ∃ k : ℕ, e = -k := ⟨(-e).toNat, by omega⟩
    rw [zpow_neg, zpow_natCast, ← div_eq_mul_inv] at hnear
    rw [neg_neg, Int.toNat_natCast]
    exact_mod_cast hnear

/-! ### The numbers of a format -/

/-- The finite value of some fields is one of the format. -/
theorem canonical_of_value_eq (hwide : 1 < format.exponentBits) {s sign : Sign}
    {E : BitVec format.exponentBits} {M : BitVec format.mantissaBitsWithoutImplicit}
    {hpos : 0 < mantissa} (h : Packed.value format s E M = .finite sign mantissa exponent hpos) :
    Canonical format mantissa exponent := by
  have hbits : format.mantissaBits = 1 + format.mantissaBitsWithoutImplicit := rfl
  have hbias : format.exponentBias = 2 ^ (format.exponentBits - 1) - 1 := rfl
  have hdouble : 2 ^ format.exponentBits = 2 * 2 ^ (format.exponentBits - 1) := by
    rw [← pow_succ', Nat.sub_add_cancel format.he]
  have hrange := Packed.four_le_two_pow_exponentBits hwide
  have hcast : ((2 ^ (format.exponentBits - 1) : ℕ) : ℤ) = 2 ^ (format.exponentBits - 1) := by
    push_cast
    rfl
  have hleast : format.minExponent =
      3 - ((2 ^ (format.exponentBits - 1) : ℕ) : ℤ) - format.mantissaBits := by
    rw [hcast]
    rfl
  have hM := M.isLt
  rw [Packed.value_eq] at h
  split_ifs at h with hE hM₀ hE₀ hM₀
  · obtain ⟨-, rfl, rfl⟩ := UnpackedFloat.finite.inj h
    refine ⟨?_, ?_, ?_, .inr ?_⟩
    · rw [hbits, pow_add]
      omega
    all_goals
      rw [hE₀]
      simp only [BitVec.toNat_ofNat, Nat.zero_mod, Nat.cast_zero]
      omega
  · obtain ⟨-, rfl, rfl⟩ := UnpackedFloat.finite.inj h
    have hroom := Packed.toNat_exponent_lt E hE
    have hE' : E.toNat ≠ 0 := fun h => hE₀ (BitVec.toNat_inj.1 (by simpa using h))
    rw [Packed.toNat_append]
    refine ⟨?_, ?_, ?_, .inl (Nat.le_add_right _ _)⟩
    · rw [hbits, pow_add]
      omega
    all_goals omega

theorem canonical_of_unpack_eq (hwide : 1 < format.exponentBits) {b : BitVec format.numBits}
    {sign : Sign} {hpos : 0 < mantissa}
    (h : UnpackedFloat.unpack format b = .finite sign mantissa exponent hpos) :
    Canonical format mantissa exponent := by
  rw [Packed.unpack_eq_value] at h
  exact canonical_of_value_eq hwide h

end Rounding

/-! ### Scalar types that store a format -/

open Float.Model (Format UnpackedFloat)
open Float.Model.UnpackedFloat (Sign)

/-- A binary scalar type with the numbers of a format that seventeen digits tell apart. -/
class PackedScalar (α : Type) extends BinaryScalar α where
  pack_unpack (x : α) : pack (unpack x) = x
  canonical {x : α} {sign : Sign} {mantissa : ℕ} {exponent : ℤ} {hpos : 0 < mantissa} :
    unpack x = .finite sign mantissa exponent hpos →
      Rounding.Canonical format mantissa exponent
  mantissaBits_le : format.mantissaBits ≤ 2 ^ (format.exponentBits - 1)
  two_pow_mantissaBits_lt : 2 ^ format.mantissaBits < 10 ^ 16

/-- Neither infinite nor without a value. -/
def BinaryScalar.IsFinite {α : Type} [BinaryScalar α] (x : α) : Prop :=
  (BinaryScalar.unpack x).isFinite = true

instance {α : Type} [BinaryScalar α] (x : α) : Decidable (BinaryScalar.IsFinite x) :=
  inferInstanceAs (Decidable (_ = true))

instance : PackedScalar Float where
  pack_unpack x := by
    obtain ⟨⟨bits, hvalid⟩⟩ := x
    have hbits := UnpackedFloat.pack_unpack_of_valid hvalid
    exact congrArg Float.ofModel (Float.Model.mk.injEq _ _ _ _ ▸ congrArg UInt64.ofBitVec hbits)
  canonical h := Rounding.canonical_of_unpack_eq (by decide) h
  mantissaBits_le := by decide
  two_pow_mantissaBits_lt := by decide

instance : PackedScalar Float32 where
  pack_unpack x := by
    obtain ⟨⟨bits, hvalid⟩⟩ := x
    have hbits := UnpackedFloat.pack_unpack_of_valid hvalid
    exact congrArg Float32.ofModel (Float32.Model.mk.injEq _ _ _ _ ▸ congrArg UInt32.ofBitVec hbits)
  canonical h := Rounding.canonical_of_unpack_eq (by decide) h
  mantissaBits_le := by decide
  two_pow_mantissaBits_lt := by decide

end CarrierTransport
