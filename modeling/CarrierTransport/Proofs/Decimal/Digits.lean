import CarrierTransport.Decimal.Scientific
import CarrierTransport.Proofs.Scalar.Rounding

/-!
# The digits of a positive quotient

The leading digit of a quotient is where its magnitude says (`Quotient.leading_spec`), and the
significand of a fixed count of digits is off by half a unit of the last digit at most, also if
rounding has carried into one more digit (`roundedDigits_spec`).
-/

namespace CarrierTransport.Decimal

/-! ### Values -/

namespace Quotient

/-- The rational number that a quotient stands for. -/
def value (v : Quotient) : ℚ :=
  v.num / v.den

variable {v : Quotient}

theorem value_pos (hnum : 0 < v.num) (hden : 0 < v.den) : 0 < v.value :=
  div_pos (by exact_mod_cast hnum) (by exact_mod_cast hden)

theorem value_ofPower (mantissa base : ℕ) (e : ℤ) :
    (ofPower mantissa base e).value = mantissa * (base : ℚ) ^ e := by
  cases e with
  | ofNat e =>
    rw [ofPower, value, Int.ofNat_eq_natCast, zpow_natCast]
    simp
  | negSucc e =>
    rw [ofPower, value, zpow_negSucc, div_eq_mul_inv]
    simp

theorem den_ofPower_pos (mantissa : ℕ) {base : ℕ} (hbase : base ≠ 0) (e : ℤ) :
    0 < (ofPower mantissa base e).den := by
  cases e with
  | ofNat e => exact one_pos
  | negSucc e => exact Nat.pos_of_ne_zero (pow_ne_zero _ hbase)

theorem num_ofPower_pos {mantissa base : ℕ} (hmantissa : 0 < mantissa) (hbase : base ≠ 0) (e : ℤ) :
    0 < (ofPower mantissa base e).num := by
  cases e with
  | ofNat e => exact Nat.mul_pos hmantissa (Nat.pos_of_ne_zero (pow_ne_zero _ hbase))
  | negSucc e => exact hmantissa

theorem value_shift (v : Quotient) (e : ℤ) : (v.shift e).value = v.value * 10 ^ e := by
  cases e with
  | ofNat e =>
    rw [shift, value, value, Int.ofNat_eq_natCast, zpow_natCast]
    push_cast [Nat.pow_eq]
    ring
  | negSucc e =>
    rw [shift, value, value, zpow_negSucc, ← div_eq_mul_inv, div_div]
    push_cast [Nat.pow_eq]
    rfl

theorem den_shift_pos (hden : 0 < v.den) (e : ℤ) : 0 < (v.shift e).den := by
  cases e with
  | ofNat e => exact hden
  | negSucc e => exact Nat.mul_pos hden (Nat.pow_pos (by decide))

end Quotient

/-! ### Digits of natural numbers -/

theorem toList_toString (n : ℕ) : (toString n).toList = digits n := by
  rw [Nat.toString_eq_ofList_toDigits, String.toList_ofList, digits]

theorem digits_injective : Function.Injective digits := by
  intro m n h
  rw [← Nat.ofDigitChars_ten_toDigits (n := m), ← Nat.ofDigitChars_ten_toDigits (n := n)]
  exact congrArg (Nat.ofDigitChars 10 · 0) h

theorem isDigit_of_mem_digits {n : ℕ} {c : Char} (h : c ∈ digits n) : c.isDigit = true :=
  Nat.isDigit_of_mem_toDigits (by decide) (by decide) h

theorem digits_ne_nil (n : ℕ) : digits n ≠ [] :=
  Nat.toDigits_ne_nil

theorem length_digits {n k : ℕ} (hlow : 10 ^ k ≤ n) (hhigh : n < 10 ^ (k + 1)) :
    (digits n).length = k + 1 := by
  refine le_antisymm ((Nat.length_toDigits_le_iff (by decide) (Nat.succ_pos k)).2 hhigh) ?_
  by_contra hshort
  cases k with
  | zero => exact digits_ne_nil n (List.length_eq_zero_iff.1 (by omega))
  | succ k =>
    have hle : (digits n).length ≤ k + 1 := by omega
    have hlt := (Nat.length_toDigits_le_iff (by decide) (Nat.succ_pos k)).1 hle
    omega

/-! ### The leading digit -/

/-- A positive natural number lies between two powers of ten. -/
theorem digitCount_spec {n : ℕ} (hn : n ≠ 0) :
    ∃ k, digitCount n = k + 1 ∧ 10 ^ k ≤ n ∧ n < 10 ^ (k + 1) := by
  fun_induction digitCount n with
  | case1 n hlt => exact ⟨0, rfl, by omega, by omega⟩
  | case2 n hge ih =>
    obtain ⟨k, hk, hlow, hhigh⟩ := ih (by omega)
    refine ⟨k + 1, by rw [hk], ?_, ?_⟩
    · rw [pow_succ]
      omega
    · rw [pow_succ]
      omega

/-- **The leading exponent of a quotient.** -/
theorem Quotient.leading_spec {v : Quotient} (hnum : 0 < v.num) (hden : 0 < v.den) :
    (10 : ℚ) ^ v.leading ≤ v.value ∧ v.value < 10 ^ (v.leading + 1) := by
  have hden' : (0 : ℚ) < v.den := by exact_mod_cast hden
  rw [leading, value]
  split_ifs with hle
  · obtain ⟨k, hk, hlow, hhigh⟩ := digitCount_spec (Nat.div_pos hle hden).ne'
    have hk' : ((digitCount (v.num / v.den) : ℕ) : ℤ) - 1 = k := by omega
    rw [Nat.le_div_iff_mul_le hden] at hlow
    rw [Nat.div_lt_iff_lt_mul hden] at hhigh
    rw [hk', le_div_iff₀ hden', div_lt_iff₀ hden', zpow_natCast, ← Nat.cast_succ, zpow_natCast]
    exact ⟨by exact_mod_cast hlow, by exact_mod_cast hhigh⟩
  -- below one the numbers of digits count the zeros behind the point
  · have hnum' : (0 : ℚ) < v.num := by exact_mod_cast hnum
    obtain ⟨k, hk, hlow, hhigh⟩ := digitCount_spec (n := (v.den - 1) / v.num)
      (Nat.div_pos (by omega) hnum).ne'
    rw [Nat.le_div_iff_mul_le hnum] at hlow
    rw [Nat.div_lt_iff_lt_mul hnum] at hhigh
    have hlow' : 10 ^ k * v.num < v.den := by omega
    have hhigh' : v.den ≤ 10 ^ (k + 1) * v.num := by omega
    have hk' : -((digitCount ((v.den - 1) / v.num) : ℕ) : ℤ) + 1 = -(k : ℤ) := by omega
    rw [hk', hk, le_div_iff₀ hden', div_lt_iff₀ hden', zpow_neg, zpow_neg, zpow_natCast,
      zpow_natCast, inv_mul_le_iff₀ (by positivity), lt_inv_mul_iff₀ (by positivity)]
    exact ⟨by exact_mod_cast hhigh', by exact_mod_cast hlow'⟩

/-! ### Rounding -/

theorem abs_roundDiv_sub_le (num : ℕ) {den : ℕ} (hden : 0 < den) :
    |(roundDiv num den : ℚ) - num / den| ≤ 1 / 2 := by
  have hden' : (0 : ℚ) < den := by exact_mod_cast hden
  obtain ⟨hsplit, hrest⟩ := Rounding.quotient_eq num hden
  rw [roundDiv, hsplit]
  split_ifs with hup
  · have hhalf : 1 / 2 ≤ ((num % den : ℕ) : ℚ) / den := by
      rw [div_le_div_iff₀ two_pos hden']
      exact_mod_cast (by omega : 1 * den ≤ num % den * 2)
    rw [abs_le]
    push_cast
    constructor <;> linarith
  · have hhalf : ((num % den : ℕ) : ℚ) / den ≤ 1 / 2 := by
      rw [div_le_div_iff₀ hden' two_pos]
      exact_mod_cast (by omega : num % den * 2 ≤ 1 * den)
    have hpos : (0 : ℚ) ≤ ((num % den : ℕ) : ℚ) / den := by positivity
    rw [abs_le]
    constructor <;> linarith

/-- **The digits of a number.** There are as many as are asked for, and what they stand for is off
by half a unit of the last one at most. -/
theorem roundedDigits_spec {n : ℕ} {v : Quotient} (hnum : 0 < v.num) (hden : 0 < v.den) :
    10 ^ n ≤ (roundedDigits (n + 1) v).1 ∧ (roundedDigits (n + 1) v).1 < 10 ^ (n + 1) ∧
      |(roundedDigits (n + 1) v).1 * (10 : ℚ) ^ ((roundedDigits (n + 1) v).2 - n) - v.value| *
        (2 * 10 ^ n) ≤ v.value := by
  obtain ⟨hlow, hhigh⟩ := v.leading_spec hnum hden
  have hexponent : ((n + 1 : ℕ) : ℤ) - 1 - v.leading = n - v.leading := by push_cast; ring
  have hunit : (0 : ℚ) < 10 ^ (v.leading - (n : ℤ)) := by positivity
  have hscale : (10 : ℚ) ^ v.leading = 10 ^ n * 10 ^ (v.leading - (n : ℤ)) := by
    rw [← zpow_natCast, ← zpow_add₀ (by norm_num), add_sub_cancel]
  -- in units of the last digit
  obtain ⟨w, hw⟩ : ∃ w, v.value = w * 10 ^ (v.leading - (n : ℤ)) :=
    ⟨_, (div_mul_cancel₀ _ hunit.ne').symm⟩
  have hround := abs_roundDiv_sub_le (v.shift (n - v.leading)).num
    (Quotient.den_shift_pos hden (n - v.leading))
  rw [← Quotient.value, Quotient.value_shift, hw, mul_assoc, ← zpow_add₀ (by norm_num),
    sub_add_sub_cancel', sub_self, zpow_zero, mul_one] at hround
  rw [zpow_add_one₀ (by norm_num), hscale, hw, mul_right_comm,
    mul_lt_mul_iff_left₀ hunit] at hhigh
  rw [hscale, hw, mul_le_mul_iff_left₀ hunit] at hlow
  rw [roundedDigits, hexponent, hw]
  generalize roundDiv (v.shift (n - v.leading)).num (v.shift (n - v.leading)).den = q at hround ⊢
  obtain ⟨hbelow, habove⟩ := abs_le.1 hround
  have hq : 10 ^ n ≤ q := by
    have hlt : (10 ^ n : ℚ) < q + 1 := by linarith
    exact Nat.lt_succ_iff.1 (by exact_mod_cast hlt)
  have hq' : q ≤ 10 ^ (n + 1) := by
    have hlt : (q : ℚ) < 10 ^ (n + 1) + 1 := by
      rw [pow_succ]
      linarith
    exact Nat.lt_succ_iff.1 (by exact_mod_cast hlt)
  have herror : |q * (10 : ℚ) ^ (v.leading - (n : ℤ)) - w * 10 ^ (v.leading - (n : ℤ))| *
      (2 * 10 ^ n) ≤ w * 10 ^ (v.leading - (n : ℤ)) := by
    rw [← sub_mul, abs_mul, abs_of_pos hunit, mul_right_comm]
    refine mul_le_mul_of_nonneg_right ?_ hunit.le
    nlinarith
  split_ifs with hlt
  · exact ⟨hq, hlt, herror⟩
  -- all digits were nines and the last has carried
  · obtain rfl : q = 10 ^ (n + 1) := le_antisymm hq' (not_lt.1 hlt)
    rw [show (10 ^ (n + 1) / 10 : ℕ) = 10 ^ n by rw [pow_succ]; omega]
    refine ⟨le_rfl, Nat.pow_lt_pow_right (by decide) n.lt_succ_self, ?_⟩
    rw [show v.leading + 1 - (n : ℤ) = v.leading - n + 1 by ring, zpow_add_one₀ (by norm_num)]
    push_cast [pow_succ] at herror ⊢
    rwa [mul_comm _ (10 : ℚ), ← mul_assoc (10 ^ n : ℚ)]

end CarrierTransport.Decimal
