import Mathlib
import CarrierTransport.Proofs.Physics.Bernoulli

/-!
# What the series leave out

Near the origin the Bernoulli function and its derivative are evaluated from the first terms of
their series. The function is the `B` with `B(x) (exp x - 1) = x`, its derivative the `D` with
`D(x) (exp x - 1) = 1 - x - B(x)`. Put into these equations, with the first terms of the exponential,
the two polynomials cancel every power of `x` below the ninth and the eighth: it is here that each
of their coefficients has to be right (`abs_bernoulli_mul_sub_le`, `abs_derivative_mul_sub_le`). What
is left over, and what the exponential leaves out, is divided by `exp x - 1`, which is not smaller
than half of `x`. So below the threshold the errors are less than `1e-17`, and the function and its
reflection differ by the exponential as far as that shows (`series_accurate`).
-/

namespace CarrierTransport.Physics

/-! ### Nested multiplication -/

/-- The polynomial of the given coefficients, that of the constant first. -/
noncomputable def horner (cs : List ℚ) (x : ℝ) : ℝ :=
  cs.foldr (fun (c : ℚ) rest => c + x * rest) 0

theorem abs_horner_le {x : ℝ} (hx : |x| ≤ 1) (cs : List ℚ) :
    |horner cs x| ≤ (cs.map abs).sum := by
  induction cs with
  | nil => simp [horner]
  | cons c cs ih =>
    calc |c + x * horner cs x| ≤ |(c : ℝ)| + |x| * |horner cs x| := by
          rw [← abs_mul]
          exact abs_add_le _ _
      _ ≤ |(c : ℝ)| + 1 * (cs.map abs).sum := by gcongr
      _ = ((c :: cs).map abs).sum := by
          rw [one_mul, List.map_cons, List.sum_cons, Rat.cast_add, Rat.cast_abs]

/-! ### The exponential -/

/-- The first terms of the exponential less one. -/
def expm1Terms : List ℚ :=
  [0, 1, 1 / 2, 1 / 6, 1 / 24, 1 / 120, 1 / 720, 1 / 5040, 1 / 40320]

theorem exists_exp_sub_one_eq {x : ℝ} (hx : |x| ≤ 1) :
    ∃ rest, Real.exp x - 1 = horner expm1Terms x + rest ∧ |rest| ≤ |x| ^ 9 / 300000 := by
  refine ⟨Real.exp x - 1 - horner expm1Terms x, by ring, ?_⟩
  have hterms : 1 + horner expm1Terms x = ∑ m ∈ Finset.range 9, x ^ m / m.factorial := by
    simp only [horner, expm1Terms, List.foldr, Finset.sum_range_succ, Finset.sum_range_zero,
      Nat.factorial]
    push_cast
    ring
  rw [sub_sub, hterms]
  refine (Real.exp_bound hx (by norm_num)).trans ?_
  rw [div_eq_mul_inv]
  refine mul_le_mul_of_nonneg_left ?_ (by positivity)
  norm_num [Nat.factorial]

theorem half_abs_le_abs_exp_sub_one {x : ℝ} (hx : |x| ≤ 1 / 2) : |x| / 2 ≤ |Real.exp x - 1| := by
  have hlinear := Real.abs_exp_sub_one_sub_id_le (hx.trans (by norm_num))
  have hsquare : x ^ 2 ≤ |x| / 2 := by
    rw [← sq_abs]
    nlinarith [abs_nonneg x]
  have htriangle : |x| ≤ |Real.exp x - 1| + |Real.exp x - 1 - x| := by
    have hdifference := abs_sub (Real.exp x - 1) (Real.exp x - 1 - x)
    rwa [sub_sub_cancel] at hdifference
  linarith

/-- A polynomial that solves an equation of the first terms of the exponential, but for powers from
the `n`th on, solves that of the exponential nearly. -/
theorem abs_horner_mul_exp_sub_le {x goal : ℝ} (hx : |x| ≤ 1) {cs left : List ℚ} {n : ℕ}
    (h : horner cs x * horner expm1Terms x - goal = x ^ n * horner left x) :
    |horner cs x * (Real.exp x - 1) - goal| ≤
      |x| ^ n * (left.map abs).sum + (cs.map abs).sum * (|x| ^ 9 / 300000) := by
  obtain ⟨rest, hexp, hrest⟩ := exists_exp_sub_one_eq hx
  have hsplit : horner cs x * (Real.exp x - 1) - goal =
      x ^ n * horner left x + horner cs x * rest := by
    rw [hexp, ← h]
    ring
  calc |horner cs x * (Real.exp x - 1) - goal|
      ≤ |x| ^ n * |horner left x| + |horner cs x| * |rest| := by
        rw [hsplit, ← abs_pow, ← abs_mul, ← abs_mul]
        exact abs_add_le _ _
    _ ≤ |x| ^ n * (left.map abs).sum + (cs.map abs).sum * (|x| ^ 9 / 300000) := by
        have hsum : 0 ≤ ((cs.map abs).sum : ℝ) := (abs_nonneg _).trans (abs_horner_le hx cs)
        exact add_le_add (mul_le_mul_of_nonneg_left (abs_horner_le hx left) (by positivity))
          (mul_le_mul (abs_horner_le hx cs) hrest (abs_nonneg rest) hsum)

/-! ### The two equations -/

/-- The terms of the function near the origin. -/
def bernoulliTerms : List ℚ :=
  [1, -(1 / 2), 1 / 12, 0, -(1 / 720), 0, 1 / 30240]

/-- The terms of its derivative. -/
def derivativeTerms : List ℚ :=
  [-(1 / 2), 1 / 6, 0, -(1 / 180), 0, 1 / 5040]

section Near

variable {x : ℝ} (h : |x| < seriesThreshold)

include h

theorem abs_lt_hundredth : |x| < 1 / 100 :=
  lt_of_lt_of_eq h seriesThreshold_eq

theorem abs_le_one : |x| ≤ 1 :=
  (abs_lt_hundredth h).le.trans (by norm_num)

theorem bernoulli_eq_horner : Physics.bernoulli x = horner bernoulliTerms x := by
  rw [bernoulli_of_lt h]
  simp only [horner, bernoulliTerms, List.foldr]
  push_cast
  ring

theorem bernoulliDerivative_eq_horner : bernoulliDerivative x = horner derivativeTerms x := by
  rw [bernoulliDerivative_of_lt h]
  simp only [horner, derivativeTerms, List.foldr]
  push_cast
  ring

theorem abs_bernoulli_mul_sub_le :
    |Physics.bernoulli x * (Real.exp x - 1) - x| ≤ |x| ^ 9 / 50000 := by
  have hproduct : horner bernoulliTerms x * horner expm1Terms x - x = x ^ 9 * horner
      [-(1 / 518400), 11 / 7257600, 0, 1 / 87091200, 1 / 152409600, 1 / 1219276800] x := by
    simp only [horner, bernoulliTerms, expm1Terms, List.foldr]
    push_cast
    ring
  have hle := abs_horner_mul_exp_sub_le (abs_le_one h) hproduct
  have hpow : 0 ≤ |x| ^ 9 := by positivity
  rw [bernoulli_eq_horner h]
  norm_num [bernoulliTerms, abs_of_pos] at hle ⊢
  linarith

theorem abs_derivative_mul_sub_le :
    |bernoulliDerivative x * (Real.exp x - 1) - (1 - x - Physics.bernoulli x)| ≤
      |x| ^ 8 / 50000 := by
  have hproduct : horner derivativeTerms x * horner expm1Terms x -
      (1 - x - horner bernoulliTerms x) = x ^ 8 * horner
      [1 / 134400, 17 / 3628800, 1 / 1814400, 1 / 7257600, 1 / 25401600, 1 / 203212800] x := by
    simp only [horner, bernoulliTerms, derivativeTerms, expm1Terms, List.foldr]
    push_cast
    ring
  have hle := abs_horner_mul_exp_sub_le (abs_le_one h) hproduct
  have hpow : |x| ^ 9 ≤ |x| ^ 8 := pow_le_pow_of_le_one (abs_nonneg x) (abs_le_one h) (by norm_num)
  have hnonneg : 0 ≤ |x| ^ 8 := by positivity
  rw [bernoulliDerivative_eq_horner h, bernoulli_eq_horner h]
  norm_num [derivativeTerms, abs_of_pos] at hle ⊢
  linarith

/-! ### The errors -/

theorem half_abs_le : |x| / 2 ≤ |Real.exp x - 1| :=
  half_abs_le_abs_exp_sub_one ((abs_lt_hundredth h).le.trans (by norm_num))

theorem abs_bernoulli_sub_le (hx : x ≠ 0) :
    |Physics.bernoulli x - x / (Real.exp x - 1)| ≤ |x| ^ 8 / 25000 := by
  have hpos : 0 < |x| := abs_pos.2 hx
  have hdenominator := exp_sub_one_ne_zero hx
  have hquotient : Physics.bernoulli x - x / (Real.exp x - 1) =
      (Physics.bernoulli x * (Real.exp x - 1) - x) / (Real.exp x - 1) := by
    field_simp
  calc |Physics.bernoulli x - x / (Real.exp x - 1)|
      ≤ |x| ^ 9 / 50000 / (|x| / 2) := by
        rw [hquotient, abs_div]
        exact div_le_div₀ (by positivity) (abs_bernoulli_mul_sub_le h) (by positivity)
          (half_abs_le h)
    _ = |x| ^ 8 / 25000 := by
        field_simp
        norm_num

/-- The derivative of the quotient is taken off through its equation, in which the function is off
by its own error. -/
theorem abs_derivative_sub_le (hx : x ≠ 0) :
    |bernoulliDerivative x - (1 - -x / (Real.exp (-x) - 1)) / (Real.exp x - 1)| ≤
      3 * |x| ^ 7 / 25000 := by
  have hpos : 0 < |x| := abs_pos.2 hx
  have hdenominator := exp_sub_one_ne_zero hx
  have hquotient : bernoulliDerivative x - (1 - -x / (Real.exp (-x) - 1)) / (Real.exp x - 1) =
      (bernoulliDerivative x * (Real.exp x - 1) - (1 - x - Physics.bernoulli x) -
        (Physics.bernoulli x - x / (Real.exp x - 1))) / (Real.exp x - 1) := by
    rw [quotient_neg hx]
    field_simp
    ring
  have hnumerator : |bernoulliDerivative x * (Real.exp x - 1) - (1 - x - Physics.bernoulli x) -
      (Physics.bernoulli x - x / (Real.exp x - 1))| ≤ 3 * |x| ^ 8 / 50000 := by
    have hboth := (abs_sub _ _).trans
      (add_le_add (abs_derivative_mul_sub_le h) (abs_bernoulli_sub_le h hx))
    linarith
  calc |bernoulliDerivative x - (1 - -x / (Real.exp (-x) - 1)) / (Real.exp x - 1)|
      ≤ 3 * |x| ^ 8 / 50000 / (|x| / 2) := by
        rw [hquotient, abs_div]
        exact div_le_div₀ (by positivity) hnumerator (by positivity) (half_abs_le h)
    _ = 3 * |x| ^ 7 / 25000 := by
        field_simp
        norm_num

theorem abs_bernoulli_sub_lt (hx : x ≠ 0) :
    |Physics.bernoulli x - x / (Real.exp x - 1)| < 1 / 10 ^ 17 := by
  have hpow : |x| ^ 8 < (1 / 100) ^ 8 :=
    pow_lt_pow_left₀ (abs_lt_hundredth h) (abs_nonneg x) (by norm_num)
  have hle := abs_bernoulli_sub_le h hx
  norm_num at hpow ⊢
  linarith

theorem abs_derivative_sub_lt (hx : x ≠ 0) :
    |bernoulliDerivative x - (1 - -x / (Real.exp (-x) - 1)) / (Real.exp x - 1)| < 1 / 10 ^ 17 := by
  have hpow : |x| ^ 7 < (1 / 100) ^ 7 :=
    pow_lt_pow_left₀ (abs_lt_hundredth h) (abs_nonneg x) (by norm_num)
  have hle := abs_derivative_sub_le h hx
  norm_num at hpow ⊢
  linarith

end Near

/-! ### Turning a flux around -/

theorem quotient_neg_eq_mul {x : ℝ} (hx : x ≠ 0) :
    -x / (Real.exp (-x) - 1) = x / (Real.exp x - 1) * Real.exp x := by
  have hdenominator := exp_sub_one_ne_zero hx
  rw [exp_neg_sub_one]
  field_simp

/-- The quotient is reflected exactly, so the function is by twice its error. -/
theorem abs_bernoulli_neg_sub_lt {x : ℝ} (h : |x| < seriesThreshold) :
    |Physics.bernoulli (-x) - Physics.bernoulli x * Real.exp x| < 1 / 10 ^ 16 := by
  rcases eq_or_ne x 0 with rfl | hx
  · rw [neg_zero, Real.exp_zero, mul_one, sub_self, abs_zero]
    norm_num
  · have hexp : Real.exp x ≤ 3 :=
      (Real.exp_le_exp.2 ((le_abs_self x).trans (abs_le_one h))).trans Real.exp_one_lt_three.le
    have herror := abs_bernoulli_sub_lt h hx
    have herror' := abs_bernoulli_sub_lt (by rwa [abs_neg]) (neg_ne_zero.2 hx)
    have hsplit : Physics.bernoulli (-x) - Physics.bernoulli x * Real.exp x =
        (Physics.bernoulli (-x) - -x / (Real.exp (-x) - 1)) -
          (Physics.bernoulli x - x / (Real.exp x - 1)) * Real.exp x := by
      rw [quotient_neg_eq_mul hx]
      ring
    calc |Physics.bernoulli (-x) - Physics.bernoulli x * Real.exp x|
        ≤ |Physics.bernoulli (-x) - -x / (Real.exp (-x) - 1)| +
            |Physics.bernoulli x - x / (Real.exp x - 1)| * Real.exp x := by
          rw [hsplit, ← abs_of_pos (Real.exp_pos x), ← abs_mul, abs_of_pos (Real.exp_pos x)]
          exact abs_sub _ _
      _ ≤ 1 / 10 ^ 17 + 1 / 10 ^ 17 * 3 := by gcongr
      _ < 1 / 10 ^ 16 := by norm_num

theorem bernoulli_neg_eq_mul {x : ℝ} (h : seriesThreshold ≤ |x|) :
    Physics.bernoulli (-x) = Physics.bernoulli x * Real.exp x := by
  rw [bernoulli_of_le h, bernoulli_of_le (by rwa [abs_neg]), quotient_neg_eq_mul (ne_zero_of_le h)]

/-- **The series are accurate to `1e-17`**, which double precision cannot tell from exact: this far
are the function and its derivative off below the threshold, but at the origin, where the quotient
has no value. So a flux turned around is the same flux up to `1e-16`, and beyond the threshold
exactly. -/
theorem series_accurate :
    (seriesThreshold : ℝ) = 1 / 100 ∧
      (∀ x : ℝ, x ≠ 0 → |x| < seriesThreshold →
        |Physics.bernoulli x - x / (Real.exp x - 1)| < 1 / 10 ^ 17 ∧
        DifferentiableAt ℝ (fun y => y / (Real.exp y - 1)) x ∧
        |bernoulliDerivative x - deriv (fun y => y / (Real.exp y - 1)) x| < 1 / 10 ^ 17) ∧
      (∀ x : ℝ, |x| < seriesThreshold →
        |Physics.bernoulli (-x) - Physics.bernoulli x * Real.exp x| < 1 / 10 ^ 16) ∧
      ∀ x : ℝ, seriesThreshold ≤ |x| →
        Physics.bernoulli (-x) = Physics.bernoulli x * Real.exp x := by
  refine ⟨seriesThreshold_eq, fun x hx h => ?_, fun x h => abs_bernoulli_neg_sub_lt h,
    fun x h => bernoulli_neg_eq_mul h⟩
  have hderivative := hasDerivAt_quotient hx
  refine ⟨abs_bernoulli_sub_lt h hx, hderivative.differentiableAt, ?_⟩
  rw [hderivative.deriv]
  exact abs_derivative_sub_lt h hx

/-- Half-way to the threshold, and beyond it. -/
theorem series_accurate_beside :
    |Physics.bernoulli (1 / 200 : ℝ) - 1 / 200 / (Real.exp (1 / 200) - 1)| < 1 / 10 ^ 17 ∧
      |Physics.bernoulli (-(1 / 200)) - Physics.bernoulli (1 / 200) * Real.exp (1 / 200)| <
        1 / 10 ^ 16 ∧
      Physics.bernoulli (-1) = Physics.bernoulli 1 * Real.exp 1 := by
  obtain ⟨hthreshold, hnear, hreflected, hfar⟩ := series_accurate
  have hsmall : |(1 / 200 : ℝ)| < seriesThreshold := by
    rw [hthreshold, abs_of_pos] <;> norm_num
  refine ⟨(hnear _ (by norm_num) hsmall).1, hreflected _ hsmall, hfar 1 ?_⟩
  rw [hthreshold, abs_one]
  norm_num

end CarrierTransport.Physics
