import Mathlib
import CarrierTransport.Physics.Bernoulli
import CarrierTransport.Proofs.Scalar.Real

/-!
# The Bernoulli function and its derivative

Over the real numbers both branches of the Bernoulli function are differentiable, and the branch of
its derivative that is evaluated is the derivative of the branch that is evaluated
(`hasDerivAt_bernoulli`). At the threshold itself, where the series ends, there is no derivative.

The series are not the functions they stand for, yet they are reflected at the origin and bounded as
those are, exactly: on which branch a value is evaluated makes no difference to the signs and
symmetries that the equations rest on (`bernoulli_pair_consistent`).
-/

namespace CarrierTransport.Physics

/-! ### The branches -/

theorem bernoulli_of_lt {x : ℝ} (h : |x| < seriesThreshold) :
    Physics.bernoulli x = 1 - x / 2 + x * x / 12 * (1 - x * x / 60 * (1 - x * x / 42)) := by
  have hbranch : Scalar.abs x < seriesThreshold := h
  rw [Physics.bernoulli, if_pos hbranch]
  norm_num [OfScientific.ofScientific, ExactScalar.ofDecimal_eq]

theorem bernoulli_of_le {x : ℝ} (h : seriesThreshold ≤ |x|) :
    Physics.bernoulli x = x / (Real.exp x - 1) := by
  have hbranch : ¬ Scalar.abs x < seriesThreshold := not_lt.2 h
  rw [Physics.bernoulli, if_neg hbranch]
  rfl

theorem bernoulliDerivative_of_lt {x : ℝ} (h : |x| < seriesThreshold) :
    bernoulliDerivative x = -(1 / 2) + x / 6 * (1 - x * x / 30 * (1 - x * x / 28)) := by
  have hbranch : Scalar.abs x < seriesThreshold := h
  rw [bernoulliDerivative, if_pos hbranch]
  norm_num [OfScientific.ofScientific, ExactScalar.ofDecimal_eq]

theorem bernoulliDerivative_of_le {x : ℝ} (h : seriesThreshold ≤ |x|) :
    bernoulliDerivative x = (1 - Physics.bernoulli (-x)) / (Real.exp x - 1) := by
  have hbranch : ¬ Scalar.abs x < seriesThreshold := not_lt.2 h
  rw [bernoulliDerivative, if_neg hbranch]
  norm_num [OfScientific.ofScientific, ExactScalar.ofDecimal_eq]
  rfl

theorem seriesThreshold_eq : (seriesThreshold : ℝ) = 1 / 100 := by
  norm_num [seriesThreshold, OfScientific.ofScientific, ExactScalar.ofDecimal_eq]

theorem seriesThreshold_pos : (0 : ℝ) < seriesThreshold := by
  rw [seriesThreshold_eq]
  norm_num

theorem ne_zero_of_le {x : ℝ} (h : seriesThreshold ≤ |x|) : x ≠ 0 :=
  abs_pos.1 (seriesThreshold_pos.trans_le h)

/-- The Bernoulli function is positive. -/
theorem bernoulli_pos (x : ℝ) : 0 < Physics.bernoulli x := by
  rcases lt_or_ge |x| seriesThreshold with hlt | hge
  · obtain ⟨hlower, hupper⟩ := abs_lt.1 (lt_of_lt_of_eq hlt seriesThreshold_eq)
    have hsquare : x * x ≤ 1 := by nlinarith
    have hinner : 0 ≤ 1 - x * x / 60 * (1 - x * x / 42) := by nlinarith [mul_self_nonneg x]
    rw [bernoulli_of_lt hlt]
    have hseries := mul_nonneg (div_nonneg (mul_self_nonneg x) (by norm_num : (0 : ℝ) ≤ 12)) hinner
    linarith
  · rw [bernoulli_of_le hge]
    rcases lt_or_gt_of_ne (ne_zero_of_le hge) with hneg | hpos
    · exact div_pos_of_neg_of_neg hneg (sub_neg.2 (Real.exp_lt_one_iff.2 hneg))
    · exact div_pos hpos (sub_pos.2 (Real.one_lt_exp_iff.2 hpos))

/-! ### The exponential less one -/

theorem exp_sub_one_ne_zero {x : ℝ} (hx : x ≠ 0) : Real.exp x - 1 ≠ 0 := by
  rw [sub_ne_zero, Ne, Real.exp_eq_one_iff]
  exact hx

theorem exp_neg_sub_one (x : ℝ) : Real.exp (-x) - 1 = -(Real.exp x - 1) / Real.exp x := by
  rw [Real.exp_neg]
  field_simp
  ring

/-! ### The derivative -/

/-- The series and its derivative. -/
theorem hasDerivAt_series (x : ℝ) :
    HasDerivAt (fun x : ℝ => 1 - x / 2 + x * x / 12 * (1 - x * x / 60 * (1 - x * x / 42)))
      (-(1 / 2) + x / 6 * (1 - x * x / 30 * (1 - x * x / 28))) x := by
  have hsquare : HasDerivAt (fun x : ℝ => x * x) (1 * x + x * 1) x :=
    (hasDerivAt_id' x).mul (hasDerivAt_id' x)
  have hlinear := ((hasDerivAt_id' x).div_const 2).const_sub 1
  have hinner := (hsquare.div_const 60).fun_mul ((hsquare.div_const 42).const_sub 1)
  have houter := (hsquare.div_const 12).fun_mul (hinner.const_sub 1)
  exact (hlinear.fun_add houter).congr_deriv (by ring)

/-- The quotient and its derivative. -/
theorem hasDerivAt_quotient {x : ℝ} (hx : x ≠ 0) :
    HasDerivAt (fun x => x / (Real.exp x - 1))
      ((1 - -x / (Real.exp (-x) - 1)) / (Real.exp x - 1)) x := by
  have hdenominator := exp_sub_one_ne_zero hx
  have hquotient := (hasDerivAt_id' x).div ((Real.hasDerivAt_exp x).sub_const 1) hdenominator
  refine hquotient.congr_deriv ?_
  rw [exp_neg_sub_one]
  field_simp

/-- **The derivative of the Bernoulli function**, on either side of the threshold. -/
theorem hasDerivAt_bernoulli {x : ℝ} (h : |x| ≠ seriesThreshold) :
    HasDerivAt Physics.bernoulli (bernoulliDerivative x) x := by
  rcases lt_or_gt_of_ne h with hlt | hgt
  · have hnear : ∀ᶠ y in nhds x, |y| < seriesThreshold :=
      continuous_abs.continuousAt.eventually_lt continuousAt_const hlt
    rw [bernoulliDerivative_of_lt hlt]
    exact (hasDerivAt_series x).congr_of_eventuallyEq (hnear.mono fun y hy => bernoulli_of_lt hy)
  · have hnear : ∀ᶠ y in nhds x, seriesThreshold < |y| :=
      continuousAt_const.eventually_lt continuous_abs.continuousAt hgt
    have hneg : seriesThreshold ≤ |-x| := by
      rw [abs_neg]
      exact hgt.le
    rw [bernoulliDerivative_of_le hgt.le, bernoulli_of_le hneg]
    exact (hasDerivAt_quotient (ne_zero_of_le hgt.le)).congr_of_eventuallyEq
      (hnear.mono fun y hy => bernoulli_of_le hy.le)

/-! ### Reflection at the origin -/

theorem quotient_neg {x : ℝ} (hx : x ≠ 0) :
    -x / (Real.exp (-x) - 1) = x / (Real.exp x - 1) + x := by
  have hdenominator := exp_sub_one_ne_zero hx
  rw [exp_neg_sub_one]
  field_simp
  ring

theorem bernoulli_neg (x : ℝ) : Physics.bernoulli (-x) = Physics.bernoulli x + x := by
  rcases lt_or_ge |x| seriesThreshold with hlt | hge
  · rw [bernoulli_of_lt hlt, bernoulli_of_lt (by rwa [abs_neg])]
    ring
  · rw [bernoulli_of_le hge, bernoulli_of_le (by rwa [abs_neg]), quotient_neg (ne_zero_of_le hge)]

theorem bernoulliDerivative_neg (x : ℝ) :
    bernoulliDerivative (-x) = -1 - bernoulliDerivative x := by
  rcases lt_or_ge |x| seriesThreshold with hlt | hge
  · rw [bernoulliDerivative_of_lt hlt, bernoulliDerivative_of_lt (by rwa [abs_neg])]
    ring
  · have hdenominator := exp_sub_one_ne_zero (ne_zero_of_le hge)
    rw [bernoulliDerivative_of_le hge, bernoulliDerivative_of_le (by rwa [abs_neg]),
      bernoulli_neg x, neg_neg, bernoulli_of_le hge, exp_neg_sub_one]
    field_simp
    ring

/-! ### The sign of the derivative -/

/-- The quotient that is taken off crosses one at the origin, as the exponential lies above its
tangent there. -/
theorem quotientDerivative_lt_zero {x : ℝ} (hx : x ≠ 0) :
    (1 - -x / (Real.exp (-x) - 1)) / (Real.exp x - 1) < 0 := by
  have htangent : -x < Real.exp (-x) - 1 := by
    linarith [Real.add_one_lt_exp (neg_ne_zero.2 hx)]
  rcases lt_or_gt_of_ne hx with hneg | hpos
  · have hless : -x / (Real.exp (-x) - 1) < 1 :=
      (div_lt_one (sub_pos.2 (Real.one_lt_exp_iff.2 (neg_pos.2 hneg)))).2 htangent
    exact div_neg_of_pos_of_neg (sub_pos.2 hless) (sub_neg.2 (Real.exp_lt_one_iff.2 hneg))
  · have hgreater : 1 < -x / (Real.exp (-x) - 1) :=
      (one_lt_div_of_neg (sub_neg.2 (Real.exp_lt_one_iff.2 (neg_neg_of_pos hpos)))).2 htangent
    exact div_neg_of_neg_of_pos (sub_neg.2 hgreater) (sub_pos.2 (Real.one_lt_exp_iff.2 hpos))

/-- The series of the derivative stays close to minus one half. -/
theorem seriesDerivative_lt_zero {x : ℝ} (h : |x| < 1 / 100) :
    -(1 / 2) + x / 6 * (1 - x * x / 30 * (1 - x * x / 28)) < 0 := by
  obtain ⟨hlower, hupper⟩ := abs_lt.1 h
  have hsquare : x * x ≤ 1 := by nlinarith
  have hnonneg : 0 ≤ x * x / 30 * (1 - x * x / 28) :=
    mul_nonneg (div_nonneg (mul_self_nonneg x) (by norm_num)) (by linarith)
  have hle : x * x / 30 * (1 - x * x / 28) ≤ 1 := by nlinarith [mul_self_nonneg x]
  have hterm : x / 6 * (1 - x * x / 30 * (1 - x * x / 28)) ≤ 1 / 600 * 1 :=
    mul_le_mul (by linarith) (by linarith) (by linarith) (by norm_num)
  linarith

theorem bernoulliDerivative_lt_zero (x : ℝ) : bernoulliDerivative x < 0 := by
  rcases lt_or_ge |x| seriesThreshold with hlt | hge
  · rw [bernoulliDerivative_of_lt hlt]
    exact seriesDerivative_lt_zero (lt_of_lt_of_eq hlt seriesThreshold_eq)
  · rw [bernoulliDerivative_of_le hge, bernoulli_of_le (by rwa [abs_neg])]
    exact quotientDerivative_lt_zero (ne_zero_of_le hge)

theorem neg_one_lt_bernoulliDerivative (x : ℝ) : -1 < bernoulliDerivative x := by
  have hneg := bernoulliDerivative_lt_zero (-x)
  rw [bernoulliDerivative_neg] at hneg
  linarith

/-- **The Bernoulli function and its derivative belong together** on the whole line. But at the
threshold, where the branches do not meet, the one is the derivative of the other; and on both
branches and between them the function and its derivative are reflected at the origin, the function
is positive and falls, nowhere faster than its argument rises. -/
theorem bernoulli_pair_consistent :
    (seriesThreshold : ℝ) = 1 / 100 ∧
      (∀ x : ℝ, |x| ≠ seriesThreshold →
        HasDerivAt Physics.bernoulli (bernoulliDerivative x) x) ∧
      ∀ x : ℝ, Physics.bernoulli (-x) = Physics.bernoulli x + x ∧
        bernoulliDerivative (-x) = -1 - bernoulliDerivative x ∧
        0 < Physics.bernoulli x ∧ -1 < bernoulliDerivative x ∧ bernoulliDerivative x < 0 := by
  refine ⟨seriesThreshold_eq, fun x hx => hasDerivAt_bernoulli hx, fun x => ?_⟩
  exact ⟨bernoulli_neg x, bernoulliDerivative_neg x, bernoulli_pos x,
    neg_one_lt_bernoulliDerivative x, bernoulliDerivative_lt_zero x⟩

/-- Inside the threshold and beyond it. -/
theorem bernoulli_pair_consistent_beside :
    HasDerivAt Physics.bernoulli (bernoulliDerivative (1 / 200 : ℝ)) (1 / 200) ∧
      HasDerivAt Physics.bernoulli (bernoulliDerivative (-3 : ℝ)) (-3) := by
  obtain ⟨hthreshold, hderivative, -⟩ := bernoulli_pair_consistent
  constructor
  · exact hderivative _ (by rw [hthreshold]; norm_num)
  · exact hderivative _ (by rw [hthreshold]; norm_num)

end CarrierTransport.Physics
