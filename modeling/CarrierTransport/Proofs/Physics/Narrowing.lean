import Mathlib
import CarrierTransport.Proofs.Physics.Constants

/-!
# The narrowing of the gap

The gap of silicon narrows with the total doping by a multiple of `x + √(x² + c)`, where `x` is the
logarithm of the doping. For light doping the sum is evaluated as the quotient
`c / (√(x² + c) - x)`, which is the same number (`div_sqrt_sub_eq`). Both are a multiple of the
exponential of a hyperbolic arcsine (`add_sqrt_eq`), so over the real numbers the narrowing is
positive, rises with the doping and vanishes with it, whichever form is evaluated, and the intrinsic
density rises with the narrowing (`heavier_doping_narrows`).
-/

namespace CarrierTransport.Physics

open ExactScalar (ofDecimal_pos)
open Filter (Tendsto comap)
open Topology

/-! ### The sum of a number and a root -/

theorem add_sqrt_eq {c : ℝ} (hc : 0 < c) (x : ℝ) :
    x + √(x * x + c) = √c * Real.exp (Real.arsinh (x / √c)) := by
  have hroot : 0 < √c := Real.sqrt_pos.2 hc
  have hsquare : x * x + c = c * (1 + (x / √c) ^ 2) := by
    rw [div_pow, Real.sq_sqrt hc.le]
    field_simp
    ring
  rw [Real.exp_arsinh, mul_add, mul_div_cancel₀ _ hroot.ne', hsquare, Real.sqrt_mul hc.le]

/-- The sum as a quotient, in which nothing cancels where the number is negative. -/
theorem div_sqrt_sub_eq {c : ℝ} (hc : 0 < c) (x : ℝ) :
    c / (√(x * x + c) - x) = x + √(x * x + c) := by
  have hnonneg : 0 ≤ x * x + c := add_nonneg (mul_self_nonneg x) hc.le
  have hconjugate : (x + √(x * x + c)) * (√(x * x + c) - x) = c := by
    linear_combination Real.mul_self_sqrt hnonneg
  have hdifference : √(x * x + c) - x ≠ 0 := by
    intro hzero
    rw [hzero, mul_zero] at hconjugate
    exact hc.ne hconjugate
  rw [div_eq_iff hdifference, hconjugate]

/-! ### The narrowing as a function of the total doping -/

namespace Silicon

/-- The narrowing by a total doping that is positive. -/
noncomputable def narrowingOf (total : ℝ) : ℝ :=
  9e-3 * (Real.log (total / 1e17) + √(Real.log (total / 1e17) ^ 2 + 0.5))

theorem narrowingOf_apply (total : ℝ) : narrowingOf total =
    9 / 1000 * (Real.log (total / 10 ^ 17) + √(Real.log (total / 10 ^ 17) ^ 2 + 1 / 2)) := by
  norm_num [narrowingOf]

theorem gapNarrowing_of_nonpos {donor acceptor : ℝ} (h : donor + acceptor ≤ 0) :
    gapNarrowing donor acceptor = 0 := by
  rw [gapNarrowing]
  norm_num [OfScientific.ofScientific, ExactScalar.ofDecimal_eq, h]

/-- Either form of the narrowing is that of the total doping. -/
theorem gapNarrowing_of_pos {donor acceptor : ℝ} (h : 0 < donor + acceptor) :
    gapNarrowing donor acceptor = narrowingOf (donor + acceptor) := by
  have hquotient := div_sqrt_sub_eq one_half_pos (Real.log ((donor + acceptor) / 10 ^ 17))
  have hbranches : gapNarrowing donor acceptor =
      if 0 ≤ Real.log ((donor + acceptor) / 10 ^ 17) then narrowingOf (donor + acceptor)
      else 9 / 1000 * (1 / 2 / (√(Real.log ((donor + acceptor) / 10 ^ 17) *
        Real.log ((donor + acceptor) / 10 ^ 17) + 1 / 2) -
          Real.log ((donor + acceptor) / 10 ^ 17))) := by
    rw [gapNarrowing, narrowingOf_apply, pow_two, ← mul_div_assoc]
    norm_num [OfScientific.ofScientific, ExactScalar.ofDecimal_eq, h.not_ge]
    rfl
  rw [hbranches, hquotient, ← pow_two, ← narrowingOf_apply]
  split_ifs
  · rfl
  · rfl

theorem narrowingOf_eq (total : ℝ) : narrowingOf total =
    9 / 1000 * (√(1 / 2) * Real.exp (Real.arsinh (Real.log (total / 10 ^ 17) / √(1 / 2)))) := by
  rw [narrowingOf_apply, pow_two, add_sqrt_eq one_half_pos]

theorem narrowingOf_pos (total : ℝ) : 0 < narrowingOf total := by
  rw [narrowingOf_eq]
  positivity

theorem narrowingOf_lt {total total' : ℝ} (hpos : 0 < total) (h : total < total') :
    narrowingOf total < narrowingOf total' := by
  have hroot : 0 < √(1 / 2 : ℝ) := Real.sqrt_pos.2 one_half_pos
  have hlog : Real.log (total / 10 ^ 17) < Real.log (total' / 10 ^ 17) :=
    Real.log_lt_log (by positivity) (by gcongr)
  have harcsine : Real.arsinh (Real.log (total / 10 ^ 17) / √(1 / 2)) <
      Real.arsinh (Real.log (total' / 10 ^ 17) / √(1 / 2)) :=
    Real.arsinh_lt_arsinh.2 (div_lt_div_of_pos_right hlog hroot)
  rw [narrowingOf_eq, narrowingOf_eq]
  gcongr

/-- The narrowing vanishes with the doping. -/
theorem tendsto_narrowingOf : Tendsto narrowingOf (𝓝[>] 0) (𝓝 0) := by
  have hroot : 0 < √(1 / 2 : ℝ) := Real.sqrt_pos.2 one_half_pos
  have htotal : Tendsto (fun total : ℝ => total / 10 ^ 17) (𝓝[>] 0) (𝓝[>] 0) := by
    refine tendsto_nhdsWithin_iff.2 ⟨?_, ?_⟩
    · have hcontinuous : Continuous fun total : ℝ => total / 10 ^ 17 := by fun_prop
      exact (hcontinuous.tendsto' 0 0 (zero_div _)).mono_left nhdsWithin_le_nhds
    · have hreference : (0 : ℝ) < 10 ^ 17 := by positivity
      exact eventually_mem_nhdsWithin.mono fun total hpos => div_pos hpos hreference
  have hlog := (Real.tendsto_log_nhdsGT_zero.comp htotal).atBot_div_const hroot
  have hexp := Real.tendsto_exp_atBot.comp (Real.sinhOrderIso.symm.tendsto_atBot.comp hlog)
  have hlimit := (hexp.const_mul (√(1 / 2))).const_mul (9 / 1000)
  rw [mul_zero, mul_zero] at hlimit
  exact hlimit.congr fun total => (narrowingOf_eq total).symm

/-- Only the total doping counts. -/
theorem gapNarrowing_congr {donor acceptor donor' acceptor' : ℝ}
    (h : donor + acceptor = donor' + acceptor') :
    gapNarrowing donor acceptor = gapNarrowing donor' acceptor' := by
  rw [gapNarrowing, gapNarrowing, h]

theorem gapNarrowing_lt {donor acceptor donor' acceptor' : ℝ} (hnonneg : 0 ≤ donor + acceptor)
    (h : donor + acceptor < donor' + acceptor') :
    gapNarrowing donor acceptor < gapNarrowing donor' acceptor' := by
  rw [gapNarrowing_of_pos (hnonneg.trans_lt h)]
  rcases hnonneg.eq_or_lt with hzero | hpos
  · rw [gapNarrowing_of_nonpos hzero.ge]
    exact narrowingOf_pos _
  · rw [gapNarrowing_of_pos hpos]
    exact narrowingOf_lt hpos h

/-- The narrower the gap, the more carriers there are. -/
theorem intrinsicDensity_lt {temperature narrowing narrowing' : ℝ} (htemperature : 0 < temperature)
    (h : narrowing < narrowing') :
    intrinsicDensity temperature narrowing < intrinsicDensity temperature narrowing' := by
  have hthermal := thermalVoltage_pos htemperature
  have hhalf : 0 < (Scalar.ofDecimal 5 true 1 : ℝ) := ofDecimal_pos (by decide) true 1
  have hexponent : (narrowing - bandGap) * (Scalar.ofDecimal 5 true 1 : ℝ) /
      thermalVoltage temperature <
        (narrowing' - bandGap) * (Scalar.ofDecimal 5 true 1 : ℝ) / thermalVoltage temperature := by
    gcongr
  exact mul_lt_mul_of_pos_left (Real.exp_lt_exp.2 hexponent) (bandDensity_pos htemperature)

/-! ### Silicon -/

/-- **Heavier doping narrows the gap.** The narrowing of silicon is a function of the total doping.
Where there is any it is positive and rises with it, on both sides of the density at which the form
that is evaluated changes and across it, and it tends to the zero that is given for no doping. So
the intrinsic density at a temperature is positive and rises with the total doping. -/
theorem heavier_doping_narrows :
    (∀ donor acceptor : ℝ, 0 < donor + acceptor →
      gapNarrowing donor acceptor =
          9 / 1000 * (Real.log ((donor + acceptor) / 10 ^ 17) +
            √(Real.log ((donor + acceptor) / 10 ^ 17) ^ 2 + 1 / 2)) ∧
        0 < gapNarrowing donor acceptor) ∧
    (∀ donor acceptor : ℝ, donor + acceptor = 0 → gapNarrowing donor acceptor = 0) ∧
    Tendsto (fun doping : ℝ × ℝ => gapNarrowing doping.1 doping.2)
      (comap (fun doping => doping.1 + doping.2) (𝓝[>] 0)) (𝓝 0) ∧
    (∀ donor acceptor donor' acceptor' : ℝ, 0 ≤ donor + acceptor →
      donor + acceptor < donor' + acceptor' →
      gapNarrowing donor acceptor < gapNarrowing donor' acceptor') ∧
    ∀ temperature : ℝ, 0 < temperature → ∀ donor acceptor donor' acceptor' : ℝ,
      0 < intrinsicDensity temperature (gapNarrowing donor acceptor) ∧
      (donor + acceptor = donor' + acceptor' →
        intrinsicDensity temperature (gapNarrowing donor acceptor) =
          intrinsicDensity temperature (gapNarrowing donor' acceptor')) ∧
      (0 ≤ donor + acceptor → donor + acceptor < donor' + acceptor' →
        intrinsicDensity temperature (gapNarrowing donor acceptor) <
          intrinsicDensity temperature (gapNarrowing donor' acceptor')) := by
  refine ⟨?_, ?_, ?_, ?_, ?_⟩
  · intro donor acceptor h
    have hvalue := gapNarrowing_of_pos h
    exact ⟨hvalue.trans (narrowingOf_apply _), hvalue.symm ▸ narrowingOf_pos _⟩
  · exact fun _ _ h => gapNarrowing_of_nonpos h.le
  · have hpos : ∀ᶠ doping : ℝ × ℝ in comap (fun doping => doping.1 + doping.2) (𝓝[>] 0),
        0 < doping.1 + doping.2 := eventually_mem_nhdsWithin.comap _
    refine (tendsto_narrowingOf.comp Filter.tendsto_comap).congr' ?_
    exact hpos.mono fun doping h => (gapNarrowing_of_pos h).symm
  · exact fun _ _ _ _ hnonneg h => gapNarrowing_lt hnonneg h
  · intro temperature htemperature donor acceptor donor' acceptor'
    refine ⟨intrinsicDensity_pos htemperature _, fun h => ?_, fun hnonneg h => ?_⟩
    · exact congrArg _ (gapNarrowing_congr h)
    · exact intrinsicDensity_lt htemperature (gapNarrowing_lt hnonneg h)

/-- Less doping than the reference density, exactly as much, and more. -/
theorem heavier_doping_narrows_acrossReference :
    gapNarrowing (10 ^ 17 : ℝ) 0 = 9 / 1000 * √(1 / 2) ∧
      gapNarrowing (10 ^ 16 : ℝ) 0 < gapNarrowing (10 ^ 17 : ℝ) 0 ∧
      intrinsicDensity 300 (gapNarrowing (10 ^ 17 : ℝ) 0) <
        intrinsicDensity 300 (gapNarrowing (10 ^ 17 : ℝ) (10 ^ 20)) := by
  obtain ⟨hvalue, -, -, hlt, hdensity⟩ := heavier_doping_narrows
  refine ⟨?_, hlt _ _ _ _ (by norm_num) (by norm_num), ?_⟩
  · rw [(hvalue (10 ^ 17) 0 (by norm_num)).1]
    norm_num
  · exact (hdensity 300 (by norm_num) _ _ _ _).2.2 (by norm_num) (by norm_num)

end Silicon

end CarrierTransport.Physics
