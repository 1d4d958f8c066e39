import Mathlib
import CarrierTransport.Proofs.Scalar.Exact

/-!
# The real numbers

The real numbers with the functions of analysis are an exact scalar type: over it the definitions
of the library are the formulas they were written for. Nothing can be computed in it.
-/

namespace CarrierTransport

/-- The real numbers. The least positive number of full precision is that of double precision. -/
noncomputable instance : ExactScalar ℝ where
  toField := inferInstance
  __ := (inferInstance : LinearOrder ℝ)
  __ := (inferInstance : IsStrictOrderedRing ℝ)
  decideLT := inferInstance
  decideLE := inferInstance
  abs a := |a|
  sqrt := Real.sqrt
  exp := Real.exp
  expm1 x := Real.exp x - 1
  ln := Real.log
  asinh := Real.arsinh
  ofDecimal m s e := if s then (m : ℝ) / 10 ^ e else (m : ℝ) * 10 ^ e
  count n := n
  minPositive := 2.2250738585072014e-308
  abs_eq_abs _ := rfl
  sqrt_zero := Real.sqrt_zero
  ofDecimal_eq _ _ _ := rfl
  count_eq _ := rfl

theorem Scalar.minPositive_pos : 0 < (Scalar.minPositive : ℝ) := by
  change (0 : ℝ) < ((22250738585072014e-324 : ℚ≥0) : ℝ)
  exact NNRat.cast_pos.2 (by decide +kernel)

end CarrierTransport
