import Mathlib
import CarrierTransport.Physics.Silicon
import CarrierTransport.Proofs.Scalar.Real

/-!
# The signs of the constants

Over an exact scalar type the constants are the decimal numbers they are written as, all of them
positive, and so is the thermal voltage at a positive temperature. Over the real numbers the
intrinsic density of silicon is positive as well.
-/

namespace CarrierTransport.Physics

open ExactScalar (ofDecimal_pos)

variable {α : Type} [ExactScalar α]

theorem elementaryCharge_pos : 0 < (elementaryCharge : α) :=
  ofDecimal_pos (by decide) true 26

theorem boltzmann_pos : 0 < (boltzmann : α) :=
  ofDecimal_pos (by decide) true 29

theorem voltsPerKelvin_pos : 0 < (voltsPerKelvin : α) :=
  ofDecimal_pos (by decide) true 20

theorem thermalVoltage_pos {temperature : α} (h : 0 < temperature) :
    0 < thermalVoltage temperature :=
  mul_pos voltsPerKelvin_pos h

theorem densityOfStates_pos {atReference temperature : ℝ} (h : 0 < atReference)
    (htemperature : 0 < temperature) : 0 < densityOfStates atReference temperature := by
  have hreduced : 0 < temperature / referenceTemperature :=
    div_pos htemperature (ofDecimal_pos (by decide) true 1)
  exact mul_pos (mul_pos h hreduced) (Real.sqrt_pos.2 hreduced)

/-- The geometric mean of the densities of states of both bands. -/
theorem Silicon.bandDensity_pos {temperature : ℝ} (h : 0 < temperature) :
    0 < √(conductionBandDensity temperature) * √(valenceBandDensity temperature) := by
  have hconduction : 0 < conductionBandDensity temperature :=
    densityOfStates_pos (ofDecimal_pos (by decide) false 18) h
  have hvalence : 0 < valenceBandDensity temperature :=
    densityOfStates_pos (ofDecimal_pos (by decide) false 17) h
  exact mul_pos (Real.sqrt_pos.2 hconduction) (Real.sqrt_pos.2 hvalence)

theorem Silicon.intrinsicDensity_pos {temperature : ℝ} (h : 0 < temperature) (narrowing : ℝ) :
    0 < Silicon.intrinsicDensity temperature narrowing :=
  mul_pos (bandDensity_pos h) (Real.exp_pos _)

end CarrierTransport.Physics
