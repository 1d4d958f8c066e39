import CarrierTransport.Scalar.Basic

/-!
# Physical constants

Lengths are measured in centimetres, energies in electron volts, charges in coulombs.
-/

namespace CarrierTransport.Physics

variable {α : Type} [Scalar α]

/-- The Boltzmann constant in joules per kelvin. -/
def boltzmann : α := 1.380662e-23

/-- The elementary charge in coulombs. -/
def elementaryCharge : α := 1.6021892e-19

/-- The permittivity of free space in farads per centimetre. -/
def vacuumPermittivity : α := 8.854187818e-14

/-- The temperature in kelvin at which band parameters are quoted. -/
def referenceTemperature : α := 300.0

/-- The Boltzmann constant over the elementary charge in volts per kelvin. -/
def voltsPerKelvin : α := 8.617346815220074e-05

/-- The voltage `k T / q` that a carrier's thermal energy corresponds to. -/
def thermalVoltage (temperature : α) : α :=
  voltsPerKelvin * temperature

end CarrierTransport.Physics
