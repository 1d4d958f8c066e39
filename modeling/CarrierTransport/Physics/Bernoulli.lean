import CarrierTransport.Scalar.Basic

/-!
# The Bernoulli function

`B(x) = x / (exp x - 1)` and its derivative weight the carrier fluxes between two nodes. Both have
a removable singularity at the origin, where they are evaluated from their Taylor series; what the
series leave out is below `1e-17` there. Away from the origin the derivative
`(1 - B(x) exp x) / (exp x - 1)` is evaluated through `B(x) exp x = B(-x)`, so that large arguments
do not overflow.
-/

namespace CarrierTransport.Physics

variable {α : Type} [Scalar α]

/-- Below this magnitude the series are used. -/
def seriesThreshold : α := 1e-2

/-- The Bernoulli function `x / (exp x - 1)`, one at the origin. -/
def bernoulli (x : α) : α :=
  let x2 := x * x
  if Scalar.abs x < seriesThreshold then
    1.0 - x / 2.0 + x2 / 12.0 * (1.0 - x2 / 60.0 * (1.0 - x2 / 42.0))
  else
    x / Scalar.expm1 x

/-- The derivative of the Bernoulli function, minus one half at the origin. -/
def bernoulliDerivative (x : α) : α :=
  let x2 := x * x
  if Scalar.abs x < seriesThreshold then
    -0.5 + x / 6.0 * (1.0 - x2 / 30.0 * (1.0 - x2 / 28.0))
  else
    (1.0 - bernoulli (-x)) / Scalar.expm1 x

end CarrierTransport.Physics
