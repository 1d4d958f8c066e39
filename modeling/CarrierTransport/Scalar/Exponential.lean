/-
  CarrierTransport/Scalar/Exponential.lean
  ========================================
  **The exponential less one in double precision.**

  `exp x - 1` loses every digit near zero. Here the argument is reduced to
  `x = k * ln 2 + r` with `|r| ≤ ln 2 / 2`, the series of `exp r - 1` is summed
  from its smallest term, and `2 ^ k * ((1 - 2 ^ (-k)) + (exp r - 1))` is put
  together with the rounding errors of the last two sums carried along. The
  result is within one unit in the last place.
-/

namespace CarrierTransport.Scalar.Exponential

/-! ### The series near zero -/

/-- `1 / 3!` to `1 / 15!`, the coefficients of the series behind `r + r ^ 2 / 2`. -/
def coefficients : List Float :=
  [1.0 / 6.0, 1.0 / 24.0, 1.0 / 120.0, 1.0 / 720.0, 1.0 / 5040.0, 1.0 / 40320.0,
   1.0 / 362880.0, 1.0 / 3628800.0, 1.0 / 39916800.0, 1.0 / 479001600.0,
   1.0 / 6227020800.0, 1.0 / 87178291200.0, 1.0 / 1307674368000.0]

/-- What the series of `exp r - 1` adds to `r`, by nested multiplication. -/
def tail (r : Float) : Float :=
  r * r * (0.5 + r * coefficients.foldr (fun c acc => c + r * acc) 0.0)

/-! ### Reduction and reconstruction -/

/-- The leading bits of `ln 2`; a multiple of it by a small integer is exact. -/
def ln2High : Float := 6.93147180369123816490e-01

/-- The rest of `ln 2`. -/
def ln2Low : Float := 1.90821492927058770002e-10

/-- `1 / ln 2`. -/
def log2e : Float := 1.44269504088896338700

/-- The sum of two numbers and what rounding took from it. -/
def twoSum (a b : Float) : Float × Float :=
  let sum := a + b
  let part := sum - a
  (sum, (a - (sum - part)) + (b - part))

/-- `exp x - 1` of an argument of moderate size. -/
def reduced (x : Float) : Float :=
  let k := Float.floor (x * log2e + 0.5)
  let high := x - k * ln2High
  let low := k * ln2Low
  let r := high - low
  let correction := (high - r) - low
  let rest := tail r + correction * (1.0 + r)
  if k == 0.0 then r + rest else
    let (series, error) := twoSum r rest
    let exponent := if k < 0.0 then - Int.ofNat (-k).toUInt64.toNat else Int.ofNat k.toUInt64.toNat
    let (sum, error') := twoSum (1.0 - Float.scaleB 1.0 (-exponent)) series
    Float.scaleB (sum + (error' + error)) exponent

/-- `exp x - 1`. Beyond the reduced range the subtraction changes nothing. -/
def expm1 (x : Float) : Float :=
  if x < -50.0 then -1.0
  else if x < 50.0 then
    if x.abs < 1e-17 then x else reduced x
  else Float.exp x

end CarrierTransport.Scalar.Exponential
