/-
  CarrierTransport/Scalar/Basic.lean
  ==================================
  **The numbers a simulation is computed with.**

  Densities and potentials differ by tens of orders of magnitude, so the
  precision of a run is a choice of its user. Every numerical definition of the
  library is therefore written once, over a type with the operations of the
  class `Scalar`, and keeps one fixed order of operations: over a floating-point
  type that order decides every last bit, over an exact ordered field the same
  text is the textbook formula.

  The class carries operations only. Laws are assumed where a statement needs
  them, of the type it speaks about.
-/

namespace CarrierTransport

/-! ### The operations -/

/-- The arithmetic, comparisons and elementary functions of a real number type.
    `ofDecimal m s e` is the constant `m * 10 ^ e` (`s = false`) or
    `m / 10 ^ e` (`s = true`), `count` the number of a natural number, and
    `minPositive` the least positive number of full precision. -/
class Scalar (α : Type) extends Zero α, One α, Add α, Sub α, Mul α, Div α, Neg α,
    LT α, LE α, BEq α where
  decideLT : DecidableLT α
  decideLE : DecidableLE α
  abs : α → α
  sqrt : α → α
  exp : α → α
  /-- The exponential less one, without cancellation near zero. -/
  expm1 : α → α
  /-- The natural logarithm. -/
  ln : α → α
  asinh : α → α
  ofDecimal : Nat → Bool → Nat → α
  count : Nat → α
  minPositive : α

namespace Scalar

variable {α : Type} [Scalar α]

instance : DecidableLT α := Scalar.decideLT
instance : DecidableLE α := Scalar.decideLE

/-- Decimal constants in the text of a formula are constants of the scalar type. -/
instance (priority := low) : OfScientific α := ⟨Scalar.ofDecimal⟩

/-! ### Derived operations -/

/-- The larger of two numbers; where one is not a number, the other. -/
def larger (a b : α) : α :=
  if a < b then b else if a == a then a else b

/-- The largest magnitude of the listed values, zero if there is none. -/
def largestMagnitude (values : List α) : α :=
  values.foldl (fun acc value => larger acc (abs value)) 0

end Scalar

end CarrierTransport
