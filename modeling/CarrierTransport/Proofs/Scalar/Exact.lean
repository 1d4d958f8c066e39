import Mathlib
import CarrierTransport.Scalar.Binary

/-!
# Exact arithmetic

Every numerical definition of the library is written over the operations of `Scalar`. Here are the
scalar types on which these operations are those of an ordered field: nothing is rounded, every
number is comparable with every other, and a decimal constant is the number it denotes. Statements
about the mathematics of an algorithm are statements about these types; where only sums and products
matter they are statements about fields (`FieldScalar`).

Of the elementary functions only the root of zero is fixed, so a statement over an exact scalar
type holds whatever functions stand for the others. The rationals are an exact scalar type on which
the whole library can be evaluated.
-/

namespace CarrierTransport

/-! ### The laws -/

/-- A scalar type with the exact arithmetic of a field. Nothing is known of its comparisons. -/
class FieldScalar (α : Type) extends Scalar α, Field α

/-- A scalar type with the exact arithmetic of an ordered field. -/
class ExactScalar (α : Type) extends Scalar α, Field α, LinearOrder α, IsStrictOrderedRing α,
    LawfulBEq α where
  abs_eq_abs (a : α) : Scalar.abs a = |a|
  sqrt_zero : Scalar.sqrt (0 : α) = 0
  ofDecimal_eq (m : Nat) (s : Bool) (e : Nat) :
    (Scalar.ofDecimal m s e : α) = if s then (m : α) / 10 ^ e else (m : α) * 10 ^ e
  count_eq (n : Nat) : (Scalar.count n : α) = n

namespace ExactScalar

attribute [simp] abs_eq_abs sqrt_zero

theorem ofDecimal_pos {α : Type} [ExactScalar α] {m : Nat} (h : 0 < m) (s : Bool) (e : Nat) :
    0 < (Scalar.ofDecimal m s e : α) := by
  have hm : 0 < (m : α) := Nat.cast_pos.2 h
  rw [ofDecimal_eq]
  split_ifs
  · positivity
  · positivity

/-- How a one is written. -/
theorem ofDecimal_one {α : Type} [ExactScalar α] : (Scalar.ofDecimal 10 true 1 : α) = 1 := by
  rw [ofDecimal_eq]
  norm_num

theorem larger_eq_max {α : Type} [ExactScalar α] (a b : α) : Scalar.larger a b = max a b := by
  unfold Scalar.larger
  split
  · next h => exact (max_eq_right h.le).symm
  · next h => rw [if_pos (beq_self_eq_true a), max_eq_left (not_lt.1 h)]

end ExactScalar

instance (priority := low) {α : Type} [h : ExactScalar α] : FieldScalar α :=
  { h with }

/-- Exact numbers that can be written to files. Nothing is asked of how they are rounded for that. -/
class ExactBinaryScalar (α : Type) extends ExactScalar α, BinaryScalar α

/-! ### The rationals -/

/-- The rationals. The root is exact on squares; the exponential and its relatives are replaced by
rational functions of the same sign, growth and value at zero, on which no law depends. -/
instance : ExactScalar ℚ where
  toField := inferInstance
  __ := (inferInstance : LinearOrder ℚ)
  __ := (inferInstance : IsStrictOrderedRing ℚ)
  decideLT := inferInstance
  decideLE := inferInstance
  abs a := max a (-a)
  sqrt := Rat.sqrt
  exp x := if 0 ≤ x then 1 + x + x * x / 2 else 1 / (1 - x + x * x / 2)
  expm1 x := if 0 ≤ x then x + x * x / 2 else 1 / (1 - x + x * x / 2) - 1
  ln x := (x - 1) / x
  asinh x := x
  ofDecimal m s e := if s then (m : ℚ) / 10 ^ e else (m : ℚ) * 10 ^ e
  count n := n
  minPositive := 1 / 10 ^ 300
  abs_eq_abs _ := rfl
  sqrt_zero := by simp [Rat.sqrt]
  ofDecimal_eq _ _ _ := rfl
  count_eq _ := rfl

/-- Rationals are written in double precision. -/
instance : ExactBinaryScalar ℚ where
  toExactScalar := inferInstance
  format := .binary64
  unpack q := .div .binary64 (.ofInt .binary64 q.num) (.ofNat .binary64 q.den)
  pack u := (Float.ofModel (.pack u)).toRat0
  ofDouble x := x.toRat0
  toDouble q := .ofModel (.pack (.div .binary64 (.ofInt .binary64 q.num) (.ofNat .binary64 q.den)))

end CarrierTransport
