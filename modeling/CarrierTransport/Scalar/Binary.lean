import CarrierTransport.Scalar.Basic
import CarrierTransport.Scalar.Exponential

/-!
# Binary floating point

The two precisions that a simulation runs in: `Float` (binary64) and `Float32` (binary32). A
number of either is seen through `Float.Model.UnpackedFloat`, its exact value: a sign, a mantissa
and a power of two, or one of the special values. Conversions between the two round that exact
value to nearest, ties to even.

Decimal constants of a formula are constants of binary64; in binary32 each is that constant
rounded once more. `BinaryScalar` collects what reading and writing numbers needs to know of the
precision.
-/

namespace CarrierTransport

open Float.Model (UnpackedFloat Format)

/-! ### Conversions between the precisions -/

namespace Scalar

/-- An exact value brought to the given format. -/
def roundTo (format : Format) : UnpackedFloat → UnpackedFloat
  | .finite sign mantissa exponent _ => UnpackedFloat.round format sign mantissa exponent
  | special => special

/-- The nearest binary32 number. -/
def narrow (x : Float) : Float32 :=
  .ofModel (.pack (roundTo Format.binary32 x.toModel.unpack))

/-- The same number in binary64. -/
def widen (x : Float32) : Float :=
  .ofModel (.pack (roundTo Format.binary64 x.toModel.unpack))

/-! ### The instances -/

/-- The inverse hyperbolic sine, which is infinite as soon as doubling the argument is. -/
def asinh64 (x : Float) : Float :=
  if (x + x).isInf then x + x else Float.asinh x

/-- The inverse hyperbolic sine, which is infinite as soon as doubling the argument is. -/
def asinh32 (x : Float32) : Float32 :=
  if (x + x).isInf then x + x else Float32.asinh x

instance : Scalar Float where
  zero := 0.0
  one := 1.0
  decideLT := Float.decLt
  decideLE := Float.decLe
  abs := Float.abs
  sqrt := Float.sqrt
  exp := Float.exp
  expm1 := Exponential.expm1
  ln := Float.log
  asinh := asinh64
  ofDecimal := Float.ofScientific
  count := Float.ofNat
  minPositive := 2.2250738585072014e-308

instance : Scalar Float32 where
  zero := 0.0
  one := 1.0
  decideLT := Float32.decLt
  decideLE := Float32.decLe
  abs := Float32.abs
  sqrt := Float32.sqrt
  exp := Float32.exp
  expm1 x := narrow (Exponential.expm1 (widen x))
  ln := Float32.log
  asinh := asinh32
  ofDecimal m s e := narrow (Float.ofScientific m s e)
  count n := narrow (Float.ofNat n)
  minPositive := narrow 1.1754943508222875e-38

end Scalar

/-! ### Numbers with a binary format -/

/-- A scalar type of fixed binary format. -/
class BinaryScalar (α : Type) extends Scalar α where
  /-- The format its numbers are rounded to. -/
  format : Format
  /-- The exact value of a number. -/
  unpack : α → UnpackedFloat
  /-- The number of an exact value of the format. -/
  pack : UnpackedFloat → α
  /-- The nearest number to one in double precision. -/
  ofDouble : Float → α
  /-- The number in double precision. -/
  toDouble : α → Float

instance : BinaryScalar Float where
  format := Format.binary64
  unpack x := x.toModel.unpack
  pack u := .ofModel (.pack u)
  ofDouble := id
  toDouble := id

instance : BinaryScalar Float32 where
  format := Format.binary32
  unpack x := x.toModel.unpack
  pack u := .ofModel (.pack u)
  ofDouble := Scalar.narrow
  toDouble := Scalar.widen

end CarrierTransport
