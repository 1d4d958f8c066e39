import CarrierTransport.Scalar.Binary
import CarrierTransport.Decimal.Magnitude

/-!
# Scientific notation

A number is written as one digit, a point, the remaining digits and a power of ten. With a fixed
count of significant digits the exact binary value is rounded to nearest, ties to even; in the
shortest form the digits are the fewest that read back as the same number, of several such decimals
the nearest and of two as near the greater.
-/

namespace CarrierTransport.Decimal

open Float.Model (UnpackedFloat Format)
open Float.Model.UnpackedFloat (Sign)

/-! ### The form of the text -/

/-- A significand and exponent as text: `d.ddde-5`, without the point if there is one digit. -/
def scientific (significand : Nat) (exponent : Int) : List Char :=
  let mark := 'e' :: integer exponent
  match digits significand with
  | [] => mark
  | [d] => d :: mark
  | d :: rest => d :: '.' :: rest ++ mark

/-- A text with the sign of the number in front. -/
def signed : Sign → List Char → List Char
  | .positive, text => text
  | .negative, text => '-' :: text

/-- The texts shared by every notation; `finite` writes a positive value and `zero` the zero. -/
def write (zero : List Char) (finite : (mantissa : Nat) → (exponent : Int) → List Char) :
    UnpackedFloat → List Char
  | .notANumber => "NaN".toList
  | .infinity sign => signed sign "inf".toList
  | .zero sign => signed sign zero
  | .finite sign mantissa exponent _ => signed sign (finite mantissa exponent)

/-! ### A fixed count of digits -/

/-- The significand of `count` digits nearest to a positive quotient, and its leading exponent. -/
def roundedDigits (count : Nat) (v : Quotient) : Nat × Int :=
  let k := v.leading
  let s := v.shift (count - 1 - k)
  let q := roundDiv s.num s.den
  if q < Nat.pow 10 count then (q, k) else (q / 10, k + 1)

/-- The exact value to `count` significant digits. -/
def fixed (count : Nat) : UnpackedFloat → List Char :=
  write (match count with
      | 0 | 1 => "0e0".toList
      | n + 1 => "0.".toList ++ List.replicate n '0' ++ "e0".toList)
    fun mantissa exponent =>
      let (significand, k) := roundedDigits count (.ofPower mantissa 2 exponent)
      scientific significand k

/-! ### The fewest digits -/

/-- The numbers that round to a given one: in quarters of its last place, from `low` to `high`,
the ends included if `closed`. -/
structure Interval where
  low : Nat
  high : Nat
  exponent : Int
  closed : Bool

/-- The rounding interval of `mantissa * 2 ^ exponent`. Below a power of two the numbers lie twice
as close, unless the exponent is the least of the format. -/
def interval (format : Format) (mantissa : Nat) (exponent : Int) : Interval :=
  let least := Nat.pow 2 format.mantissaBitsWithoutImplicit
  let narrow := mantissa = least ∧ format.minExponent < exponent
  { low := 4 * mantissa - (if narrow then 1 else 2)
    high := 4 * mantissa + 2
    exponent := exponent - 2
    closed := mantissa % 2 = 0 }

/-- Whether `n * 10 ^ e` rounds to the number of the interval. -/
def Interval.contains (i : Interval) (n : Nat) (e : Int) : Bool :=
  let v := Quotient.shift ⟨n, 1⟩ e
  let low := Quotient.ofPower i.low 2 i.exponent
  let high := Quotient.ofPower i.high 2 i.exponent
  let below := low.num * v.den
  let above := high.num * v.den
  let atLow := v.num * low.den
  let atHigh := v.num * high.den
  if i.closed then below ≤ atLow && atHigh ≤ above else below < atLow && atHigh < above

/-- The decimal of `count` digits that rounds to the number, if there is one; of two the nearer,
of two as near the greater one. -/
def ofDigits? (i : Interval) (v : Quotient) (count : Nat) : Option (Nat × Int) :=
  let e := v.leading - (count - 1)
  let (lower, upper) := v.neighbours e
  match i.contains lower e, i.contains upper e with
  | true, true =>
    let s := v.shift (-e)
    some (if 2 * (s.num % s.den) < s.den then lower else upper, e)
  | true, false => some (lower, e)
  | false, true => some (upper, e)
  | false, false => none

/-- A significand without the zeros at its end, and the exponent that makes up for them. -/
def trimZeros (significand : Nat) (exponent : Int) : Nat × Int :=
  if h : 0 < significand ∧ significand % 10 = 0 then trimZeros (significand / 10) (exponent + 1)
  else (significand, exponent)
termination_by significand
decreasing_by exact Nat.div_lt_self h.1 (by decide)

/-- Seventeen digits tell any two numbers of double precision apart. -/
def maximalDigits : Nat := 17

/-- The decimal of fewest digits that reads back as `mantissa * 2 ^ exponent`. -/
def fewestDigits (format : Format) (mantissa : Nat) (exponent : Int) : Nat × Int :=
  let i := interval format mantissa exponent
  let v := Quotient.ofPower mantissa 2 exponent
  let found := (List.range maximalDigits).findSome? fun n => ofDigits? i v (n + 1)
  let (significand, e) := found.getD
    (let (q, k) := roundedDigits maximalDigits v; (q, k - (maximalDigits - 1)))
  trimZeros significand e

/-- The shortest text that reads back as the number. -/
def shortest (format : Format) : UnpackedFloat → List Char :=
  write "0e0".toList fun mantissa exponent =>
    let (significand, e) := fewestDigits format mantissa exponent
    scientific significand (e + (digitCount significand - 1 : Nat))

/-! ### Of numbers -/

/-- A number to `count` significant digits. -/
def toDigits {α : Type} [BinaryScalar α] (count : Nat) (x : α) : String :=
  String.ofList (fixed count (BinaryScalar.unpack x))

/-- A number in the shortest form that reads back in double precision. -/
def toShortest {α : Type} [BinaryScalar α] (x : α) : String :=
  String.ofList (shortest Format.binary64 (BinaryScalar.toDouble x).toModel.unpack)

end CarrierTransport.Decimal
