/-!
# Decimal digits of a positive quotient

The building blocks of decimal text: how many digits a natural number has, the power of ten that
a positive quotient starts at, and its nearest multiple of a power of ten, ties to even. All of it
is exact arithmetic on natural numbers.
-/

namespace CarrierTransport.Decimal

/-! ### Digits -/

/-- The number of decimal digits of a natural number; zero has one. -/
def digitCount (n : Nat) : Nat :=
  if n < 10 then 1 else digitCount (n / 10) + 1

/-- The decimal digits of a natural number, the leading one first. -/
def digits (n : Nat) : List Char :=
  Nat.toDigits 10 n

/-- An integer in decimal, a sign only before a negative one. -/
def integer : Int → List Char
  | .ofNat n => digits n
  | .negSucc n => '-' :: digits (n + 1)

/-! ### Rounding -/

/-- The nearest natural number to `num / den`, a half going to the even neighbour. -/
def roundDiv (num den : Nat) : Nat :=
  let q := num / den
  let r := num % den
  if den < 2 * r ∨ (den = 2 * r ∧ q % 2 = 1) then q + 1 else q

/-- A positive quotient. -/
structure Quotient where
  num : Nat
  den : Nat
deriving Repr

namespace Quotient

/-- The value `mantissa * base ^ exponent`. -/
def ofPower (mantissa base : Nat) : Int → Quotient
  | .ofNat e => ⟨mantissa * Nat.pow base e, 1⟩
  | .negSucc e => ⟨mantissa, Nat.pow base (e + 1)⟩

/-- The quotient times `10 ^ e`. -/
def shift (v : Quotient) : Int → Quotient
  | .ofNat e => ⟨v.num * Nat.pow 10 e, v.den⟩
  | .negSucc e => ⟨v.num, v.den * Nat.pow 10 (e + 1)⟩

/-- The exponent of the leading decimal digit, the largest `k` with `10 ^ k ≤ v`: one less than
the digits of the whole part or, below one, the digits that the whole part of the inverse has
just below it. -/
def leading (v : Quotient) : Int :=
  if v.den ≤ v.num then digitCount (v.num / v.den) - 1
  else - (digitCount ((v.den - 1) / v.num) : Int)

/-- The two multiples of `10 ^ e` around the quotient, the lower one first. -/
def neighbours (v : Quotient) (e : Int) : Nat × Nat :=
  let s := v.shift (-e)
  (s.num / s.den, s.num / s.den + 1)

end Quotient

end CarrierTransport.Decimal
