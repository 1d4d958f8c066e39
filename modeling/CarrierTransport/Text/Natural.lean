/-!
# Machine integers

The texts of natural numbers below `2 ^ 64`: an optional plus sign and at least one decimal digit.
Signed integers of the same width lie between `-2 ^ 63` and `2 ^ 63`, the latter excluded.
-/

namespace CarrierTransport.Text

/-- One more than the largest index of the machine. -/
def indexLimit : Nat := Nat.pow 2 64

/-- Whether a signed integer fits into the machine. -/
def isSigned (n : Int) : Bool :=
  -(Nat.pow 2 63 : Nat) ≤ n ∧ n < (Nat.pow 2 63 : Nat)

/-- The number of a list of decimal digits read after `n`, unless another character occurs. -/
def digitsValue? (n : Nat) : List Char → Option Nat
  | [] => some n
  | d :: rest => if d.isDigit then digitsValue? (10 * n + (d.toNat - '0'.toNat)) rest else none

/-- A natural number of any size in decimal digits. -/
def natural? : List Char → Option Nat
  | [] => none
  | ds => digitsValue? 0 ds

/-- An index: a natural number below `indexLimit`, with or without a plus sign. -/
def index? (text : List Char) : Option Nat :=
  let ds := match text with
    | '+' :: rest => rest
    | _ => text
  (natural? ds).filter (· < indexLimit)

end CarrierTransport.Text
