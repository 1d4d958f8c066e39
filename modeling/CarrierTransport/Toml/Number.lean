import CarrierTransport.Decimal.Reading
import CarrierTransport.Text.Natural
import CarrierTransport.Toml.Quoted
import CarrierTransport.Toml.Value

/-!
# Numbers of a document

Integers in base ten, or in base sixteen, eight and two behind `0x`, `0o` and `0b`, and decimals
with a fraction or a power of ten. Single underscores may stand between digits, a base ten number
has no leading zeros, an integer fits into 64 bits and a decimal is finite. Besides there are `inf`
and `nan`. A plus sign may stand in front of each of them.
-/

namespace CarrierTransport.Toml

open Decimal (Unsigned)

/-! ### Digits -/

/-- Whether every underscore stands between two other characters, and there is one at all. -/
def underscoresBetween : List Char → Bool
  | [] => false
  | [d] => d ≠ '_'
  | d :: '_' :: rest => d ≠ '_' && underscoresBetween rest
  | d :: rest => d ≠ '_' && underscoresBetween rest

/-- The digits at the front, without their underscores, and what follows them. -/
def digits? (isDigit : Char → Bool) (text : List Char) : Reading (List Char) :=
  let inRun (c : Char) : Bool := isDigit c || c = '_'
  let run := text.takeWhile inRun
  if underscoresBetween run then some (run.filter (· ≠ '_'), text.dropWhile inRun) else none

/-- Whether digits start with a zero that could be left out. -/
def hasLeadingZero : List Char → Bool
  | '0' :: _ :: _ => true
  | _ => false

/-- The integer, if it fits into 64 bits. -/
def signed? (n : Int) : Option Value :=
  if Text.isSigned n then some (.integer n) else none

/-! ### Integers of another base -/

/-- Whether a character is a digit of a base up to sixteen. -/
def isDigitOf (base : Nat) (c : Char) : Bool :=
  (hexValue? c).any (· < base)

/-- The natural number of digits in a base. -/
def ofDigitsIn (base : Nat) (digits : List Char) : Nat :=
  digits.foldl (fun n d => base * n + (hexValue? d).getD 0) 0

/-- The integer of the digits behind the mark of a base. -/
def basedInteger? (base : Nat) (text : List Char) : Option Value :=
  match digits? (isDigitOf base) text with
  | some (digits, []) => signed? (ofDigitsIn base digits)
  | _ => none

/-! ### Decimals -/

/-- The power of ten at the end of a number. -/
def powerOfTen? : List Char → Option Int
  | [] => some 0
  | e :: rest =>
    if e = 'e' ∨ e = 'E' then
      let (negative, rest) := Decimal.takeSign rest
      match digits? Char.isDigit rest with
      | some (digits, []) =>
        let n : Int := Decimal.ofDigits digits
        some (if negative then -n else n)
      | _ => none
    else none

/-- The decimal of the digits around a point and of what follows them. -/
def decimal? (negative : Bool) (whole fraction rest : List Char) : Option Value := do
  let e ← powerOfTen? rest
  let mantissa := Decimal.ofDigits (whole ++ fraction)
  let x : Float := (Unsigned.decimal mantissa (e - fraction.length)).signed negative
  if x.isFinite then return .float x else none

/-- The number without its sign. -/
def unsignedNumber? (negative : Bool) (text : List Char) : Option Value := do
  if text = "inf".toList then return .float (Unsigned.infinite.signed negative)
  if text = "nan".toList then return .float (Unsigned.notANumber.signed negative)
  let (whole, rest) ← digits? Char.isDigit text
  if hasLeadingZero whole then none
  match rest with
  | [] =>
    let n : Int := Decimal.ofDigits whole
    signed? (if negative then -n else n)
  | '.' :: rest =>
    let (fraction, rest) ← digits? Char.isDigit rest
    decimal? negative whole fraction rest
  | _ => decimal? negative whole [] rest

/-! ### All forms -/

/-- A number without the plus sign in front of it. -/
def withoutPlus? : List Char → Option Value
  | '0' :: 'x' :: rest => basedInteger? 16 rest
  | '0' :: 'o' :: rest => basedInteger? 8 rest
  | '0' :: 'b' :: rest => basedInteger? 2 rest
  | '-' :: rest => unsignedNumber? true rest
  | text => unsignedNumber? false text

def number? : List Char → Option Value
  | '+' :: rest => withoutPlus? rest
  | text => withoutPlus? text

end CarrierTransport.Toml
