import CarrierTransport.Scalar.Binary

/-!
# Reading numbers

The decimal texts of numbers: an optional sign, then digits with at most one point among or around
them and an optional power of ten, or one of the words `inf`, `infinity`, `nan` in any case. The
value is the number of the format nearest to the decimal, ties to even.
-/

namespace CarrierTransport.Decimal

open Float.Model (UnpackedFloat)

/-! ### The grammar -/

def ofDigits (ds : List Char) : Nat :=
  ds.foldl (fun n d => 10 * n + (d.toNat - '0'.toNat)) 0

/-- A text split into a leading sign, if any, and the rest. -/
def takeSign : List Char → Bool × List Char
  | '-' :: rest => (true, rest)
  | '+' :: rest => (false, rest)
  | rest => (false, rest)

/-- What a text without its sign denotes. -/
inductive Unsigned where
  | notANumber
  | infinite
  /-- The decimal `mantissa * 10 ^ exponent`. -/
  | decimal (mantissa : Nat) (exponent : Int)
deriving DecidableEq, Repr

/-- The power of ten at the end of a decimal. -/
def exponent? : List Char → Option Int
  | [] => some 0
  | e :: rest =>
    if e = 'e' ∨ e = 'E' then
      let (negative, ds) := takeSign rest
      if ds.isEmpty ∨ ¬ ds.all Char.isDigit then none
      else some (if negative then - (ofDigits ds : Int) else ofDigits ds)
    else none

/-- Digits, at most one point and an optional power of ten. -/
def decimal? (text : List Char) : Option Unsigned :=
  let whole := text.takeWhile Char.isDigit
  let (fraction, rest) := match text.dropWhile Char.isDigit with
    | '.' :: rest => (rest.takeWhile Char.isDigit, rest.dropWhile Char.isDigit)
    | rest => ([], rest)
  if whole.isEmpty && fraction.isEmpty then none
  else (exponent? rest).map fun e =>
    .decimal (ofDigits (whole ++ fraction)) (e - fraction.length)

/-- What a text without its sign denotes, if anything. -/
def unsigned? (text : List Char) : Option Unsigned :=
  let word := text.map Char.toLower
  if word = "nan".toList then some .notANumber
  else if word = "inf".toList ∨ word = "infinity".toList then some .infinite
  else decimal? text

/-! ### The value -/

/-- The value in the given format, before its sign. -/
def Unsigned.value (format : Float.Model.Format) : Unsigned → UnpackedFloat
  | .notANumber => .notANumber
  | .infinite => .infinity .positive
  | .decimal mantissa exponent => UnpackedFloat.ofScientific format mantissa exponent

/-- The nearest number, under a sign. -/
def Unsigned.signed {α : Type} [BinaryScalar α] (u : Unsigned) (negative : Bool) : α :=
  let value := u.value (BinaryScalar.format α)
  BinaryScalar.pack (if negative then value.neg else value)

def read? {α : Type} [BinaryScalar α] (text : List Char) : Option α :=
  let (negative, rest) := takeSign text
  (unsigned? rest).map (·.signed negative)

end CarrierTransport.Decimal
