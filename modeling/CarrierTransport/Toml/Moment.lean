import CarrierTransport.Toml.Layout

/-!
# Points in time

Dates, times of day and both together, the time then with or without its distance from universal
time. Only the form is checked: months, days, hours, minutes and seconds have their ranges, whatever
the month.
-/

namespace CarrierTransport.Toml

/-! ### Parts -/

/-- The number of two digits at the front within a range, and what follows them. -/
def twoDigits? (least greatest : Nat) : List Char → Option (List Char)
  | a :: b :: rest =>
    let n := 10 * (a.toNat - '0'.toNat) + (b.toNat - '0'.toNat)
    if a.isDigit ∧ b.isDigit ∧ least ≤ n ∧ n ≤ greatest then some rest else none
  | _ => none

/-- What follows a character at the front. -/
def after? (c : Char) : List Char → Option (List Char)
  | d :: rest => if d = c then some rest else none
  | [] => none

/-- What follows a date at the front. -/
def afterDate? (text : List Char) : Option (List Char) := do
  let rest ← twoDigits? 0 99 text
  let rest ← twoDigits? 0 99 rest
  let rest ← after? '-' rest
  let rest ← twoDigits? 1 12 rest
  let rest ← after? '-' rest
  twoDigits? 1 31 rest

/-- What follows the fraction of a second at the front, if there is one. -/
def afterFraction? : List Char → Option (List Char)
  | '.' :: d :: rest => if d.isDigit then some (rest.dropWhile Char.isDigit) else none
  | '.' :: [] => none
  | text => some text

/-- What follows a time of day at the front. -/
def afterTime? (text : List Char) : Option (List Char) := do
  let rest ← twoDigits? 0 24 text
  let rest ← after? ':' rest
  let rest ← twoDigits? 0 59 rest
  let rest ← after? ':' rest
  let rest ← twoDigits? 0 59 rest
  afterFraction? rest

/-- Whether a text is a distance from universal time, or empty. -/
def isOffset : List Char → Bool
  | [] => true
  | ['Z'] => true
  | ['z'] => true
  | sign :: rest =>
    (sign = '+' || sign = '-') &&
      ((do
        let rest ← twoDigits? 0 99 rest
        let rest ← after? ':' rest
        twoDigits? 0 99 rest) == some [])

/-! ### The whole -/

def isMoment (text : List Char) : Bool :=
  match afterDate? text with
  | some [] => true
  | some (separator :: rest) =>
    (separator = 'T' || separator = 't' || separator = ' ') && (afterTime? rest).any isOffset
  | none => afterTime? text == some []

end CarrierTransport.Toml
