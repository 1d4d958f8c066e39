import CarrierTransport.Decimal.Reading
import CarrierTransport.Text.Natural
import CarrierTransport.Toml.Value

/-!
# Entries as settings

The setting that a value of a document stands for. Values are taken generously: a number may be
written as a text or a truth value, a truth value as a number or a word. A record is a table, whose
other entries do not matter, or a list of its fields in order.
-/

namespace CarrierTransport.Configuration

open Toml (Entries Value)

/-! ### Words -/

/-- The truth value of a word in any case. -/
def truthOfWord? (word : String) : Option Bool :=
  let word := word.toLower
  if ["true", "on", "yes"].contains word then some true
  else if ["false", "off", "no"].contains word then some false
  else none

/-- An integer of 64 bits in decimal digits behind an optional sign. -/
def signed? (text : String) : Option Int := do
  let (negative, digits) := Decimal.takeSign text.toList
  let n ← Text.natural? digits
  let n : Int := if negative then -n else n
  if Text.isSigned n then return n else none

/-! ### Scalars -/

/-- The nearest number of an integer. -/
def ofInteger (n : Int) : Float :=
  (Decimal.Unsigned.decimal n.natAbs 0).signed (n < 0)

/-- The number that a value stands for, in double precision. -/
def number? : Value → Option Float
  | .float x => some x
  | .integer n => some (ofInteger n)
  | .boolean b => some (if b then 1.0 else 0.0)
  | .text content =>
    match truthOfWord? content with
    | some b => some (if b then 1.0 else 0.0)
    | none => Decimal.read? content.toList
  | .array _ => none
  | .table _ => none

/-- The number that a value stands for. -/
def scalar? {α : Type} [BinaryScalar α] (value : Value) : Option α :=
  (number? value).map BinaryScalar.ofDouble

/-- The integer that a value stands for; decimals are rounded, a half away from zero. -/
def integer? : Value → Option Int
  | .integer n => some n
  | .float x => some x.round.toInt64.toInt
  | .boolean b => some (if b then 1 else 0)
  | .text content =>
    match truthOfWord? content with
    | some b => some (if b then 1 else 0)
    | none => signed? content
  | .array _ => none
  | .table _ => none

/-- The count that a value stands for: its integer modulo `2 ^ 64`. -/
def count? (value : Value) : Option Nat :=
  (integer? value).map fun (n : Int) => (n % (Text.indexLimit : Int)).toNat

/-- The truth value that a value stands for. -/
def flag? : Value → Option Bool
  | .boolean b => some b
  | .integer n => some (n ≠ 0)
  | .float x => some !(x == 0)
  | .text content =>
    if content = "1" then some true
    else if content = "0" then some false
    else truthOfWord? content
  | .array _ => none
  | .table _ => none

/-- The choice that a value names, by a text or as the only entry of a table. -/
def choice? {β : Type} (named : List (String × β)) : Value → Option β
  | .text name => named.lookup name
  | .table [(name, _)] => named.lookup name
  | _ => none

/-! ### Records -/

/-- The fields of a record, given their order. -/
def fields? (names : List String) : Value → Option Entries
  | .table entries => some entries
  | .array items => some (names.zip items)
  | _ => none

/-- A field that has to be there. -/
def required {β : Type} (fields : Entries) (name : String) (decode : Value → Option β) :
    Option β :=
  (fields.lookup name).bind decode

/-- A field that may be left out. -/
def optional {β : Type} (fields : Entries) (name : String) (default : β)
    (decode : Value → Option β) : Option β :=
  match fields.lookup name with
  | none => some default
  | some value => decode value

end CarrierTransport.Configuration
