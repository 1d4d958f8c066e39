import CarrierTransport.Configuration.Source
import CarrierTransport.Text.Natural
import CarrierTransport.Toml.Value

/-!
# Laying sources over one another

A later source overrides an earlier one entry by entry. Tables are merged at every depth; any other
value replaces what was there. A name at the top of a source may be a path into what it overrides:
`a.b` is the entry `b` of the table `a`, `a[0]` the first item of the list `a` and `a[-1]` its last.
What a path needs is made: tables, lists and their items.
-/

namespace CarrierTransport.Configuration

open Toml (Entries Value)

/-! ### Merging -/

/-- The entries of a table, none of another value. -/
def entriesOf : Option Value → Entries
  | some (.table entries) => entries
  | _ => []

/-- The items of a list, none of another value. -/
def itemsOf : Option Value → List Value
  | some (.array items) => items
  | _ => []

mutual

/-- What becomes of a value, if there is one, under a value laid over it. An empty table changes
nothing, not even a value that is no table. -/
def overlayValue (base : Option Value) : Value → Value
  | .table [] => base.getD (.table [])
  | .table (entry :: rest) => .table (overlayEntries (entriesOf base) (entry :: rest))
  | value => value

/-- The entries with others laid over them. -/
def overlayEntries (base : Entries) : List (String × Value) → Entries
  | [] => base
  | (name, value) :: rest =>
    overlayEntries (Entries.put base name (overlayValue (base.lookup name) value)) rest

end

/-! ### Paths -/

inductive Step where
  /-- To an entry of a table. -/
  | entry (name : String)
  /-- To an item of a list, counted from its end if the number is negative. -/
  | item (number : Int)
deriving DecidableEq, Repr

/-- Whether a character may stand in a name of a path. -/
def isPathChar (c : Char) : Bool :=
  c.isAlphanum || c = ' ' || c = '_' || c = '-'

/-- Whether a character may stand around a number of a path. -/
def isPathBlank (c : Char) : Bool :=
  c = ' ' || c = '\t'

/-- The number of an item: digits behind an optional minus sign, between blanks. -/
def itemNumber? (text : List Char) : Option Int := do
  let text := text.dropWhile isPathBlank
  let negative := text.head? = some '-'
  let digits := if negative then text.tail else text
  let n ← Text.natural? (digits.takeWhile Char.isDigit)
  let n : Int := if negative then -n else n
  if (digits.dropWhile Char.isDigit).all isPathBlank ∧ Text.isSigned n then return n else none

def steps? (text : List Char) : Option (List Step) :=
  match text with
  | [] => some []
  | '.' :: rest => do
    let name := rest.takeWhile isPathChar
    if name.isEmpty then none
    let steps ← steps? (rest.dropWhile isPathChar)
    return .entry (String.ofList name) :: steps
  | '[' :: rest => do
    let number ← itemNumber? (rest.takeWhile (· ≠ ']'))
    if (rest.dropWhile (· ≠ ']')).isEmpty then none
    let steps ← steps? (rest.dropWhile (· ≠ ']')).tail
    return .item number :: steps
  | _ => none
termination_by text.length
decreasing_by
  · have := (List.dropWhile_suffix (l := rest) isPathChar).length_le
    simp; omega
  · have := (List.dropWhile_suffix (l := rest) (· ≠ ']')).length_le
    simp at this ⊢; omega

/-- The path that a name at the top of a source stands for: an entry, and steps from there. A name
that is no path is the name of an entry. -/
def pathOfName (name : String) : String × List Step :=
  let first := name.toList.takeWhile isPathChar
  match first, steps? (name.toList.dropWhile isPathChar) with
  | _ :: _, some steps => (String.ofList first, steps)
  | _, _ => (name, [])

/-! ### Following a path -/

/-- The number of items that a list may have. -/
def longestList : Nat := Nat.pow 2 26

/-- Where an item stands in a list of so many items; none in front of the list and too far behind
it. -/
def itemPlace? (count : Nat) (number : Int) : Option Nat :=
  let place : Int := if number < 0 then count + number else number
  if 0 ≤ place ∧ place < longestList then some place.toNat else none

/-- An item that is not given, which stands for nothing. -/
def missingItem : Value := .array []

/-- A list with an item set; items before it that are not there are missing. -/
def setItem (items : List Value) (place : Nat) (value : Value) : List Value :=
  items.take place ++ List.replicate (place - items.length) missingItem ++
    value :: items.drop (place + 1)

/-- What becomes of a value, if there is one, with another laid over what stands at the end of some
steps. An item is replaced as a whole. -/
def overlayAt (value : Value) : List Step → Option Value → Option Value
  | [], base => some (overlayValue base value)
  | .entry name :: rest, base => do
    let entries := entriesOf base
    let inner ← overlayAt value rest (entries.lookup name)
    return .table (Entries.put entries name inner)
  | .item number :: rest, base => do
    let items := itemsOf base
    let place ← itemPlace? items.length number
    let inner ← if rest.isEmpty then some value else overlayAt value rest items[place]?
    return .array (setItem items place inner)

def overlaySource (base source : Entries) : Except SourceError Entries :=
  source.foldlM (fun entries (name, value) => do
    let (first, steps) := pathOfName name
    match overlayAt value steps (entries.lookup first) with
    | some inner => return Entries.put entries first inner
    | none => throw .misplaced) base

end CarrierTransport.Configuration
