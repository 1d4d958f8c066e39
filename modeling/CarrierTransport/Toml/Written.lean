import CarrierTransport.Toml.Moment
import CarrierTransport.Toml.Value

/-!
# Values as written

The form of a value, before it is asked what it means: a name may occur twice in a table and a word
that looks like a point in time need not be one. Both are refused only where the meaning of the value
is asked for.

A table that opens with the reserved name `momentName` stands for the point in time that its first
value spells, whatever follows in it.
-/

namespace CarrierTransport.Toml

/-! ### Forms -/

inductive Written where
  /-- A value that means itself. -/
  | plain (value : Value)
  /-- A word that looks like a point in time. -/
  | moment (word : List Char)
  | array (items : List Written)
  /-- A table in braces. -/
  | table (entries : List (String × Written))
  /-- A table that dotted keys have made, to which further ones may add. -/
  | dotted (entries : List (String × Written))
deriving Inhabited

/-- The entries of a table as they are written. -/
abbrev WrittenEntries := List (String × Written)

/-- The entries with a value under a dotted key. The names in front of the last are tables that
dotted keys have made; the last name may be there already. -/
def WrittenEntries.add (value : Written) : List String → WrittenEntries → Option WrittenEntries
  | [], _ => none
  | [name], entries => some (entries ++ [(name, value)])
  | name :: rest, entries =>
    match entries.lookup name with
    | none => do
      let inner ← add value rest []
      return entries ++ [(name, .dotted inner)]
    | some (.dotted inner) => do
      let inner ← add value rest inner
      return Entries.put entries name (.dotted inner)
    | some _ => none

/-! ### Meanings -/

/-- The name that opens a table which stands for a point in time. -/
def momentName : String := "$__toml_private_datetime"

/-- The point in time that a text spells. -/
def momentOf? (word : List Char) : Option Value :=
  if isMoment word then some (.text (String.ofList word)) else none

/-- The point in time that a value spells; only a text does. -/
def Written.spelled? : Written → Option Value
  | .plain (.text content) => momentOf? content.toList
  | _ => none

/-- What a table stands for, given what it holds. -/
def tableMeaning? (entries : WrittenEntries) (content : Option Entries) : Option Value :=
  match entries with
  | (name, first) :: _ => if name = momentName then first.spelled? else content.map .table
  | [] => some (.table [])

mutual

def Written.value? : Written → Option Value
  | .plain value => some value
  | .moment word => momentOf? word
  | .array items => (itemValues? items).map .array
  | .table entries => tableMeaning? entries (entryValues? entries)
  | .dotted entries => tableMeaning? entries (entryValues? entries)

def itemValues? : List Written → Option (List Value)
  | [] => some []
  | item :: rest =>
    match item.value?, itemValues? rest with
    | some value, some values => some (value :: values)
    | _, _ => none

/-- The meanings of the entries of a table, whose names have to be different. -/
def entryValues? : List (String × Written) → Option Entries
  | [] => some []
  | (name, written) :: rest =>
    match written.value?, entryValues? rest with
    | some value, some entries =>
      if (entries.lookup name).isSome then none else some ((name, value) :: entries)
    | _, _ => none

end

end CarrierTransport.Toml
