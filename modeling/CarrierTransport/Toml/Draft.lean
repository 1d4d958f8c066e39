import CarrierTransport.Toml.Written

/-!
# Tables being written

A table of a document is put together from several blocks, each of which is a header and the entries
below it. A draft remembers how each entry came about, and with that what may still be added to it:

* an entry of a block is complete, and so is a table that stands for a point in time;
* a table made by headers grows by further headers, and is opened by its own header once;
* a list of tables grows by further headers of its name, and its last table like a table.
-/

namespace CarrierTransport.Toml

/-! ### Drafts -/

/-- What stands under a name while its table is being written. -/
inductive Draft where
  | complete (value : Value)
  | table (opened : Bool) (entries : List (String × Draft))
  | tables (items : List Draft)
deriving Inhabited

/-- The entries of a table being written. -/
abbrev DraftEntries := List (String × Draft)

/-- The entries of a block as entries being written. -/
def DraftEntries.ofEntries (entries : Entries) : DraftEntries :=
  entries.map fun (name, value) => (name, .complete value)

/-- What a block is at first, with nothing added to it from elsewhere. -/
def Draft.ofBlock? (own : WrittenEntries) : Option Draft := do
  match ← (Written.dotted own).value? with
  | .table entries => return .table true (DraftEntries.ofEntries entries)
  | value => return .complete value

/-! ### Adding to a table -/

namespace DraftEntries

/-- The entries with a new name, made by a header. The name that a table standing for a point in time
opens with cannot be the first, since no header spells a point in time. -/
def create (entries : DraftEntries) (name : String) (draft : Draft) : Option DraftEntries :=
  if entries.isEmpty ∧ name = momentName then none else some (Entries.put entries name draft)

/-- The entries with the block of a table. -/
def openTable (name : String) (own : WrittenEntries) (entries : DraftEntries) :
    Option DraftEntries :=
  match entries.lookup name with
  | none => do entries.create name (← Draft.ofBlock? own)
  | some (.table false inner) => do
    let own ← entryValues? own
    if own.any fun entry => (inner.lookup entry.1).isSome then none
    return Entries.put entries name (.table true (inner ++ ofEntries own))
  | some _ => none

/-- The entries with the block of one more table of a list. -/
def appendTable (name : String) (own : WrittenEntries) (entries : DraftEntries) :
    Option DraftEntries :=
  match entries.lookup name with
  | none => do entries.create name (.tables [← Draft.ofBlock? own])
  | some (.tables items) => do
    return Entries.put entries name (.tables (items ++ [← Draft.ofBlock? own]))
  | some _ => none

/-- The entries with the table at a path changed; tables along the path are made where there is
nothing, and of a list it is the last table. -/
def atPath (change : DraftEntries → Option DraftEntries) :
    List String → DraftEntries → Option DraftEntries
  | [], entries => change entries
  | name :: rest, entries =>
    match entries.lookup name with
    | none => do
      let inner ← atPath change rest []
      entries.create name (.table false inner)
    | some (.table opened inner) => do
      let inner ← atPath change rest inner
      return Entries.put entries name (.table opened inner)
    | some (.tables items) =>
      match items.getLast? with
      | some (.table opened inner) => do
        let inner ← atPath change rest inner
        return Entries.put entries name (.tables (items.dropLast ++ [.table opened inner]))
      | _ => none
    | some (.complete _) => none

end DraftEntries

/-! ### The finished table -/

mutual

/-- The value that a draft has become. -/
def Draft.toValue : Draft → Value
  | .complete value => value
  | .table _ entries => .table (toValues entries)
  | .tables items => .array (toItems items)

def toValues : List (String × Draft) → Entries
  | [] => []
  | (name, draft) :: rest => (name, draft.toValue) :: toValues rest

/-- The values of the tables of a list. -/
def toItems : List Draft → List Value
  | [] => []
  | draft :: rest => draft.toValue :: toItems rest

end

end CarrierTransport.Toml
