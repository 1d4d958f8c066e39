import CarrierTransport.Toml.Draft
import CarrierTransport.Toml.Expression

/-!
# Documents

A document is a list of lines: headers, which name the table that the following lines belong to, and
keys with their values. A header and the lines below it are a block. Reading a document either gives
its table or fails as a whole.
-/

namespace CarrierTransport.Toml

/-! ### Lines -/

/-- A line that says something. -/
inductive Line where
  /-- The header of a table, or of one more table of a list. -/
  | header (path : List String) (appends : Bool)
  | entry (key : List String) (value : Written)

/-- The header behind its opening brackets. -/
def header? (appends : Bool) (text : List Char) : Option (Line × Rest text) := do
  let (path, rest) ← key? (dropBlank text)
  let rest ← (rest.within dropBlank length_dropBlank_le).expect? ']'
  if appends then
    let rest ← rest.expect? ']'
    return (.header path true, rest)
  else return (.header path false, rest)

/-- The line at the front, as far as it says something. -/
def line? (text : List Char) : Option (Line × Rest text) :=
  match text with
  | '[' :: '[' :: rest =>
    (header? true rest).map fun (line, last) => (line, (last.behind '[').behind '[')
  | '[' :: rest => (header? false rest).map fun (line, last) => (line, last.behind '[')
  | text => do
    let (key, rest) ← keyEquals? text
    let (value, last) ← value? rest.1
    return (.entry key value, rest.next last)

def lines? (text : List Char) : Option (List Line) :=
  if (dropLayout false text).isEmpty then some []
  else
    match line? (dropLayout false text) with
    | none => none
    | some (line, rest) =>
      match (rest.within (dropLayout false) (length_dropLayout_le false)).endOfLine? with
      | none => none
      | some next => (lines? next.1).map (line :: ·)
termination_by text.length
decreasing_by exact next.2

/-! ### Blocks -/

/-- A header and the entries below it. -/
structure Block where
  path : List String
  /-- Whether the header is that of one more table of a list. -/
  appends : Bool
  entries : WrittenEntries

/-- The blocks of a document, the last one first. The block on top of a document has no header. -/
abbrev Blocks := Block × List Block

/-- The blocks with one more line read. -/
def Blocks.addLine (blocks : Blocks) : Line → Option Blocks
  | .entry key value => do
    let entries ← WrittenEntries.add value key blocks.1.entries
    return ({ blocks.1 with entries }, blocks.2)
  | .header path appends => some (⟨path, appends, []⟩, blocks.1 :: blocks.2)

/-- The block on top of a document and those below it, in order. -/
def blocks? (lines : List Line) : Option (WrittenEntries × List Block) := do
  let (last, before) ← lines.foldlM Blocks.addLine (⟨[], false, []⟩, [])
  match (last :: before).reverse with
  | top :: rest => return (top.entries, rest)
  | [] => none

/-! ### Tables -/

/-- The entries with a block laid to the table that it belongs to. -/
def DraftEntries.addBlock (entries : DraftEntries) (block : Block) : Option DraftEntries := do
  let name ← block.path.getLast?
  let change := if block.appends then appendTable name block.entries else openTable name block.entries
  DraftEntries.atPath change block.path.dropLast entries

/-- The entries of a document, a byte order mark in front of it left out. A document that opens like a
table standing for a point in time has none. -/
def read? (document : String) : Option Entries := do
  let text := match document.toList with
    | '\uFEFF' :: text => text
    | text => text
  let (top, rest) ← blocks? (← lines? (foldLineEnds text))
  match ← (Written.dotted top).value? with
  | .table entries => return toValues (← rest.foldlM DraftEntries.addBlock (DraftEntries.ofEntries entries))
  | _ => return []

end CarrierTransport.Toml
