import CarrierTransport.LinearSystem.Envelope
import CarrierTransport.LinearSystem.Matrix

/-!
# Factorisation in place

A system that is solved again and again is factored in arrays that are reserved once. The entries of
the matrix are put into the cells of the factors, and every row is eliminated where it stands. A row
keeps its finished entries a second time in two scratch rows, which are indexed by column; a marker
says of every column which row has written there, so that a row reads what it wrote itself and
nothing that another row left behind.

Clearing the arrays leaves the marker and the scratch rows alone.
-/

namespace CarrierTransport.LinearSystem

variable {α : Type} [Scalar α]

/-! ### Cells of the factors -/

namespace Factors

/-- The number in the place of the matrix entry at a row and column: of `L` left of the diagonal, of
`U` above it, and the pivot on it. -/
def cell (F : Factors α) (env : Envelope) (row column : Nat) : α :=
  if column < row then F.lowerAt env row column
  else if row < column then F.upperAt env row column
  else F.pivotAt row

/-- A table with the number in a slot of a row replaced. -/
def setSlot (env : Envelope) (table : Array (Array α)) (row column : Nat) (value : α) :
    Array (Array α) :=
  match env.slot? row column with
  | some slot => table.modify row fun slots => slots.setIfInBounds slot value
  | none => table

/-- The factors with the number in a cell replaced; outside of the envelope there is no cell. -/
def setCell (env : Envelope) (row column : Nat) (value : α) : Factors α → Factors α
  | ⟨pivots, lower, upper⟩ =>
    if column < row then ⟨pivots, setSlot env lower row column value, upper⟩
    else if row < column then ⟨pivots, lower, setSlot env upper column row value⟩
    else ⟨pivots.setIfInBounds row value, lower, upper⟩

end Factors

/-! ### Workspaces -/

/-- The arrays that a factorisation works in. -/
structure Workspace (α : Type) where
  /-- The entries of the matrix, row by row replaced by those of the factors. -/
  factors : Factors α
  /-- For each column the row that has written to the scratch rows there. -/
  marker : Array (Option Nat)
  /-- The row of `L` being eliminated, by column. -/
  rowLower : Array α
  /-- The column of `U` being eliminated, by row. -/
  columnUpper : Array α
deriving Repr

namespace Workspace

/-- The workspace of an envelope. -/
def ofEnvelope (env : Envelope) : Workspace α :=
  let slots := (Array.range env.size).map fun row => Array.replicate (row - env.start row) 0
  { factors := ⟨Array.replicate env.size 0, slots, slots⟩
    marker := Array.replicate env.size none
    rowLower := Array.replicate env.size 0
    columnUpper := Array.replicate env.size 0 }

/-- The workspace with zeros in all cells. -/
def clear (ws : Workspace α) : Workspace α :=
  let zeros (table : Array (Array α)) := table.map fun slots => slots.map fun _ => 0
  { ws with factors :=
      ⟨ws.factors.pivots.map fun _ => 0, zeros ws.factors.lower, zeros ws.factors.upper⟩ }

/-- The workspace as a factorisation starts with it: the cells are zero and no column is marked. -/
def reset (ws : Workspace α) : Workspace α :=
  { ws.clear with marker := ws.marker.map fun _ => none }

/-- The entries of a row of the matrix put into their cells. -/
def loadRow (env : Envelope) (rows : Array (Array (Entry α))) (ws : Workspace α) (row : Nat) :
    Workspace α :=
  let load (F : Factors α) (e : Entry α) := F.setCell env row e.column e.value
  { ws with factors := (rows.getD row #[]).foldl load ws.factors }

/-! ### Elimination -/

/-- The entries of a row at a column and of the column at the row, less what the columns contribute
that the row has marked. -/
def reduce (env : Envelope) (ws : Workspace α) (row column : Nat) : α × α :=
  (env.columns column).foldl
    (fun (l, u) k =>
      if ws.marker.getD k none = some row then
        (l - ws.factors.upperAt env k column * ws.rowLower.getD k 0,
         u - ws.factors.lowerAt env column k * ws.columnUpper.getD k 0)
      else (l, u))
    (ws.factors.cell env row column, ws.factors.cell env column row)

/-- The workspace with a column marked by a row. -/
def mark (row column : Nat) (ws : Workspace α) : Workspace α :=
  { ws with marker := ws.marker.setIfInBounds column (some row) }

/-- The workspace with the finished entries of a row at a column and of the column at the row, in
their cells and in the scratch rows. -/
def write (env : Envelope) (row column : Nat) (l u : α) (ws : Workspace α) : Workspace α :=
  { ws with
    factors := (ws.factors.setCell env row column l).setCell env column row u
    rowLower := ws.rowLower.setIfInBounds column l
    columnUpper := ws.columnUpper.setIfInBounds column u }

/-- A row being eliminated with one more column, and its pivot so far. -/
def eliminateColumn (env : Envelope) (row : Nat) (state : Workspace α × α) (column : Nat) :
    Workspace α × α :=
  let ws := state.1.mark row column
  let (l, u) := reduce env ws row column
  let u := u / ws.factors.pivotAt column
  (ws.write env row column l u, state.2 - l * u)

/-- A row eliminated where it stands. -/
def eliminateRow (env : Envelope) (ws : Workspace α) (row : Nat) : Workspace α :=
  let (ws, pivot) :=
    (env.columns row).foldl (eliminateColumn env row) (ws, ws.factors.pivotAt row)
  { ws with factors := ws.factors.setCell env row row pivot }

/-- The next row of a factorisation; a small pivot ends it and leaves the row eliminated. -/
def factorRow (env : Envelope) (tolerance : α) (row : Nat) :
    EStateM (SmallPivot α) (Workspace α) Unit := fun ws =>
  let done := eliminateRow env ws row
  let magnitude := Scalar.abs (done.factors.pivotAt row)
  if magnitude < tolerance then .error ⟨row, magnitude⟩ done else .ok () done

/-- So many rows from a given one on. -/
def factorRows (env : Envelope) (tolerance : α) :
    (count : Nat) → (row : Nat) → EStateM (SmallPivot α) (Workspace α) Unit
  | 0, _ => pure ()
  | count + 1, row => do
    factorRow env tolerance row
    factorRows env tolerance count (row + 1)

/-- Factors the matrix of some rows of entries, whatever the workspace held before. -/
def factorise (env : Envelope) (rows : Array (Array (Entry α))) (tolerance : α) :
    EStateM (SmallPivot α) (Workspace α) Unit := do
  modify fun ws => (List.range env.size).foldl (loadRow env rows) ws.reset
  factorRows env tolerance env.size 0

/-! ### Substitution -/

/-- The solution of `L y = b` with one more row, in the place of what was there. -/
def forwardRow (env : Envelope) (F : Factors α) (b : Array α) (y : Array α) (row : Nat) : Array α :=
  let value := (env.columns row).foldl (fun acc k => acc - F.lowerAt env row k * y.getD k 0)
    (b.getD row 0)
  y.setIfInBounds row (value / divisor (F.pivotAt row))

/-- The solution of `L U x = b` in the place of an earlier one. -/
def substitute (env : Envelope) (F : Factors α) (b x : Array α) : Array α :=
  let y := (List.range env.size).foldl (forwardRow env F b) x
  (List.range env.size).reverse.foldl (backwardRow env F) y

end Workspace

end CarrierTransport.LinearSystem
