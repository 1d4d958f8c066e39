import CarrierTransport.Scalar.Basic

/-!
# Envelope factorisation

The envelope of a row runs from its first stored column up to the diagonal. In a symmetric pattern
the same envelope, read as a column, holds the strictly upper part, so one table of first columns
serves both triangular factors, and elimination without pivoting never leaves it.

The matrix is factored as `L U` row by row: row `i` of `L` left of the diagonal, column `i` of `U`
above the diagonal and the pivot, which is the diagonal of `L`; the diagonal of `U` is one.
-/

namespace CarrierTransport.LinearSystem

variable {α : Type} [Scalar α]

/-! ### Envelopes -/

/-- The first column of each row's envelope; the envelope of a row is empty if that is the row. -/
structure Envelope where
  first : Array Nat
deriving Repr

namespace Envelope

/-- The envelope of the given columns of each row, ascending. -/
def ofPattern (pattern : Array (Array Nat)) : Envelope where
  first := pattern.mapIdx fun row columns =>
    match columns[0]? with
    | some column => min column row
    | none => row

def size (env : Envelope) : Nat :=
  env.first.size

def start (env : Envelope) (row : Nat) : Nat :=
  env.first.getD row row

/-- The columns of a row's envelope, ascending. -/
def columns (env : Envelope) (row : Nat) : List Nat :=
  List.range' (env.start row) (row - env.start row)

/-- The slot of a column in the envelope of a row. -/
def slot? (env : Envelope) (row column : Nat) : Option Nat :=
  if env.start row ≤ column ∧ column < row then some (column - env.start row) else none

end Envelope

/-! ### Factors -/

/-- The factors of the rows eliminated so far, each in the slots of its envelope. -/
structure Factors (α : Type) where
  /-- The diagonal of `L`. -/
  pivots : Array α
  /-- The rows of `L` left of the diagonal. -/
  lower : Array (Array α)
  /-- The columns of `U` above the diagonal. -/
  upper : Array (Array α)
deriving Repr

namespace Factors

def empty : Factors α :=
  ⟨#[], #[], #[]⟩

/-- The number in a slot of a row of one of the factors. -/
def slotValue (env : Envelope) (table : Array (Array α)) (row column : Nat) : α :=
  match env.slot? row column with
  | some slot => (table.getD row #[]).getD slot 0
  | none => 0

/-- `L i j` for `j < i`. -/
def lowerAt (F : Factors α) (env : Envelope) (i j : Nat) : α :=
  slotValue env F.lower i j

/-- `U j i` for `j < i`. -/
def upperAt (F : Factors α) (env : Envelope) (j i : Nat) : α :=
  slotValue env F.upper i j

def pivotAt (F : Factors α) (row : Nat) : α :=
  F.pivots.getD row 0

end Factors

/-! ### Elimination -/

/-- The row being eliminated: what is known of its row of `L`, its column of `U` and its pivot. -/
structure PartialRow (α : Type) where
  lower : Array α
  upper : Array α
  pivot : α
deriving Repr

/-- The entries of `A` at (`row`, `column`) and (`column`, `row`), less what the columns before
`column` contribute to them. -/
def reduceEntries (env : Envelope) (A : Nat → Nat → α) (F : Factors α) (row column : Nat)
    (known : PartialRow α) : α × α :=
  let first := env.start row
  let start := max first (env.start column)
  (List.range' start (column - start)).foldl
    (fun (l, u) k =>
      (l - F.upperAt env k column * known.lower.getD (k - first) 0,
       u - F.lowerAt env column k * known.upper.getD (k - first) 0))
    (A row column, A column row)

/-- The row being eliminated with one more column. -/
def eliminateColumn (env : Envelope) (A : Nat → Nat → α) (F : Factors α) (row : Nat)
    (known : PartialRow α) (column : Nat) : PartialRow α :=
  let (l, u) := reduceEntries env A F row column known
  let u := u / F.pivotAt column
  { lower := known.lower.push l, upper := known.upper.push u, pivot := known.pivot - l * u }

/-- A row eliminated against all rows before it. -/
def eliminateRow (env : Envelope) (A : Nat → Nat → α) (F : Factors α) (row : Nat) : PartialRow α :=
  (env.columns row).foldl (eliminateColumn env A F row) ⟨#[], #[], A row row⟩

/-- A row whose pivot is too small, and the magnitude of the pivot. -/
structure SmallPivot (α : Type) where
  row : Nat
  magnitude : α
deriving Repr

/-- The factors with the next row, unless its pivot is below the tolerance. -/
def factorRow (env : Envelope) (A : Nat → Nat → α) (tolerance : α) (F : Factors α) (row : Nat) :
    Except (SmallPivot α) (Factors α) :=
  let done := eliminateRow env A F row
  if Scalar.abs done.pivot < tolerance then .error ⟨row, Scalar.abs done.pivot⟩
  else .ok ⟨F.pivots.push done.pivot, F.lower.push done.lower, F.upper.push done.upper⟩

/-- The factors of a matrix, unless a pivot is below the tolerance. -/
def factorise (env : Envelope) (A : Nat → Nat → α) (tolerance : α) :
    Except (SmallPivot α) (Factors α) :=
  (List.range env.size).foldlM (factorRow env A tolerance) Factors.empty

/-! ### Substitution -/

/-- What a pivot divides by: a pivot smaller than the least number of full precision is replaced
by that. -/
def divisor (pivot : α) : α :=
  if Scalar.abs pivot < Scalar.minPositive then Scalar.minPositive else pivot

/-- The solution of `L y = b` with one more row. -/
def forwardRow (env : Envelope) (F : Factors α) (b : Array α) (y : Array α) (row : Nat) : Array α :=
  let value := (env.columns row).foldl (fun acc k => acc - F.lowerAt env row k * y.getD k 0)
    (b.getD row 0)
  y.push (value / divisor (F.pivotAt row))

/-- The solution of `U x = y`, where the unknown of `row` is known, with its terms taken from the
rows above. -/
def backwardRow (env : Envelope) (F : Factors α) (x : Array α) (row : Nat) : Array α :=
  let value := x.getD row 0
  (env.columns row).foldl (fun x k => x.modify k fun v => v - F.upperAt env k row * value) x

/-- The solution of `L U x = b`. -/
def substitute (env : Envelope) (F : Factors α) (b : Array α) : Array α :=
  let y := (List.range env.size).foldl (forwardRow env F b) #[]
  (List.range env.size).reverse.foldl (backwardRow env F) y

end CarrierTransport.LinearSystem
