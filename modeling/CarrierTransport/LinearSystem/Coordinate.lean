import CarrierTransport.LinearSystem.Solve
import CarrierTransport.Decimal.Reading
import CarrierTransport.Text.Blank
import CarrierTransport.Text.Lines
import CarrierTransport.Text.Natural

/-!
# Coordinate files

A matrix as lines of text. Blank lines and lines that start with `%` say nothing; of the others
the first holds the numbers of rows, columns and entries, every later one a row, a column (both
counted from one) and a value. A matrix read from a file has a block of one unknown for each row,
places on the diagonal, at the listed positions and at these with row and column exchanged, and of
the values listed for one position the last.

How a word denotes a number is a matter of the scalar type, so reading is told by a function
`number?`; for the binary types that is `Decimal.read?`.
-/

namespace CarrierTransport.LinearSystem

variable {α : Type} [Scalar α]

/-! ### Lines -/

/-- A listed coefficient, counted from zero. -/
structure Triplet (α : Type) where
  row : Nat
  column : Nat
  value : α
deriving Repr

/-- The words of a line that says something. -/
def dataWords? (line : String) : Option (List (List Char)) :=
  match Text.trim line.toList with
  | [] => none
  | '%' :: _ => none
  | text => some (Text.words text)

/-- The number of rows that the words of the size line give. -/
def readSize : List (List Char) → Except CoordinateFault Nat
  | [rows, columns, entries] =>
    match Text.index? rows, Text.index? columns, Text.index? entries with
    | some n, some m, some _ => if n = m then .ok n else .error .notSquare
    | _, _, _ => .error .sizeLine
  | _ => .error .fieldCount

/-- The coefficient that the words of a line give, in a matrix of `n` rows. -/
def readTriplet (number? : List Char → Option α) (n : Nat) :
    List (List Char) → Except CoordinateFault (Triplet α)
  | [row, column, value] =>
    match Text.index? row with
    | none => .error .rowIndex
    | some r => match Text.index? column with
      | none => .error .columnIndex
      | some c => match number? value with
        | none => .error .value
        | some v =>
          if 1 ≤ r ∧ r ≤ n ∧ 1 ≤ c ∧ c ≤ n then .ok ⟨r - 1, c - 1, v⟩ else .error .outside
  | _ => .error .fieldCount

/-! ### Reading -/

/-- What has been read: nothing that counts, or the number of rows and the coefficients, the last
one first. -/
abbrev CoordinateState (α : Type) := Option (Nat × List (Triplet α))

/-- What has been read with one more line, of the given number. -/
def readLine (number? : List Char → Option α) (state : CoordinateState α) (number : Nat)
    (line : String) : Except (MatrixError α) (CoordinateState α) :=
  match dataWords? line with
  | none => .ok state
  | some words => match state with
    | none => match readSize words with
      | .ok n => .ok (some (n, []))
      | .error fault => .error (.malformed number fault)
    | some (n, triplets) => match readTriplet number? n words with
      | .ok t => .ok (some (n, t :: triplets))
      | .error fault => .error (.malformed number fault)

/-- What lines say, the first of which has the given number. -/
def readLines (number? : List Char → Option α) (state : CoordinateState α) (number : Nat) :
    List (Except StorageError String) → Except (MatrixError α) (CoordinateState α)
  | [] => .ok state
  | .error e :: _ => .error (.storage e)
  | .ok line :: rest => do
    let state ← readLine number? state number line
    readLines number? state (number + 1) rest

namespace BlockMatrix

/-- The matrix of some coefficients, of two at one position the later one. -/
def ofTriplets (n : Nat) (triplets : List (Triplet α)) : Except (MatrixError α) (BlockMatrix α) :=
  let couplings := Couplings.ofPairs n (triplets.map fun t => (t.row, t.column))
  triplets.foldlM (fun m t => m.modifyEntry t.row t.column fun _ => t.value)
    (ofCouplings (.ofSizes (Array.replicate n 1)) couplings)

/-- The matrix of the lines of a coordinate file. -/
def ofCoordinateLines (number? : List Char → Option α)
    (lines : List (Except StorageError String)) : Except (MatrixError α) (BlockMatrix α) := do
  match ← readLines number? none 1 lines with
  | none => throw .missingHeader
  | some (n, triplets) => ofTriplets n triplets.reverse

/-- The matrix of a coordinate file. -/
def ofCoordinateFile {α : Type} [BinaryScalar α] (file : ByteArray) :
    Except (MatrixError α) (BlockMatrix α) :=
  ofCoordinateLines Decimal.read? (Text.lines file)

/-! ### Writing -/

/-- The lines of the coordinate file of a matrix, stored zeros included. -/
def coordinateLines {α : Type} [BinaryScalar α] (m : BlockMatrix α) : List String :=
  let coefficients := (m.rows.mapIdx fun row entries =>
    entries.toList.map fun e => s!"{row + 1} {e.column + 1} {fullText e.value}").toList.flatten
  ["% block matrix, one-based row column value",
    s!"{m.rowCount} {m.rowCount} {m.entryCount}"] ++ coefficients

end BlockMatrix

end CarrierTransport.LinearSystem
