import CarrierTransport.Decimal.Scientific
import CarrierTransport.Storage.Error

/-!
# Failures of the linear system

Why a block matrix could not be built, addressed, solved, read or written.
-/

namespace CarrierTransport.LinearSystem

/-! ### Faults of a coordinate file -/

/-- What is wrong with a line of a coordinate file. -/
inductive CoordinateFault where
  | fieldCount
  | sizeLine
  | notSquare
  | rowIndex
  | columnIndex
  | value
  | outside
deriving DecidableEq, Repr

def CoordinateFault.reason : CoordinateFault → String
  | .fieldCount => "expected three fields"
  | .sizeLine => "the size line must hold three integers"
  | .notSquare => "the matrix must be square"
  | .rowIndex => "invalid row index"
  | .columnIndex => "invalid column index"
  | .value => "invalid value"
  | .outside => "index outside the matrix"

/-! ### Errors -/

inductive MatrixError (α : Type) where
  /-- There are `found` block sizes for `expected` nodes. -/
  | blockCount (expected found : Nat)
  | emptyBlock (node : Nat)
  | outOfPattern (row column : Nat)
  /-- The node has no unknown of this number; a node that does not exist has a block of zero. -/
  | subIndex (node sub block : Nat)
  | singularPivot (row : Nat) (magnitude : α)
  | malformed (line : Nat) (fault : CoordinateFault)
  | missingHeader
  | storage (error : StorageError)
  /-- A number names no node, element, row or region. -/
  | unknownIndex
deriving Repr

def MatrixError.message {α : Type} [BinaryScalar α] : MatrixError α → String
  | .blockCount expected found =>
    s!"Expected a block size for each of the {expected} nodes, found {found}"
  | .emptyBlock node => s!"Block sizes must be positive, node {node} has a block of zero"
  | .outOfPattern row column =>
    s!"Entry ({row}, {column}) is not part of the sparsity pattern"
  | .subIndex node sub block =>
    s!"Sub-index {sub} is outside the block of size {block} at node {node}"
  | .singularPivot row magnitude =>
    s!"Pivot {Decimal.toShortest magnitude} in row {row} is below the factorisation tolerance"
  | .malformed line fault => s!"Malformed coordinate file at line {line}: {fault.reason}"
  | .missingHeader => "The coordinate file contains no size line"
  | .storage error => error.message
  | .unknownIndex => "An index names nothing"

end CarrierTransport.LinearSystem
