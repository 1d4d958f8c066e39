import CarrierTransport.LinearSystem.Coupling

/-!
# Block structured linear systems

A sparse system `A x = b` whose unknowns are grouped into the blocks of the nodes. The places of
the coefficients are fixed when the matrix is built: an unknown meets every unknown of its own
node and of the nodes coupled to it. Each place has two addresses, by row and column of the whole
system or by node and number within the block; the second leads through the first.
-/

namespace CarrierTransport.LinearSystem

open Mesh (Topology)

/-! ### The data -/

/-- A stored coefficient of a row. -/
structure Entry (α : Type) where
  column : Nat
  value : α
deriving Repr

/-- A sparse system over a block layout, with the vector of the last solve. -/
structure BlockMatrix (α : Type) where
  layout : Layout
  /-- The coefficients of each row, by ascending column. -/
  rows : Array (Array (Entry α))
  rhs : Array α
  solution : Array α
  /-- A pivot of smaller magnitude ends a factorisation. -/
  pivotTolerance : α

namespace BlockMatrix

variable {α : Type} [Scalar α]

/-! ### Building -/

/-- The pivot tolerance of a new matrix. -/
def defaultPivotTolerance : α := 1e-50

/-- The zero system with the places that the couplings give. -/
def ofCouplings (layout : Layout) (couplings : Couplings) : BlockMatrix α where
  layout
  rows := (List.range layout.nodeCount).toArray.flatMap fun node =>
    let row := ((couplings.columns layout node).map fun column => ⟨column, 0⟩).toArray
    Array.replicate (layout.sizes.getD node 0) row
  rhs := Array.replicate layout.total 0
  solution := Array.replicate layout.total 0
  pivotTolerance := defaultPivotTolerance

/-- The zero system of a mesh, each node with a block of the given size. -/
def ofTopology (mesh : Topology α) (sizes : Array Nat) : Except (MatrixError α) (BlockMatrix α) :=
  if sizes.size ≠ mesh.nodes.size then .error (.blockCount mesh.nodes.size sizes.size)
  else match sizes.findIdx? (· == 0) with
    | some node => .error (.emptyBlock node)
    | none => match Couplings.ofTopology? mesh with
      | some couplings => .ok (ofCouplings (.ofSizes sizes) couplings)
      | none => .error .unknownIndex

/-! ### Shape -/

/-- The number of unknowns. -/
def rowCount (m : BlockMatrix α) : Nat :=
  m.rows.size

/-- The number of stored coefficients. -/
def entryCount (m : BlockMatrix α) : Nat :=
  m.rows.foldl (fun n row => n + row.size) 0

/-- The columns stored in each row. -/
def pattern (m : BlockMatrix α) : Array (Array Nat) :=
  m.rows.map fun row => row.map Entry.column

/-- The number of coefficients stored before each row, and after the last one. -/
def rowOffsets (m : BlockMatrix α) : Array Nat :=
  offsetsOf (m.rows.map Array.size)

/-! ### Addresses -/

/-- The position within its row of the coefficient at a row and column. -/
def position (m : BlockMatrix α) (row column : Nat) : Except (MatrixError α) Nat :=
  match m.rows[row]?.bind fun entries => entries.findIdx? fun e => e.column == column with
  | some k => .ok k
  | none => .error (.outOfPattern row column)

/-- The row and column of a block address, the row checked first. -/
def address (m : BlockMatrix α) (rowNode columnNode rowSub columnSub : Nat) :
    Except (MatrixError α) (Nat × Nat) := do
  let row ← m.layout.index rowNode rowSub
  let column ← m.layout.index columnNode columnSub
  return (row, column)

/-! ### Reading -/

/-- The coefficient at a row and column that may store none, zero there. -/
def coefficient (m : BlockMatrix α) (row column : Nat) : α :=
  match (m.rows.getD row #[]).find? fun e => e.column == column with
  | some e => e.value
  | none => 0

def entry (m : BlockMatrix α) (row column : Nat) : Except (MatrixError α) α := do
  let _ ← m.position row column
  return m.coefficient row column

def blockEntry (m : BlockMatrix α) (rowNode columnNode rowSub columnSub : Nat) :
    Except (MatrixError α) α := do
  let (row, column) ← m.address rowNode columnNode rowSub columnSub
  m.entry row column

def blockRhs (m : BlockMatrix α) (node sub : Nat) : Except (MatrixError α) α := do
  return m.rhs.getD (← m.layout.index node sub) 0

def blockSolution (m : BlockMatrix α) (node sub : Nat) : Except (MatrixError α) α := do
  return m.solution.getD (← m.layout.index node sub) 0

/-! ### Writing -/

/-- The coefficient at a row and column replaced by a function of itself. -/
def modifyEntry (m : BlockMatrix α) (row column : Nat) (f : α → α) :
    Except (MatrixError α) (BlockMatrix α) := do
  let k ← m.position row column
  return { m with
    rows := m.rows.modify row fun entries =>
      entries.modify k fun e => { e with value := f e.value } }

def modifyBlockEntry (m : BlockMatrix α) (rowNode columnNode rowSub columnSub : Nat) (f : α → α) :
    Except (MatrixError α) (BlockMatrix α) := do
  let (row, column) ← m.address rowNode columnNode rowSub columnSub
  m.modifyEntry row column f

def modifyBlockRhs (m : BlockMatrix α) (node sub : Nat) (f : α → α) :
    Except (MatrixError α) (BlockMatrix α) := do
  let row ← m.layout.index node sub
  return { m with rhs := m.rhs.modify row f }

/-- Every stored coefficient replaced by a function of its row, column and value. -/
def mapEntries (m : BlockMatrix α) (f : Nat → Nat → α → α) : BlockMatrix α :=
  { m with rows := m.rows.mapIdx fun row entries =>
      entries.map fun e => { e with value := f row e.column e.value } }

/-- The zero system with the same places. -/
def clear (m : BlockMatrix α) : BlockMatrix α :=
  { m.mapEntries fun _ _ _ => 0 with
    rhs := m.rhs.map fun _ => 0
    solution := m.solution.map fun _ => 0 }

/-- The equations of a node replaced by `diagonal * x = 0`. -/
def applyDirichlet (m : BlockMatrix α) (node : Nat) (diagonal : α) :
    Except (MatrixError α) (BlockMatrix α) :=
  if node < m.layout.nodeCount then
    .ok ((m.layout.block node).foldl (fun m row =>
      { m with
        rows := m.rows.modify row fun entries => entries.map fun e =>
          { e with value := if e.column = row then diagonal else 0 }
        rhs := m.rhs.modify row fun _ => 0 }) m)
  else .error .unknownIndex

/-! ### Norms -/

/-- The sum of the squares of some numbers, added up in eight interleaved sums as long as eight
numbers are left. -/
def squaredNorm (values : Array α) : α :=
  let whole := values.size / 8
  let part (k : Nat) : α :=
    (List.range whole).foldl (fun acc i => let v := values.getD (8 * i + k) 0; acc + v * v) 0
  let sum := [0, 1, 2, 3].foldl (fun acc k => acc + (part k + part (k + 4))) 0
  (List.range' (8 * whole) (values.size - 8 * whole)).foldl
    (fun acc i => let v := values.getD i 0; acc + v * v) sum

def rhsNorm (m : BlockMatrix α) : α :=
  Scalar.sqrt (squaredNorm m.rhs)

def solutionNorm (m : BlockMatrix α) : α :=
  Scalar.sqrt (squaredNorm m.solution)

/-- The residual `b - A x` of each row. -/
def residuals (m : BlockMatrix α) : Array α :=
  m.rows.mapIdx fun row entries =>
    entries.foldl (fun acc e => acc - e.value * m.solution.getD e.column 0) (m.rhs.getD row 0)

def residualNorm (m : BlockMatrix α) : α :=
  Scalar.sqrt (m.residuals.foldl (fun acc r => acc + r * r) 0)

end BlockMatrix

end CarrierTransport.LinearSystem
