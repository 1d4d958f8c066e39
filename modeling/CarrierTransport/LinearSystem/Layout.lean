import CarrierTransport.LinearSystem.Error

/-!
# Blocks of unknowns

Every node owns a block of consecutive unknowns. The layout numbers all unknowns of the system,
node by node.
-/

namespace CarrierTransport.LinearSystem

/-! ### Offsets -/

/-- The number of unknowns before each block, and after the last one. -/
def offsetsOf (sizes : Array Nat) : Array Nat :=
  sizes.foldl (fun offsets size => offsets.push (offsets.back?.getD 0 + size)) #[0]

/-- The block sizes of the nodes, with the number of the first unknown of each. -/
structure Layout where
  sizes : Array Nat
  offsets : Array Nat := offsetsOf sizes
  offsets_eq : offsets = offsetsOf sizes := by rfl

namespace Layout

def ofSizes (sizes : Array Nat) : Layout where
  sizes

def nodeCount (layout : Layout) : Nat :=
  layout.sizes.size

/-- The number of the first unknown of a node. -/
def offset (layout : Layout) (node : Nat) : Nat :=
  layout.offsets.getD node 0

/-- The number of unknowns of the whole system. -/
def total (layout : Layout) : Nat :=
  layout.offset layout.nodeCount

def block (layout : Layout) (node : Nat) : List Nat :=
  List.range' (layout.offset node) (layout.sizes.getD node 0)

/-- The number of an unknown of a node in the whole system. -/
def index {α : Type} (layout : Layout) (node sub : Nat) : Except (MatrixError α) Nat :=
  match layout.sizes[node]? with
  | some size =>
    if sub < size then .ok (layout.offset node + sub) else .error (.subIndex node sub size)
  | none => .error (.subIndex node sub 0)

end Layout

end CarrierTransport.LinearSystem
