import CarrierTransport.Device.Regions
import CarrierTransport.State.NodeField
import CarrierTransport.LinearSystem.Matrix

/-!
# Assembling equations

The equations of a Newton step are assembled from contributions: an element or a node contributes
amounts to coefficients and right hand sides, and magnitudes that the residuals are later compared
with. Contributions are carried out in order; the first that is addressed to nothing ends the
assembly and leaves what was assembled before it.

Here are also the contributions that every Newton step makes, those of Poisson's equation.
-/

namespace CarrierTransport.Newton

open Mesh (Topology Element)
open Physics (MaterialModel MaterialKind elementaryCharge)
open State (NodeField NodeState)
open LinearSystem (BlockMatrix MatrixError)

/-! ### Contributions -/

/-- A step of an assembly. -/
inductive Contribution (α : Type) where
  /-- Adds to the coefficient at a block address. -/
  | coefficient (rowNode columnNode rowSub columnSub : Nat) (amount : α)
  /-- Adds to the right hand side of an unknown. -/
  | source (node sub : Nat) (amount : α)
  /-- Raises the physical scale of the residual of an unknown to at least a magnitude. -/
  | scale (node sub : Nat) (magnitude : α)
  /-- Raises the largest coupling term of an unknown to at least a magnitude. -/
  | coupling (node sub : Nat) (magnitude : α)
  /-- Refers to an element, node or region that does not exist. -/
  | unknownIndex
deriving Repr

/-- A system being assembled, with the magnitudes of the unknowns of each node, of which a node has
at most `stride`. -/
structure Assembly (stride : Nat) (α : Type) where
  matrix : BlockMatrix α
  /-- The physical scales of the residuals, `stride` of them for each node. -/
  scales : Array α
  /-- The largest coupling terms, likewise. -/
  couplings : Array α

namespace Assembly

variable {stride : Nat} {α : Type} [Scalar α]

/-- The slot of an unknown in the arrays of magnitudes. -/
def slot (stride node sub : Nat) : Nat :=
  stride * node + sub

def ofMatrix (matrix : BlockMatrix α) : Assembly stride α :=
  let slots := Array.replicate (stride * matrix.layout.nodeCount) 0
  { matrix, scales := slots, couplings := slots }

def clear (a : Assembly stride α) : Assembly stride α where
  matrix := a.matrix.clear
  scales := a.scales.map fun _ => 0
  couplings := a.couplings.map fun _ => 0

/-- The physical scale of the residual of an unknown. -/
def scale (a : Assembly stride α) (node sub : Nat) : α :=
  a.scales.getD (slot stride node sub) 0

/-- The largest coupling term of an unknown. -/
def coupling (a : Assembly stride α) (node sub : Nat) : α :=
  a.couplings.getD (slot stride node sub) 0

def contribute (a : Assembly stride α) :
    Contribution α → Except (MatrixError α) (Assembly stride α)
  | .coefficient rowNode columnNode rowSub columnSub amount => do
    let { matrix, scales, couplings } := a
    let matrix ← matrix.modifyBlockEntry rowNode columnNode rowSub columnSub (· + amount)
    return { matrix, scales, couplings }
  | .source node sub amount => do
    let { matrix, scales, couplings } := a
    let matrix ← matrix.modifyBlockRhs node sub (· + amount)
    return { matrix, scales, couplings }
  | .scale node sub magnitude =>
    .ok { a with scales := a.scales.modify (slot stride node sub) (Scalar.larger · magnitude) }
  | .coupling node sub magnitude =>
    .ok { a with
      couplings := a.couplings.modify (slot stride node sub) (Scalar.larger · magnitude) }
  | .unknownIndex => .error .unknownIndex

def assemble : List (Contribution α) → EStateM (MatrixError α) (Assembly stride α) Unit
  | [] => pure ()
  | c :: rest => do
    replace (contribute · c)
    assemble rest

end Assembly

/-! ### The potential along an element -/

/-- The electrostatic coupling along an element. -/
structure Edge (α : Type) where
  left : Nat
  right : Nat
  /-- Permittivity times area over length. -/
  conductance : α
  /-- The potential of the left node, referred to the work function of the element's material. -/
  leftPotential : α
  /-- The potential of the right node, referred to the work function of the element's material. -/
  rightPotential : α
deriving Repr

section Poisson

variable {M α : Type} [Scalar α] [MaterialModel M α] [BEq M]

/-- The potential of a node as an element of a given material sees it. -/
def referredPotential? (mesh : Topology α) (table : RegionTable M α) (field : NodeField α)
    (material : M) (node : Nat) : Option α := do
  let governing ← table.material? (← mesh.nodes[node]?).region
  let potential := (← field.nodes[node]?).potential
  return if governing == material then potential
    else potential + MaterialModel.workFunction material table.temperature
      - MaterialModel.workFunction governing table.temperature

/-- The electrostatic coupling along an element, if its nodes and regions exist. -/
def edge? (mesh : Topology α) (table : RegionTable M α) (field : NodeField α)
    (element : Element α) : Option (Edge α) := do
  let material ← table.material? element.region
  let leftPotential ← referredPotential? mesh table field material element.left
  let rightPotential ← referredPotential? mesh table field material element.right
  return {
    left := element.left
    right := element.right
    conductance := MaterialModel.permittivity material * element.area / element.length
    leftPotential
    rightPotential }

namespace Edge

variable {α : Type} [Scalar α]

/-- The rise of the potential from left to right. -/
def rise (edge : Edge α) : α :=
  edge.rightPotential - edge.leftPotential

/-- What an element contributes to Poisson's equation at its nodes: the Laplacian and its flux,
and the magnitude of the potential terms. -/
def contributions (edge : Edge α) : List (Contribution α) :=
  let i := edge.left
  let j := edge.right
  let c := edge.conductance
  let flux := c * edge.rise
  let leftTerm := Scalar.abs (c * edge.leftPotential)
  let rightTerm := Scalar.abs (c * edge.rightPotential)
  let largest := Scalar.larger leftTerm rightTerm
  [.coefficient i i 0 0 c, .coefficient i j 0 0 (-c), .coefficient j j 0 0 c,
    .coefficient j i 0 0 (-c), .source i 0 flux, .source j 0 (-flux),
    .scale i 0 largest, .scale j 0 largest, .coupling i 0 rightTerm, .coupling j 0 leftTerm]

end Edge

/-! ### Space charge -/

/-- The control volumes of a node in its semiconductor elements; none for an element or region
that does not exist, where the list ends. -/
def semiconductorVolumes (mesh : Topology α) (table : RegionTable M α) :
    List Nat → List (Option α)
  | [] => []
  | e :: rest =>
    match mesh.elements[e]? with
    | none => [none]
    | some element => match table.material? element.region with
      | none => [none]
      | some material =>
        if MaterialKind.isSemiconductor material then
          some element.share :: semiconductorVolumes mesh table rest
        else semiconductorVolumes mesh table rest

/-- The charge density of a node per elementary charge. -/
def netCharge (s : NodeState α) : α :=
  s.donorDensity - s.acceptorDensity + s.holeDensity - s.electronDensity

/-- What the space charge of a node contributes to its Poisson equation. The charge in each control
volume enters the right hand side; `derivative` gives the coefficients that belong to it. -/
def chargeContributions (derivative : α → List (Contribution α)) (node : Nat) (s : NodeState α)
    (volumes : List (Option α)) : List (Contribution α) :=
  let q : α := elementaryCharge
  let ofVolume : Option α → List (Contribution α)
    | some v => derivative v ++ [.source node 0 (q * netCharge s * v)]
    | none => [.unknownIndex]
  let total := volumes.foldl (fun acc v => acc + v.getD 0) 0
  let largest := Scalar.largestMagnitude
    [s.donorDensity, s.acceptorDensity, s.holeDensity, s.electronDensity]
  volumes.flatMap ofVolume ++ [.scale node 0 (largest * q * total)]

end Poisson

end CarrierTransport.Newton
