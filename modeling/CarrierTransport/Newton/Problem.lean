import CarrierTransport.Newton.Contribution
import CarrierTransport.Newton.Iteration

/-!
# What both iterations share

The problem an iteration is run on, the contacts at its two ends, and the assembly of its
equations: the contributions of elements and nodes, then the contact equations, then a look at the
residuals.
-/

namespace CarrierTransport.Newton

open Mesh (Topology)
open Physics (MaterialModel)
open State (NodeField Quantity)
open LinearSystem (BlockMatrix MatrixError)

/-! ### Problems -/

structure Problem (M α : Type) where
  mesh : Topology α
  table : RegionTable M α
  settings : Settings α

namespace Problem

variable {M α : Type}

def nodeCount (p : Problem M α) : Nat :=
  p.mesh.nodes.size

/-- The last node, which holds the second contact. -/
def lastNode (p : Problem M α) : Nat :=
  p.nodeCount - 1

/-- The material that governs a node. -/
def governing? (p : Problem M α) (node : Nat) : Option M := do
  p.table.material? (← p.mesh.nodes[node]?).region

/-- Whether there are two contacts and a field of the right size. -/
def validate (p : Problem M α) (field : NodeField α) : Except (BuildError α) Unit :=
  if p.nodeCount < 2 then .error (.tooFewNodes p.nodeCount)
  else if field.nodeCount ≠ p.nodeCount then .error (.fieldSize p.nodeCount field.nodeCount)
  else .ok ()

/-- The zero system with a block of the given size at each node. -/
def matrix [Scalar α] (p : Problem M α) (sizes : Array Nat) :
    Except (BuildError α) (BlockMatrix α) :=
  match BlockMatrix.ofTopology p.mesh sizes with
  | .ok m => .ok { m with pivotTolerance := p.settings.pivotTolerance }
  | .error e => .error (.matrix e)

end Problem

/-! ### Contacts -/

section Contacts

variable {M α : Type} [Scalar α] [MaterialModel M α]

/-- The built-in potential of a node in a field. -/
def builtInPotential (p : Problem M α) (field : NodeField α) (node : Nat) :
    Except (NewtonError α) α :=
  match p.governing? node, field.nodes[node]? with
  | some material, some s => .ok
    (MaterialModel.builtInPotential material p.table.temperature s.donorDensity s.acceptorDensity)
  | _, _ => .error (.matrix .unknownIndex)

/-- Places a node at its built-in potential, changed by an offset. -/
def placeContact (p : Problem M α) (node : Nat) (offset : α → α) :
    EStateM (NewtonError α) (NodeField α) Unit :=
  replace fun field => do
    let potential ← builtInPotential p field node
    return (field.modify? .potential node fun _ => offset potential).getD field

/-- Places the contacts at their built-in potentials, the last one raised by a voltage. -/
def placeContacts (p : Problem M α) (voltage : α) : EStateM (NewtonError α) (NodeField α) Unit := do
  placeContact p 0 id
  placeContact p p.lastNode (voltage + ·)

end Contacts

/-! ### Assembly -/

namespace Assembly

variable {stride : Nat} {α : Type} [Scalar α]

/-- Assembles contributions from nothing and replaces the equations of the two contacts. -/
def rebuild (contributions : List (Contribution α)) (diagonal : α) (lastNode : Nat) :
    EStateM (MatrixError α) (Assembly stride α) Unit := do
  modify clear
  assemble contributions
  replace fun a => return { a with matrix := ← a.matrix.applyDirichlet 0 diagonal }
  replace fun a => return { a with matrix := ← a.matrix.applyDirichlet lastNode diagonal }

/-- A report with the residual of one more unknown: the right hand side itself, relative to the
largest coupling term and a fraction of the diagonal, and relative to the physical scale, the last
two where there is something to compare with. -/
def check (a : Assembly stride α) (relative : α → α → α) (node sub : Nat)
    (report : ResidualReport α) : Except (MatrixError α) (ResidualReport α) := do
  let rhs ← a.matrix.blockRhs node sub
  let diagonal ← a.matrix.blockEntry node node sub sub
  let reference := a.coupling node sub + Scalar.abs (diagonal * 1e-3)
  let scale := a.scale node sub
  return {
    rhs := report.rhs.offer node rhs
    coupled := if reference == 0 then report.coupled
      else report.coupled.offer node (rhs / reference)
    scaled := if scale == 0 then report.scaled
      else report.scaled.offer node (relative rhs scale) }

end Assembly

end CarrierTransport.Newton
