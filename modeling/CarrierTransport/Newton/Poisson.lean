import CarrierTransport.LinearSystem.Solve
import CarrierTransport.Newton.Problem

/-!
# The equilibrium iteration

Solves Poisson's equation for the potential with the quasi-Fermi levels held fixed; the carrier
densities follow the potential by the Boltzmann relations. There is one unknown at every node.
-/

namespace CarrierTransport.Newton

open Physics (MaterialModel elementaryCharge thermalVoltage)
open State (NodeField NodeState)
open LinearSystem (BlockMatrix MatrixError Envelope Workspace)

/-! ### The state -/

structure PoissonState (α : Type) where
  field : NodeField α
  assembly : Assembly 1 α
  /-- What the system is factored in. -/
  workspace : Workspace α
  incrementConverged : Bool
  residualConverged : Bool
  /-- The residuals of the interior nodes at the last setup. -/
  residuals : ResidualReport α
  /-- The largest relative increment of the last update. -/
  increment : Extremum α

namespace Poisson

variable {M α : Type}

def start [Scalar α] (p : Problem M α) (field : NodeField α) :
    Except (BuildError α) (PoissonState α) := do
  p.validate field
  let matrix ← p.matrix (Array.replicate p.nodeCount 1)
  return {
    field
    assembly := .ofMatrix matrix
    workspace := .ofEnvelope (Envelope.ofPattern matrix.pattern)
    incrementConverged := false
    residualConverged := false
    residuals := .none
    increment := .none }

/-! ### Equations -/

section Equations

variable [Scalar α] [MaterialModel M α] [BEq M]

/-- What an element contributes. -/
def elementContributions (p : Problem M α) (field : NodeField α) (element : Mesh.Element α) :
    List (Contribution α) :=
  match edge? p.mesh p.table field element with
  | some edge => edge.contributions
  | none => [.unknownIndex]

/-- What the space charge of a node contributes: its change with the potential on the diagonal. -/
def nodeContributions (p : Problem M α) (node : Nat) (s : NodeState α) :
    List (Contribution α) :=
  let perVolt := elementaryCharge / thermalVoltage p.table.temperature
  let volumes := semiconductorVolumes p.mesh p.table
    (((p.mesh.nodes[node]?).map Mesh.Node.elements).getD [])
  chargeContributions
    (fun v => [.coefficient node node 0 0 (perVolt * (s.electronDensity + s.holeDensity) * v)])
    node s volumes

def contributions (p : Problem M α) (field : NodeField α) : List (Contribution α) :=
  p.mesh.elements.toList.flatMap (elementContributions p field) ++
  (field.nodes.mapIdx fun node s => nodeContributions p node s).toList.flatten

/-- The residuals of the interior nodes. -/
def checkResidual (p : Problem M α) (a : Assembly 1 α) :
    Except (MatrixError α) (ResidualReport α) :=
  (List.range' 1 (p.lastNode - 1)).foldlM
    (fun report node => a.check (fun rhs scale => Scalar.abs rhs / scale) node 0 report) .none

def setup (p : Problem M α) : EStateM (NewtonError α) (PoissonState α) Unit := do
  modify fun s => { s with workspace := s.workspace.clear }
  let s ← get
  widenError .matrix (zoom PoissonState.assembly (fun a s => { s with assembly := a })
    (Assembly.rebuild (contributions p s.field) p.settings.dirichletDiagonal p.lastNode))
  replace fun s => match checkResidual p s.assembly with
    | .error e => .error (.matrix e)
    | .ok report => .ok { s with
      residuals := report
      residualConverged := report.coupled.magnitude < p.settings.residualTolerance }

end Equations

/-! ### Increments -/

section Increments

variable [Scalar α]

def solve : EStateM (NewtonError α) (PoissonState α) Unit :=
  widenError .matrix (zoom (fun s => (s.assembly.matrix, s.workspace))
    (fun (m, ws) s => { s with assembly := { s.assembly with matrix := m }, workspace := ws })
    BlockMatrix.solveIn)

/-- The state of a node after an increment of its potential. -/
def advance (p : Problem M α) (dx : α) (node : Nat) (s : NodeState α) : NodeState α :=
  let thermal := thermalVoltage p.table.temperature
  let scaled := p.settings.potentialUpdate = .scaleBoundary ∧ (node = 0 ∨ node = p.lastNode)
  let psi := if scaled then s.potential * dx else s.potential + dx
  { s with
    potential := psi
    electronDensity :=
      s.intrinsicDensity * Scalar.exp ((psi - s.electronQuasiFermiLevel) / thermal)
    holeDensity := s.intrinsicDensity * Scalar.exp ((s.holeQuasiFermiLevel - psi) / thermal) }

/-- The largest increment relative to the potential it leads to. -/
def incrementExtremum (field : NodeField α) (increments : Array α) : Extremum α :=
  (List.range field.nodeCount).foldl (fun e node =>
    let psi := ((field.nodes[node]?).map NodeState.potential).getD 0
    e.offer node (increments.getD node 0 / (Scalar.abs psi + 1e-3))) .none

def update (p : Problem M α) (s : PoissonState α) : PoissonState α :=
  let increments := s.assembly.matrix.solution
  let field : NodeField α :=
    ⟨s.field.nodes.mapIdx fun node state => advance p (increments.getD node 0) node state⟩
  let extremum := incrementExtremum field increments
  { s with
    field
    increment := extremum
    incrementConverged := extremum.magnitude < p.settings.incrementTolerance }

end Increments

/-! ### The iteration -/

def setVoltage [Scalar α] [MaterialModel M α] (p : Problem M α) (voltage : α) :
    EStateM (NewtonError α) (PoissonState α) Unit :=
  zoom PoissonState.field (fun f s => { s with field := f }) (placeContacts p voltage)

def step [Scalar α] [MaterialModel M α] [BEq M] {ω : Type} (p : Problem M α) :
    NewtonStep α (PoissonState α) ω where
  setup := onFirst (setup p)
  solve := onFirst solve
  update := onFirst (modify (update p))
  isConverged s := s.incrementConverged && s.residualConverged
  maximumIterations := p.settings.maximumIterations
  field := PoissonState.field

end Poisson

end CarrierTransport.Newton
