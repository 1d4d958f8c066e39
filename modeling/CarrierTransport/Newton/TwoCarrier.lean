import CarrierTransport.LinearSystem.Solve
import CarrierTransport.Newton.Damping
import CarrierTransport.Newton.Flux
import CarrierTransport.Newton.Problem

/-!
# The two-carrier iteration

Couples Poisson's equation to the continuity equations of electrons and holes. A node governed by
a semiconductor carries the potential and both densities, any other node the potential alone.
-/

namespace CarrierTransport.Newton

open Physics (MaterialModel MaterialKind elementaryCharge)
open State (NodeField NodeState Unknown PerUnknown)
open LinearSystem (BlockMatrix MatrixError Envelope SolveObserver Workspace)

/-! ### The state -/

/-- The number of unknowns of a node governed by a semiconductor. -/
def TwoCarrier.semiconductorBlock : Nat := 3

structure TwoCarrierState (α : Type) where
  field : NodeField α
  /-- The number of unknowns of each node. -/
  blockSizes : Array Nat
  assembly : Assembly TwoCarrier.semiconductorBlock α
  /-- What the system is factored in. -/
  workspace : Workspace α
  incrementConverged : Bool
  residualConverged : Bool
  /-- The residuals of the last setup. -/
  residuals : PerUnknown (ResidualReport α)
  /-- The relative increments of the last update. -/
  increments : PerUnknown (IncrementReport α)
  /-- The damping factor found by the last update. -/
  dampingFactor : α

namespace TwoCarrier

variable {M α : Type}

/-- The number of unknowns of each node. -/
def blockSizes [MaterialKind M] (p : Problem M α) : Except (BuildError α) (Array Nat) :=
  (List.toArray <$> (List.range p.nodeCount).mapM fun node =>
    match p.governing? node with
    | some material => .ok (if MaterialKind.isSemiconductor material then semiconductorBlock else 1)
    | none => .error .unknownIndex)

def start [Scalar α] [MaterialKind M] (p : Problem M α) (field : NodeField α) :
    Except (BuildError α) (TwoCarrierState α) := do
  p.validate field
  let sizes ← blockSizes p
  let matrix ← p.matrix sizes
  return {
    field
    blockSizes := sizes
    assembly := .ofMatrix matrix
    workspace := .ofEnvelope (Envelope.ofPattern matrix.pattern)
    incrementConverged := false
    residualConverged := false
    residuals := .constant .none
    increments := .constant .none
    dampingFactor := 1 }

/-- The unknowns of all nodes, node by node. -/
def unknowns (sizes : Array Nat) : List (Nat × Unknown) :=
  (sizes.mapIdx fun node size => (Unknown.ofBlock size).map fun u => (node, u)).toList.flatten

/-! ### Equations -/

section Equations

variable [Scalar α] [MaterialModel M α] [BEq M]

/-- What an element contributes: to Poisson's equation, and in a semiconductor to the balances of
both carriers. -/
def elementContributions (p : Problem M α) (field : NodeField α) (element : Mesh.Element α) :
    List (Contribution α) :=
  match edge? p.mesh p.table field element, p.table.material? element.region,
    field.nodes[element.left]?, field.nodes[element.right]? with
  | some edge, some material, some left, some right =>
    edge.contributions ++
      if MaterialKind.isSemiconductor material then
        fluxContributions material p.table.temperature element edge left right
      else []
  | _, _, _, _ => [.unknownIndex]

/-- What the space charge of a node contributes: its change with the densities. -/
def nodeContributions (p : Problem M α) (node : Nat) (s : NodeState α) :
    List (Contribution α) :=
  let q : α := elementaryCharge
  let volumes := semiconductorVolumes p.mesh p.table
    (((p.mesh.nodes[node]?).map Mesh.Node.elements).getD [])
  chargeContributions
    (fun v => [.coefficient node node 0 Unknown.electronDensity.sub (q * v),
      .coefficient node node 0 Unknown.holeDensity.sub (-(q * v))])
    node s volumes

def contributions (p : Problem M α) (field : NodeField α) : List (Contribution α) :=
  p.mesh.elements.toList.flatMap (elementContributions p field) ++
  (field.nodes.mapIdx fun node s => nodeContributions p node s).toList.flatten

def checkResidual (sizes : Array Nat) (a : Assembly semiconductorBlock α) :
    Except (MatrixError α) (PerUnknown (ResidualReport α)) :=
  (unknowns sizes).foldlM (fun reports (node, u) => do
    let report ← a.check (fun rhs scale => rhs / scale) node u.sub (reports.get u)
    return reports.modify u fun _ => report) (.constant .none)

def setup (p : Problem M α) : EStateM (NewtonError α) (TwoCarrierState α) Unit := do
  modify fun s => { s with workspace := s.workspace.clear }
  let s ← get
  widenError .matrix (zoom TwoCarrierState.assembly (fun a s => { s with assembly := a })
    (Assembly.rebuild (contributions p s.field) p.settings.dirichletDiagonal p.lastNode))
  replace fun s => match checkResidual s.blockSizes s.assembly with
    | .error e => .error (.matrix e)
    | .ok reports => .ok { s with
      residuals := reports
      residualConverged := reports.toList.all fun report =>
        report.coupled.magnitude < p.settings.residualTolerance }

end Equations

/-! ### Increments -/

section Increments

variable [Scalar α]

/-- The densities of the semiconductor nodes with their increments, electrons before holes. -/
def dampingTargets (s : TwoCarrierState α) : Except (MatrixError α) (List (α × α)) := do
  let carriers := (unknowns s.blockSizes).filter fun (_, u) => u ≠ .potential
  carriers.mapM fun (node, u) => do
    let increment ← s.assembly.matrix.blockSolution node u.sub
    let density := ((s.field.nodes[node]?).map fun state => state.get u.quantity).getD 0
    return (density, increment)

/-- The state of a node after a share of its increments, densities kept at the floor. -/
def advance (m : BlockMatrix α) (share floor : α) (size node : Nat) (s : NodeState α) :
    Except (MatrixError α) (NodeState α) := do
  let potential := s.potential + share * (← m.blockSolution node 0)
  if size = semiconductorBlock then
    let electrons := s.electronDensity + share * (← m.blockSolution node 1)
    let holes := s.holeDensity + share * (← m.blockSolution node 2)
    return { s with
      potential
      electronDensity := Scalar.larger electrons floor
      holeDensity := Scalar.larger holes floor }
  else return { s with potential }

def magnitude (field : NodeField α) (node : Nat) (u : Unknown) : α :=
  Scalar.abs (((field.nodes[node]?).map fun s => s.get u.quantity).getD 0)

def maxima (field : NodeField α) (unknowns : List (Nat × Unknown)) : PerUnknown α :=
  unknowns.foldl (fun m (node, u) => m.modify u (Scalar.larger · (magnitude field node u)))
    (.constant 0)

/-- A report with one more increment: relative to the value, to the largest value and to a blend of
the two, the last two where there is something to compare with. -/
def reportIncrement (report : IncrementReport α) (node : Nat) (increment value maximum : α) :
    IncrementReport α :=
  let blend := value + 1e-10 * maximum
  { relativeToValue := report.relativeToValue.offerInclusive node (increment / (value + 1e-3))
    relativeToMaximum := if maximum == 0 then report.relativeToMaximum
      else report.relativeToMaximum.offerInclusive node (increment / maximum)
    relativeToBlend := if blend == 0 then report.relativeToBlend
      else report.relativeToBlend.offerInclusive node (increment / blend) }

/-- The relative increments that led to a field. -/
def incrementReports (m : BlockMatrix α) (field : NodeField α) (unknowns : List (Nat × Unknown)) :
    Except (MatrixError α) (PerUnknown (IncrementReport α)) :=
  let largest := maxima field unknowns
  unknowns.foldlM (fun reports (node, u) => do
    let increment ← m.blockSolution node u.sub
    return reports.modify u fun report =>
      reportIncrement report node increment (magnitude field node u) (largest.get u))
    (.constant .none)

/-- The share of the increments that is applied: a factor if the settings ask for it. -/
def appliedShare (settings : Settings α) (factor : α) : α :=
  match settings.damping with
  | .report => 1.0
  | .apply => factor

/-- The field after the increments, damped by a factor if the settings ask for it. -/
def advanceField (settings : Settings α) (s : TwoCarrierState α) (factor : α) :
    Except (MatrixError α) (NodeField α) := do
  let share := appliedShare settings factor
  let states := (s.field.nodes.zip s.blockSizes).mapIdx fun node (state, size) =>
    advance s.assembly.matrix share settings.densityFloor size node state
  return ⟨(← states.toList.mapM id).toArray⟩

/-- The state that a whole update leads to. -/
def update (settings : Settings α) (s : TwoCarrierState α) :
    Except (NewtonError α) (TwoCarrierState α) := do
  let targets ← (dampingTargets s).mapError .matrix
  let factor ← (Damping.find settings.densityFloor targets).mapError .dampingExhausted
  let field ← (advanceField settings s factor).mapError .matrix
  let reports ← (incrementReports s.assembly.matrix field (unknowns s.blockSizes)).mapError .matrix
  return { s with
    field
    dampingFactor := factor
    increments := reports
    incrementConverged := reports.toList.all fun report =>
      (report.selected settings.incrementPolicy).magnitude < settings.incrementTolerance }

/-! The update itself writes to the field where it stands, node by node and unknown by unknown, so
whatever fails on the way leaves behind what was written before it. -/

/-- The factor by which the densities may follow their increments. -/
def findDamping (settings : Settings α) (s : TwoCarrierState α) : Except (NewtonError α) α := do
  let targets ← (dampingTargets s).mapError .matrix
  (Damping.find settings.densityFloor targets).mapError .dampingExhausted

/-- Adds a share of the increment of an unknown to its value and keeps the sum within a bound. -/
def moveUnknown (m : BlockMatrix α) (share : α) (bound : α → α) (node : Nat) (u : Unknown) :
    EStateM (MatrixError α) (NodeField α) Unit :=
  replace fun field => do
    let increment ← m.blockSolution node u.sub
    return ⟨field.nodes.modify node fun s =>
      s.set u.quantity (bound (s.get u.quantity + share * increment))⟩

/-- Moves the unknowns of a node, densities kept at the floor. -/
def moveNode (m : BlockMatrix α) (share floor : α) (size node : Nat) :
    EStateM (MatrixError α) (NodeField α) Unit := do
  moveUnknown m share id node .potential
  if size = semiconductorBlock then
    moveUnknown m share (Scalar.larger · floor) node .electronDensity
    moveUnknown m share (Scalar.larger · floor) node .holeDensity

/-- Moves the unknowns of so many nodes from a given one on. -/
def moveNodes (m : BlockMatrix α) (share floor : α) (sizes : Array Nat) :
    (count : Nat) → (node : Nat) → EStateM (MatrixError α) (NodeField α) Unit
  | 0, _ => pure ()
  | count + 1, node => do
    match sizes[node]? with
    | some size => moveNode m share floor size node
    | none => throw .unknownIndex
    moveNodes m share floor sizes count (node + 1)

/-- Finds a damping factor, moves the field and checks how far it has moved. -/
def updateInPlace (settings : Settings α) : EStateM (NewtonError α) (TwoCarrierState α) Unit := do
  replace fun s => return { s with dampingFactor := ← findDamping settings s }
  let s ← get
  widenError .matrix (zoom TwoCarrierState.field (fun f s => { s with field := f })
    (moveNodes s.assembly.matrix (appliedShare settings s.dampingFactor) settings.densityFloor
      s.blockSizes s.field.nodeCount 0))
  replace fun s => do
    let reports ←
      (incrementReports s.assembly.matrix s.field (unknowns s.blockSizes)).mapError .matrix
    return { s with
      increments := reports
      incrementConverged := reports.toList.all fun report =>
        (report.selected settings.incrementPolicy).magnitude < settings.incrementTolerance }

end Increments

/-! ### The iteration -/

def solve [Scalar α] {ω : Type} (observer : SolveObserver α ω) :
    EStateM (NewtonError α) (TwoCarrierState α × ω) Unit :=
  widenError .matrix (zoom (fun (s, w) => ((s.assembly.matrix, s.workspace), w))
    (fun ((m, ws), w) (s, _) =>
      ({ s with assembly := { s.assembly with matrix := m }, workspace := ws }, w))
    (BlockMatrix.solveObservedIn observer))

def setVoltage [Scalar α] [MaterialModel M α] (p : Problem M α) (voltage : α) :
    EStateM (NewtonError α) (TwoCarrierState α) Unit :=
  zoom TwoCarrierState.field (fun f s => { s with field := f }) (placeContacts p voltage)

def step [Scalar α] [MaterialModel M α] [BEq M] {ω : Type} (p : Problem M α)
    (observer : SolveObserver α ω) : NewtonStep α (TwoCarrierState α) ω where
  setup := onFirst (setup p)
  solve := solve observer
  update := onFirst (updateInPlace p.settings)
  isConverged s := s.incrementConverged && s.residualConverged
  maximumIterations := p.settings.maximumIterations
  field := TwoCarrierState.field

end TwoCarrier

end CarrierTransport.Newton
