import CarrierTransport.Device.Regions
import CarrierTransport.Mesh.Ascending
import CarrierTransport.State.NodeField

/-!
# Local equilibrium

The state a simulation starts from. Every node carries the summed doping of the distinct regions
that border it and the built-in potential of the material that governs it; the carrier densities
follow from the potential by the Boltzmann relations, both quasi-Fermi levels being zero.
-/

namespace CarrierTransport.State

open Mesh (Topology Node)
open Physics (MaterialModel thermalVoltage)

variable {M α : Type} [Scalar α] [MaterialModel M α]

/-! ### Doping -/

/-- The distinct regions around a node, ascending. -/
def borderingRegions? (mesh : Topology α) (node : Node) : Option (List Nat) :=
  (mesh.bordering? node).map fun es => Mesh.ascending (es.map Mesh.Element.region)

/-- The summed doping of some regions, donors and acceptors. -/
def summedDoping (table : RegionTable M α) (regions : List Nat) :
    Except (BuildError α) (α × α) :=
  regions.foldlM (fun (nd, na) region =>
    match table.regions[region]? with
    | some info => .ok (nd + info.donorDensity, na + info.acceptorDensity)
    | none => .error (.missingMaterial region)) (0, 0)

/-! ### Nodes -/

/-- The equilibrium state of a node of the given material and doping. -/
def equilibriumState (m : M) (temperature donor acceptor : α) : NodeState α :=
  let potential := MaterialModel.builtInPotential m temperature donor acceptor
  let narrowing := MaterialModel.gapNarrowing m donor acceptor
  let intrinsic := MaterialModel.intrinsicDensity m temperature narrowing
  let factor := Scalar.exp (potential / thermalVoltage temperature)
  { intrinsicDensity := intrinsic
    potential
    donorDensity := donor
    acceptorDensity := acceptor
    electronDensity := intrinsic * factor
    holeDensity := intrinsic / factor
    electronQuasiFermiLevel := 0
    holeQuasiFermiLevel := 0 }

/-- The equilibrium state of a node of a mesh. -/
def nodeEquilibrium (mesh : Topology α) (table : RegionTable M α) (node : Node) :
    Except (BuildError α) (NodeState α) := do
  let some regions := borderingRegions? mesh node | throw .unknownIndex
  let (donor, acceptor) ← summedDoping table regions
  let some material := table.material? node.region | throw (.missingMaterial node.region)
  return equilibriumState material table.temperature donor acceptor

/-- The field of a mesh in local equilibrium. -/
def NodeField.equilibrium (mesh : Topology α) (table : RegionTable M α) :
    Except (BuildError α) (NodeField α) := do
  return ⟨(← mesh.nodes.toList.mapM (nodeEquilibrium mesh table)).toArray⟩

end CarrierTransport.State
