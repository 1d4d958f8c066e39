import CarrierTransport.Mesh.Line
import CarrierTransport.LinearSystem.Error

/-!
# Failures of building a simulation

Why a device, its mesh, its regions or the state on them could not be built.
-/

namespace CarrierTransport

inductive BuildError (α : Type) where
  | mesh (error : Mesh.MeshError)
  | matrix (error : LinearSystem.MatrixError α)
  | emptyDevice
  /-- The mesh refers to a region that no material is known of. -/
  | missingMaterial (region : Nat)
  | tooFewNodes (found : Nat)
  | fieldSize (expected found : Nat)
  /-- A number names no node, element or region. -/
  | unknownIndex
deriving Repr

def noLayersMessage : String := "The device has no layers"

def BuildError.message {α : Type} [BinaryScalar α] : BuildError α → String
  | .mesh error => error.message
  | .matrix error => error.message
  | .emptyDevice => noLayersMessage
  | .missingMaterial region => s!"Region {region} is referenced by the mesh but has no material"
  | .tooFewNodes found =>
    s!"The mesh needs at least two nodes to hold the contacts, found {found}"
  | .fieldSize expected found =>
    s!"The field holds {found} nodes but the mesh has {expected}"
  | .unknownIndex => "An index names nothing"

end CarrierTransport
