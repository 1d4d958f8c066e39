import CarrierTransport.Device.Error
import CarrierTransport.Physics.Silicon

/-!
# What is known of the regions

The material and doping of every region of a mesh, and the temperature of the device.
-/

namespace CarrierTransport

open Physics (Material)

/-! ### The table of regions -/

structure RegionInfo (M α : Type) where
  material : M
  donorDensity : α
  acceptorDensity : α
deriving Repr

/-- The regions of a device of materials of type `M`. -/
structure RegionTable (M α : Type) where
  regions : Array (RegionInfo M α)
  /-- The temperature of the lattice in kelvin. -/
  temperature : α
deriving Repr

namespace RegionTable

variable {M α : Type}

def count (table : RegionTable M α) : Nat :=
  table.regions.size

def material? (table : RegionTable M α) (region : Nat) : Option M :=
  table.regions[region]?.map RegionInfo.material

/-- The table of consecutive layers, given as one list of each property. -/
def ofLayers (materials : List M) (donors acceptors : List α) (temperature : α) :
    Except (BuildError α) (RegionTable M α) :=
  if materials.isEmpty then .error .emptyDevice
  else if donors.length ≠ materials.length then
    .error (.missingMaterial (min donors.length materials.length))
  else if acceptors.length ≠ materials.length then
    .error (.missingMaterial (min acceptors.length materials.length))
  else
    let regions := (materials.zip (donors.zip acceptors)).map fun (m, nd, na) => ⟨m, nd, na⟩
    .ok { regions := regions.toArray, temperature }

end RegionTable

/-! ### Devices -/

/-- A homogeneous layer of a device. -/
structure Layer (α : Type) where
  material : Material
  /-- The thickness in micrometres. -/
  thickness : α
  /-- The number of elements the layer is divided into. -/
  divisions : Nat
  /-- Donors per cubic centimetre. -/
  donorDensity : α
  /-- Acceptors per cubic centimetre. -/
  acceptorDensity : α
deriving Repr

/-- A stack of layers held at a fixed temperature. -/
structure Device (α : Type) where
  /-- The temperature of the lattice in kelvin. -/
  temperature : α
  layers : List (Layer α)
deriving Repr

namespace Device

variable {α : Type}

/-- The regions of the mesh, from the left contact on. -/
def regions (device : Device α) : List (Mesh.Region α) :=
  device.layers.map fun layer =>
    ⟨layer.thickness, layer.divisions, Physics.MaterialKind.priority layer.material⟩

def regionTable (device : Device α) : Except (BuildError α) (RegionTable Material α) :=
  RegionTable.ofLayers (device.layers.map Layer.material) (device.layers.map Layer.donorDensity)
    (device.layers.map Layer.acceptorDensity) device.temperature

/-- The mesh of the device, from the origin on. -/
def mesh [Scalar α] (device : Device α) (lengthScale crossSection : α) :
    Except (BuildError α) (Mesh.LineMesh α) :=
  if device.layers.isEmpty then .error .emptyDevice
  else match Mesh.LineMesh.generate device.regions 0 with
    | .ok mesh => .ok { mesh with lengthScale, crossSection }
    | .error e => .error (.mesh e)

end Device

end CarrierTransport
