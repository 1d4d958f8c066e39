import CarrierTransport.Physics.Constants

/-!
# Bulk materials

What the discretisation asks of the material of a region. Energies are in electron volts,
densities per cubic centimetre, mobilities in square centimetres per volt second and
permittivities in farads per centimetre. An insulator leaves its mobilities and densities at zero.
-/

namespace CarrierTransport.Physics

/-! ### What a material provides -/

/-- What the mesh needs to know of the materials of type `M`. -/
class MaterialKind (M : Type) where
  /-- Of the materials that meet at a node the one of least priority governs it. -/
  priority : M → Int
  isSemiconductor : M → Bool

/-- The bulk physics of the materials of type `M`, in numbers of type `α`. -/
class MaterialModel (M α : Type) [Scalar α] extends MaterialKind M where
  permittivity : M → α
  electronMobility : M → α := fun _ => 0
  holeMobility : M → α := fun _ => 0
  /-- The energy from the conduction band edge to the vacuum. -/
  affinity : M → α
  /-- The energy from the valence band edge to the conduction band edge. -/
  bandGap : M → α
  /-- The narrowing of the gap by given donor and acceptor densities. -/
  gapNarrowing : M → α → α → α := fun _ _ _ => 0
  /-- The intrinsic carrier density at a temperature, for a gap narrowed by a given amount. -/
  intrinsicDensity : M → α → α → α := fun _ _ _ => 0
  /-- The equilibrium potential of a neutral region at a temperature, for given donor and
  acceptor densities. -/
  builtInPotential : M → α → α → α → α := fun _ _ _ _ => 0

/-! ### Densities of states -/

section DensityOfStates

variable {α : Type} [Scalar α]

/-- A density of states quoted at the reference temperature, at another temperature. -/
def densityOfStates (atReference temperature : α) : α :=
  let reduced := temperature / referenceTemperature
  atReference * reduced * Scalar.sqrt reduced

/-- The effective density of states of the conduction band. -/
def conductionBandDensity (temperature : α) : α :=
  densityOfStates 2.8e19 temperature

/-- The effective density of states of the valence band. -/
def valenceBandDensity (temperature : α) : α :=
  densityOfStates 1.04e19 temperature

end DensityOfStates

/-! ### Levels that follow from the band parameters -/

namespace MaterialModel

variable {M α : Type} [Scalar α] [MaterialModel M α]

/-- The intrinsic Fermi level above the valence band edge. -/
def intrinsicFermiLevel (m : M) (temperature : α) : α :=
  let ratio := conductionBandDensity temperature / valenceBandDensity temperature
  (bandGap m + thermalVoltage temperature * Scalar.ln ratio) / 2.0

/-- The work function, measured from the vacuum. -/
def workFunction (m : M) (temperature : α) : α :=
  intrinsicFermiLevel m temperature + affinity m

end MaterialModel

/-! ### A material known by its band parameters only -/

/-- The least that describes a material: no mobilities, no carriers, no built-in potential. -/
structure BareMaterial (α : Type) where
  priority : Int
  isSemiconductor : Bool
  permittivity : α
  affinity : α
  bandGap : α

instance {α : Type} [Scalar α] : MaterialModel (BareMaterial α) α where
  priority := BareMaterial.priority
  isSemiconductor := BareMaterial.isSemiconductor
  permittivity := BareMaterial.permittivity
  affinity := BareMaterial.affinity
  bandGap := BareMaterial.bandGap

end CarrierTransport.Physics
