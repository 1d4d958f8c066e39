import CarrierTransport.Configuration.Decode
import CarrierTransport.Configuration.Overlay
import CarrierTransport.Configuration.Source
import CarrierTransport.Newton.Settings

/-!
# The plan of a run

Everything a run is told besides the device: the settings of its two iterations, how the device is
meshed and which voltages are applied. It is read from the defaults of a directory, overridden by
the entries of a mode.
-/

namespace CarrierTransport.Configuration

open Newton (Settings PotentialUpdate DampingPolicy IncrementPolicy)
open Toml (Entries Value)

/-! ### Plans -/

structure Plan (α : Type) where
  /-- The settings of the equilibrium iteration. -/
  equilibrium : Settings α
  /-- The settings of the two-carrier iteration. -/
  twoCarrier : Settings α
  /-- Whether every two-carrier solve is reported to the output directory. -/
  dumpDiagnostics : Bool
  /-- Centimetres per unit of thickness. -/
  lengthScale : α
  /-- The cross-section of the device in square centimetres. -/
  crossSection : α
  voltageStep : α
  /-- The number of voltages, the first of which is zero. -/
  steps : Nat
  /-- Whether the fields are written after every round. -/
  writeIterations : Bool
deriving Repr

/-! ### Decoding -/

section Decoding

variable {α : Type} [BinaryScalar α]

/-- The settings of an iteration with the tolerances and the budget of a group. -/
def tolerances? (fields : Entries) : Option (Settings α) := do
  let increment ← required fields "del_criterion" scalar?
  let residual ← required fields "res_criterion" scalar?
  let budget ← required fields "maximum_iterations" count?
  return .ofTolerances increment residual budget

/-- The settings of the group `poisson`. -/
def equilibrium? (group : Value) : Option (Settings α) := do
  let fields ← fields?
    ["del_criterion", "res_criterion", "maximum_iterations", "potential_update"] group
  let settings ← tolerances? fields
  let potentialUpdate ←
    optional fields "potential_update" .additive (choice? PotentialUpdate.named)
  return { settings with potentialUpdate }

/-- The settings of the group `drift_diffusion`, and whether solves are reported. -/
def twoCarrier? (group : Value) : Option (Settings α × Bool) := do
  let fields ← fields? ["del_criterion", "res_criterion", "maximum_iterations", "damping",
    "increment_policy", "dump_diagnostics"] group
  let settings ← tolerances? fields
  let damping ← optional fields "damping" .report (choice? DampingPolicy.named)
  let incrementPolicy ←
    optional fields "increment_policy" .relativeToBlend (choice? IncrementPolicy.named)
  let dump ← optional fields "dump_diagnostics" false flag?
  return ({ settings with damping, incrementPolicy }, dump)

/-- The settings with what the groups `matrix` and `newton` say of both iterations. -/
def withShared? (matrix newton : Value) : Option (Settings α → Settings α) := do
  let matrix ← fields? ["pivot_tolerance"] matrix
  let pivotTolerance ← required matrix "pivot_tolerance" scalar?
  let newton ← fields? ["dirichlet_diagonal", "density_floor"] newton
  let dirichletDiagonal ← required newton "dirichlet_diagonal" scalar?
  let densityFloor ← required newton "density_floor" scalar?
  return fun settings => { settings with pivotTolerance, dirichletDiagonal, densityFloor }

def Plan.ofEntries? (entries : Entries) : Option (Plan α) := do
  let shared ← withShared? (← entries.lookup "matrix") (← entries.lookup "newton")
  let equilibrium ← equilibrium? (← entries.lookup "poisson")
  let (twoCarrier, dumpDiagnostics) ← twoCarrier? (← entries.lookup "drift_diffusion")
  let mesh ← fields? ["length_scale", "cross_section"] (← entries.lookup "mesh")
  let lengthScale ← required mesh "length_scale" scalar?
  let crossSection ← required mesh "cross_section" scalar?
  let sweep ← fields? ["voltage_step", "steps", "write_iterations"] (← entries.lookup "sweep")
  let voltageStep ← required sweep "voltage_step" scalar?
  let steps ← required sweep "steps" count?
  let writeIterations ← optional sweep "write_iterations" false flag?
  return {
    equilibrium := shared equilibrium
    twoCarrier := shared twoCarrier
    dumpDiagnostics, lengthScale, crossSection, voltageStep, steps, writeIterations }

end Decoding

/-! ### Reading -/

/-- The name of the defaults in a directory of settings. -/
def defaultName : String := "default"

/-- The mode of a run that names none. -/
def defaultMode : String := "development"

/-- The plan in a directory of settings, under a mode. -/
def Plan.read {α : Type} [BinaryScalar α] (tree : FileTree) (directory : Path)
    (mode : Option String) : Except SourceError (Plan α) := do
  let entries ← overlaySource [] (← load tree (directory.child defaultName))
  let overrides ← loadOptional tree (directory.child (mode.getD defaultMode))
  match Plan.ofEntries? (← overlaySource entries overrides) with
  | some plan => return plan
  | none => throw .unfit

end CarrierTransport.Configuration
