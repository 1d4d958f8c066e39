import CarrierTransport.Device.Description
import CarrierTransport.Run.Arguments
import CarrierTransport.Run.Sweep
import CarrierTransport.State.Equilibrium

/-!
# A run from its command line

A run takes its command line, the mode of its settings and the files it finds, and leaves an exit
status and files. The output directory and the log in it are there before anything is read; the
first failure ends the run, and what has been written stays. A failure leaves the status 1, but 101
if the log cannot be opened or a name of a document counts to an item that no list can have.
-/

namespace CarrierTransport.Run

open CarrierTransport.Configuration (Plan SourceError)
open State (NodeField)

/-! ### Failures -/

inductive RunError (α : Type) where
  | storage (error : StorageError)
  /-- The log cannot be opened. -/
  | log (error : StorageError)
  | plan (error : SourceError)
  | device (error : DeviceError)
  | build (error : BuildError α)
  | sweep (error : SweepError α)
deriving Repr

def RunError.message {α : Type} [BinaryScalar α] : RunError α → String
  | .storage error => error.message
  | .log error => error.message
  | .plan error => error.message
  | .device error => error.message
  | .build error => error.message
  | .sweep error => error.message

def RunError.status {α : Type} : RunError α → UInt32
  | .log _ => 101
  | .plan .misplaced => 101
  | .device (.source .misplaced) => 101
  | _ => 1

/-! ### Runs -/

/-- The name of the log in the output directory. -/
def logName : String := "log.log"

/-- The tree with an empty log in a directory, unless there is one already. -/
def openLog (directory : Path) (tree : FileTree) : Except StorageError FileTree :=
  let log := directory.child logName
  if tree.isFile log then .ok tree else tree.write log ByteArray.empty

/-- What is simulated: the plan, the device with its mesh, and the field at equilibrium charge. -/
structure Setup (α : Type) where
  plan : Plan α
  mesh : Mesh.Topology α
  table : RegionTable Physics.Material α
  field : NodeField α

section Runs

variable {α : Type} [BinaryScalar α]

/-- What a command line and the files describe. -/
def Setup.read (tree : FileTree) (arguments : Arguments) (mode : Option String) :
    Except (RunError α) (Setup α) := do
  let plan : Plan α ← (Plan.read tree ⟨arguments.configuration⟩ mode).mapError .plan
  let device : Device α ← (Device.read tree ⟨arguments.device⟩).mapError .device
  let table ← device.regionTable.mapError .build
  let mesh ← (device.mesh plan.lengthScale plan.crossSection).mapError .build
  let mesh := mesh.topology
  let field ← (NodeField.equilibrium mesh table).mapError .build
  return { plan, mesh, table, field }

/-- Runs a simulation on the files. -/
def simulate (arguments : Arguments) (mode : Option String) :
    EStateM (RunError α) FileTree Unit := do
  let output : Path := ⟨arguments.output⟩
  widenError .storage (replace (·.makeDirectories output))
  widenError .log (replace (openLog output))
  match Setup.read (← get) arguments mode with
  | .error e => throw e
  | .ok setup =>
    zoom (fun tree => (setup.field, tree)) (fun (_, tree) _ => tree)
      (widenError .sweep (sweep setup.plan (FileTree.reporter output) setup.mesh setup.table))

end Runs

/-! ### Exit status -/

structure Outcome where
  /-- Zero for success, two for misuse; a failure has its own status. -/
  status : UInt32
  tree : FileTree
  /-- What is said to the user. -/
  message : String

/-- Runs a command line in numbers of type `α`. -/
def run (α : Type) [BinaryScalar α] (arguments : List String) (mode : Option String)
    (tree : FileTree) : Outcome :=
  match Invocation.ofArguments arguments with
  | .information => ⟨0, tree, usage⟩
  | .misuse => ⟨2, tree, usage⟩
  | .simulate arguments =>
    match (simulate arguments mode : EStateM (RunError α) FileTree Unit) tree with
    | .ok () tree => ⟨0, tree, ""⟩
    | .error e tree => ⟨e.status, tree, e.message⟩

end CarrierTransport.Run
