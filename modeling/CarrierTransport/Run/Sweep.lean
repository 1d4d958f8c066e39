import CarrierTransport.Configuration.Plan
import CarrierTransport.Newton.Poisson
import CarrierTransport.Newton.TwoCarrier

/-!
# The voltage sweep

A sweep relaxes a field to equilibrium and then steps the voltage of the last contact, converging
the two-carrier iteration at every step. The doping and the equilibrium are reported with the suffix
`00`, the field after a step with the number of the step, and, if the plan asks for it, the field
after every round with the numbers of the step and the round.
-/

namespace CarrierTransport.Run

open CarrierTransport.Configuration (Plan)
open LinearSystem (SolveObserver)
open Mesh (Topology)
open Newton (NewtonError NewtonStep TwoCarrierState Problem)
open Physics (MaterialModel)
open State (NodeField FieldError Quantity)

/-! ### Errors -/

inductive SweepError (α : Type) where
  | build (error : BuildError α)
  | newton (error : NewtonError α)
  | field (error : FieldError)
deriving Repr

def SweepError.message {α : Type} [BinaryScalar α] : SweepError α → String
  | .build error => error.message
  | .newton error => error.message
  | .field error => error.message

/-! ### Reports -/

section Reports

variable {α ω : Type} [BinaryScalar α]

/-- The quantities that do not change. -/
def dopingQuantities : List Quantity := [.donorDensity, .acceptorDensity]

/-- The quantities that are solved for. -/
def solutionQuantities : List Quantity := [.potential, .electronDensity, .holeDensity]

/-- The suffix of what is reported before the sweep. -/
def initialSuffix : String := "00"

def stepSuffix (step : Nat) : String := s!"{step}"

/-- The suffix of the field after a round of a step. -/
def roundSuffix (step round : Nat) : String := s!"{step}_{round}"

def fileName (q : Quantity) (suffix : String) : String := s!"{q.name}_{suffix}"

/-- Reports some quantities of a field under a suffix. -/
def writeFields (reporter : Reporter ω) (quantities : List Quantity) (suffix : String)
    (field : NodeField α) : EStateM FieldError ω Unit :=
  quantities.forM fun q => field.output reporter q (fileName q suffix)

end Reports

/-! ### The sweep -/

section Sweep

variable {M α ω : Type} [BinaryScalar α] [MaterialModel M α] [BEq M]

/-- An iteration that starts from a field and leaves its own behind. -/
def withIteration {σ : Type} (start : NodeField α → Except (BuildError α) σ)
    (field : σ → NodeField α) (iterate : EStateM (SweepError α) (σ × ω) Unit) :
    EStateM (SweepError α) (NodeField α × ω) Unit := fun (f, w) =>
  match start f with
  | .error e => .error (.build e) (f, w)
  | .ok s =>
    match iterate (s, w) with
    | .ok () (s, w) => .ok () (field s, w)
    | .error e (s, w) => .error e (field s, w)

/-- Relaxes the field to equilibrium. -/
def relax (p : Problem M α) : EStateM (SweepError α) (NodeField α × ω) Unit :=
  withIteration (Newton.Poisson.start p) Newton.PoissonState.field (widenError .newton do
    onFirst (Newton.Poisson.setVoltage p 0)
    let _ ← (Newton.Poisson.step p).run NewtonStep.Observer.silent)

/-- Reports the field after a round of a step, if the plan asks for it. -/
def observeRound (plan : Plan α) (reporter : Reporter ω) (step : Nat) :
    NewtonStep.Observer α ω := fun round field =>
  if plan.writeIterations then
    widenError .field (writeFields reporter solutionQuantities (roundSuffix step round) field)
  else pure ()

/-- Applies the voltage of a step, iterates to convergence and reports the field. -/
def biasStep (plan : Plan α) (reporter : Reporter ω) (p : Problem M α) (step : Nat) :
    EStateM (NewtonError α) (TwoCarrierState α × ω) Unit := do
  onFirst (Newton.TwoCarrier.setVoltage p (Scalar.count step * plan.voltageStep))
  let observer := if plan.dumpDiagnostics then SolveObserver.ofReporter reporter else .silent
  let _ ← (Newton.TwoCarrier.step p observer).run (observeRound plan reporter step)
  let (s, _) ← get
  onSecond (widenError .field (writeFields reporter solutionQuantities (stepSuffix step) s.field))

/-- So many steps from a given one on. -/
def biasSteps (plan : Plan α) (reporter : Reporter ω) (p : Problem M α) :
    (count : Nat) → (step : Nat) → EStateM (NewtonError α) (TwoCarrierState α × ω) Unit
  | 0, _ => pure ()
  | count + 1, step => do
    biasStep plan reporter p step
    biasSteps plan reporter p count (step + 1)

/-- The whole sweep: doping, equilibrium, steps. -/
def sweep (plan : Plan α) (reporter : Reporter ω) (mesh : Topology α) (table : RegionTable M α) :
    EStateM (SweepError α) (NodeField α × ω) Unit := do
  let (initial, _) ← get
  onSecond (widenError .field (writeFields reporter dopingQuantities initialSuffix initial))
  relax { mesh, table, settings := plan.equilibrium }
  let (relaxed, _) ← get
  onSecond (widenError .field (writeFields reporter solutionQuantities initialSuffix relaxed))
  let p : Problem M α := { mesh, table, settings := plan.twoCarrier }
  withIteration (Newton.TwoCarrier.start p) TwoCarrierState.field
    (widenError .newton (biasSteps plan reporter p plan.steps 0))

end Sweep

end CarrierTransport.Run
