import CarrierTransport.Newton.Settings
import CarrierTransport.State.NodeField

/-!
# The Newton iteration

An iteration assembles the equations, then solves, updates and assembles again until it has
converged or its budget is spent. After each round an observer sees the number of the round and
the field; it can end the iteration by failing. The first failure of any phase ends the iteration
with the state it left behind.
-/

namespace CarrierTransport.Newton

open State (NodeField FieldError)

/-! ### Errors -/

inductive NewtonError (α : Type) where
  | matrix (error : LinearSystem.MatrixError α)
  | field (error : FieldError)
  | iterationBudget (iterations : Nat)
  | dampingExhausted (halvings : Nat)
deriving Repr

def NewtonError.message {α : Type} [BinaryScalar α] : NewtonError α → String
  | .matrix error => error.message
  | .field error => error.message
  | .iterationBudget iterations =>
    s!"Reached the maximum iteration count of {iterations} without converging"
  | .dampingExhausted halvings =>
    s!"No damping factor keeps the carrier densities above the floor ({halvings} halvings)"

/-! ### Phases -/

/-- The phases of a round on a state of type `σ`, in a world of type `ω`. -/
structure NewtonStep (α σ ω : Type) where
  /-- Assembles the equations at the current field and checks the residual. -/
  setup : EStateM (NewtonError α) (σ × ω) Unit
  /-- Solves for the increment. -/
  solve : EStateM (NewtonError α) (σ × ω) Unit
  /-- Applies the increment to the field and checks its size. -/
  update : EStateM (NewtonError α) (σ × ω) Unit
  /-- Whether the last update and the last setup both passed their checks. -/
  isConverged : σ → Bool
  maximumIterations : Nat
  field : σ → NodeField α

namespace NewtonStep

variable {α σ ω : Type}

/-- Sees the number of a round and the field after it. -/
abbrev Observer (α ω : Type) := Nat → NodeField α → EStateM (NewtonError α) ω Unit

def Observer.silent : Observer α ω := fun _ _ => pure ()

def round (step : NewtonStep α σ ω) (observe : Observer α ω) (number : Nat) :
    EStateM (NewtonError α) (σ × ω) Unit := do
  step.solve
  step.update
  step.setup
  let (s, _) ← get
  onSecond (observe number (step.field s))

/-- At most `budget` further rounds after the given number of rounds. -/
def rounds (step : NewtonStep α σ ω) (observe : Observer α ω) :
    (budget : Nat) → (done : Nat) → EStateM (NewtonError α) (σ × ω) Nat
  | 0, done => throw (.iterationBudget done)
  | budget + 1, done => do
    step.round observe (done + 1)
    let (s, _) ← get
    if step.isConverged s then return done + 1
    else step.rounds observe budget (done + 1)

/-- Iterates to convergence and counts the rounds; there is at least one. -/
def run (step : NewtonStep α σ ω) (observe : Observer α ω) :
    EStateM (NewtonError α) (σ × ω) Nat := do
  step.setup
  step.rounds observe (max 1 step.maximumIterations) 0

end NewtonStep

end CarrierTransport.Newton
