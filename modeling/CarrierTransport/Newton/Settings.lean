import CarrierTransport.Newton.Extremum
import CarrierTransport.LinearSystem.Matrix

/-!
# Settings of an iteration

The tolerances, the budget and the policies of the Newton iterations, and the relative increments
among which a policy selects.
-/

namespace CarrierTransport.Newton

/-! ### Policies -/

/-- How the equilibrium iteration applies the increment of the potential. -/
inductive PotentialUpdate where
  /-- The increment is added at every node. -/
  | additive
  /-- The contact potentials are multiplied by their increment. -/
  | scaleBoundary
deriving DecidableEq, Repr

/-- What the two-carrier iteration does with the damping factor. -/
inductive DampingPolicy where
  /-- The factor is reported and the full increment applied. -/
  | report
  /-- The increment is scaled by the factor. -/
  | apply
deriving DecidableEq, Repr

/-- The relative increment that decides on convergence. -/
inductive IncrementPolicy where
  | relativeToValue
  | relativeToMaximum
  | relativeToBlend
deriving DecidableEq, Repr

namespace PotentialUpdate

/-- The names of the policies in settings files. -/
def named : List (String × PotentialUpdate) :=
  [("additive", .additive), ("scale_boundary", .scaleBoundary)]

end PotentialUpdate

namespace DampingPolicy

/-- The names of the policies in settings files. -/
def named : List (String × DampingPolicy) :=
  [("report", .report), ("apply", .apply)]

end DampingPolicy

namespace IncrementPolicy

/-- The names of the policies in settings files. -/
def named : List (String × IncrementPolicy) :=
  [("relative_to_value", .relativeToValue), ("relative_to_maximum", .relativeToMaximum),
    ("relative_to_blend", .relativeToBlend)]

end IncrementPolicy

/-! ### Settings -/

structure Settings (α : Type) where
  /-- The bound on the relative increment. -/
  incrementTolerance : α
  /-- The bound on the relative residual. -/
  residualTolerance : α
  maximumIterations : Nat
  /-- The diagonal of the equations of a contact. -/
  dirichletDiagonal : α
  /-- The least carrier density. -/
  densityFloor : α
  pivotTolerance : α
  potentialUpdate : PotentialUpdate
  damping : DampingPolicy
  incrementPolicy : IncrementPolicy
  /-- The directory that receives a report of every two-carrier solve. -/
  dumpDirectory : Option String
deriving Repr

namespace Settings

variable {α : Type} [Scalar α]

/-- The settings of given tolerances and budget, everything else at its default. -/
def ofTolerances (increment residual : α) (maximumIterations : Nat) : Settings α where
  incrementTolerance := increment
  residualTolerance := residual
  maximumIterations
  dirichletDiagonal := 1e-12
  densityFloor := 1.1754943508222875e-38
  pivotTolerance := LinearSystem.BlockMatrix.defaultPivotTolerance
  potentialUpdate := .additive
  damping := .report
  incrementPolicy := .relativeToBlend
  dumpDirectory := none

end Settings

/-! ### Reports -/

/-- The residuals of one unknown after an assembly. -/
structure ResidualReport (α : Type) where
  /-- The right hand side itself. -/
  rhs : Extremum α
  /-- Relative to the largest coupling term and a fraction of the diagonal. -/
  coupled : Extremum α
  /-- Relative to the physical scale of the node. -/
  scaled : Extremum α
deriving Repr

def ResidualReport.none {α : Type} [Scalar α] : ResidualReport α :=
  ⟨.none, .none, .none⟩

/-- The relative increments of one unknown after an update. -/
structure IncrementReport (α : Type) where
  relativeToValue : Extremum α
  relativeToMaximum : Extremum α
  relativeToBlend : Extremum α
deriving Repr

namespace IncrementReport

variable {α : Type}

def none [Scalar α] : IncrementReport α :=
  ⟨.none, .none, .none⟩

def selected (report : IncrementReport α) : IncrementPolicy → Extremum α
  | .relativeToValue => report.relativeToValue
  | .relativeToMaximum => report.relativeToMaximum
  | .relativeToBlend => report.relativeToBlend

end IncrementReport

end CarrierTransport.Newton
