import CarrierTransport.Scalar.Basic

/-!
# Damping

The damping factor of an increment is halved until no carrier density would fall below the floor.
The densities are gone through again and again; every density that would fall too low halves the
factor for the ones after it. After enough halvings the search gives up.
-/

namespace CarrierTransport.Newton

variable {α : Type} [Scalar α]

/-- The number of halvings after which no further sweep is made. -/
def maximalHalvings : Nat := 64

/-- A factor and the number of halvings that led to it. -/
structure Damping (α : Type) where
  factor : α
  halvings : Nat
deriving Repr

namespace Damping

def visit (floor : α) (d : Damping α) (target : α × α) : Damping α :=
  if target.1 + d.factor * target.2 < floor then ⟨d.factor * 0.5, d.halvings + 1⟩ else d

def sweep (floor : α) (targets : List (α × α)) (d : Damping α) : Damping α :=
  targets.foldl (visit floor) d

/-- Sweeps until nothing is halved, with at most the given number of sweeps; the number of halvings
if the search gives up. -/
def search (floor : α) (targets : List (α × α)) : Nat → Damping α → Except Nat α
  | 0, d => .error d.halvings
  | sweeps + 1, d =>
    let next := sweep floor targets d
    if next.halvings = d.halvings then .ok next.factor
    else if maximalHalvings ≤ next.halvings then .error next.halvings
    else search floor targets sweeps next

/-- The factor by which the given densities may follow their increments. Each sweep but the last
halves at least once, so there are no more sweeps than halvings. -/
def find (floor : α) (targets : List (α × α)) : Except Nat α :=
  search floor targets maximalHalvings ⟨1.0, 0⟩

end Damping

end CarrierTransport.Newton
