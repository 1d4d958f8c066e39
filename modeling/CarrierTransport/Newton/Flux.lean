import CarrierTransport.Newton.Contribution
import CarrierTransport.Physics.Bernoulli

/-!
# Carrier fluxes

The electron and hole fluxes along a semiconductor element by the Scharfetter-Gummel
discretisation. With `d` the rise of the band edge between the nodes in units of the thermal
voltage and `y` the rise of the logarithm of the density beyond `d`, the flux is
`kT / l * B (-d) * n * (exp y - 1)`, so it vanishes exactly where the two nodes are in
equilibrium. Its derivatives with respect to the potential and the two densities enter the
equations of both nodes with opposite signs.
-/

namespace CarrierTransport.Newton

open Physics (MaterialModel bernoulli bernoulliDerivative boltzmann thermalVoltage)
open State (NodeState Unknown)

variable {α : Type} [Scalar α]

/-! ### One flux -/

/-- The flux of a carrier along an element per mobility and area, its derivatives, and the two
terms whose difference it is. -/
structure CarrierFlux (α : Type) where
  flux : α
  /-- The derivative by the potential of the left node; that of the right node is opposite. -/
  byLeftPotential : α
  byLeftDensity : α
  byRightDensity : α
  /-- Thermal force, Bernoulli weight towards the right node and towards the left node. -/
  force : α
  rightWeight : α
  leftWeight : α
deriving Repr

/-- What both fluxes of an element depend on. -/
structure FluxSetting (α : Type) where
  /-- The thermal energy over the length of the element. -/
  force : α
  /-- The inverse of the thermal voltage. -/
  perVolt : α
  /-- The rise of the potential. -/
  rise : α
  /-- The rise of the logarithm of the intrinsic density. -/
  energyStep : α
deriving Repr

def fluxSetting (temperature length rise : α) (left right : NodeState α) : FluxSetting α where
  force := boltzmann * temperature / length
  perVolt := 1 / thermalVoltage temperature
  rise := rise
  energyStep := Scalar.ln (right.intrinsicDensity / left.intrinsicDensity)

/-- The flux of electrons of the given densities. -/
def electronFlux (c : FluxSetting α) (left right : α) : CarrierFlux α :=
  let d := c.perVolt * c.rise + c.energyStep
  let y := -d + Scalar.ln (right / left)
  let b := bernoulli (-d)
  let excess := left * Scalar.expm1 y
  let byPotentialOfWeight := bernoulliDerivative (-d) * c.perVolt
  let byPotentialOfExcess := left * Scalar.exp y * c.perVolt
  { flux := c.force * b * excess
    byLeftPotential := (byPotentialOfWeight * excess + b * byPotentialOfExcess) * c.force
    byLeftDensity := -b * c.force
    byRightDensity := b * left * Scalar.exp y / right * c.force
    force := c.force
    rightWeight := bernoulli d
    leftWeight := b }

/-- The flux of holes of the given densities. -/
def holeFlux (c : FluxSetting α) (left right : α) : CarrierFlux α :=
  let d := -c.perVolt * c.rise + c.energyStep
  let y := -d + Scalar.ln (right / left)
  let b := bernoulli (-d)
  let excess := left * Scalar.expm1 y
  let byPotentialOfWeight := -bernoulliDerivative (-d) * c.perVolt
  let byPotentialOfExcess := -left * Scalar.exp y * c.perVolt
  { flux := -c.force * b * excess
    byLeftPotential := -(byPotentialOfWeight * excess + b * byPotentialOfExcess) * c.force
    byLeftDensity := b * c.force
    byRightDensity := -b * left * Scalar.exp y / right * c.force
    force := c.force
    rightWeight := bernoulli d
    leftWeight := b }

/-! ### Contributions -/

/-- The coefficients and right hand sides that a flux of the given weight contributes to the
equations of its unknown at both nodes. `sign` is the sign of the coefficients at the left node,
`opposite` that at the right one; the right hand sides have it the other way round. -/
def balanceContributions (i j : Nat) (unknown : Unknown) (sign opposite : α → α) (weight : α)
    (f : CarrierFlux α) : List (Contribution α) :=
  let k := unknown.sub
  let leftPotential := f.byLeftPotential * weight
  let rightPotential := -f.byLeftPotential * weight
  let leftDensity := f.byLeftDensity * weight
  let rightDensity := f.byRightDensity * weight
  let flux := f.flux * weight
  [.coefficient i i k 0 (sign leftPotential), .coefficient i i k k (sign leftDensity),
    .coefficient i j k 0 (sign rightPotential), .coefficient i j k k (sign rightDensity),
    .coefficient j j k 0 (opposite rightPotential), .coefficient j j k k (opposite rightDensity),
    .coefficient j i k 0 (opposite leftPotential), .coefficient j i k k (opposite leftDensity),
    .source i k (opposite flux), .source j k (sign flux)]

/-- The magnitudes that a flux of the given weight and densities contributes: its larger term as
the physical scale, the terms of the other node as couplings. -/
def magnitudeContributions (i j : Nat) (unknown : Unknown) (weight left right : α)
    (f : CarrierFlux α) : List (Contribution α) :=
  let k := unknown.sub
  let scale := Scalar.largestMagnitude
    [weight * f.force * f.rightWeight * right, weight * f.force * f.leftWeight * left]
  [.scale i k scale, .scale j k scale,
    .coupling i k (Scalar.abs (f.byRightDensity * weight * right)),
    .coupling j k (Scalar.abs (f.byLeftDensity * weight * left))]

/-- What both fluxes of a semiconductor element contribute. -/
def fluxContributions {M : Type} [MaterialModel M α] (material : M) (temperature : α)
    (element : Mesh.Element α) (edge : Edge α) (left right : NodeState α) :
    List (Contribution α) :=
  let i := edge.left
  let j := edge.right
  let c := fluxSetting temperature element.length edge.rise left right
  let electrons := electronFlux c left.electronDensity right.electronDensity
  let holes := holeFlux c left.holeDensity right.holeDensity
  let electronWeight := MaterialModel.electronMobility material * element.area
  let holeWeight := MaterialModel.holeMobility material * element.area
  balanceContributions i j .electronDensity id (- ·) electronWeight electrons
    ++ balanceContributions i j .holeDensity (- ·) id holeWeight holes
    ++ magnitudeContributions i j .electronDensity electronWeight left.electronDensity
      right.electronDensity electrons
    ++ magnitudeContributions i j .holeDensity holeWeight left.holeDensity right.holeDensity holes

end CarrierTransport.Newton
