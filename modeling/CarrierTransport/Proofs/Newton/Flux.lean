import Mathlib
import CarrierTransport.Newton.Flux
import CarrierTransport.Proofs.Physics.Bernoulli

/-!
# The fluxes over the real numbers

A flux has the sign of the imbalance of its two nodes, or the opposite one for holes, so it vanishes
only where they are in equilibrium (`sign_electronFlux`, `sign_holeFlux`).

The derivatives that come with a flux are those of the flux itself: if the
rise of the potential and the two densities change at given rates, the flux changes at the rate
that the chain rule gives (`hasDerivAt_electronFlux`, `hasDerivAt_holeFlux`). Both fluxes are one
formula up to a sign (`signedFlux`), the weighted excess of one density over the other.
-/

namespace CarrierTransport.Newton

open Physics (bernoulliDerivative hasDerivAt_bernoulli seriesThreshold)

/-! ### Steps -/

section Steps

variable {α : Type} [Scalar α]

/-- The rise of the band edge of the electrons in units of the thermal voltage. -/
def FluxSetting.electronStep (c : FluxSetting α) : α :=
  c.perVolt * c.rise + c.energyStep

/-- The rise of the band edge of the holes in units of the thermal voltage. -/
def FluxSetting.holeStep (c : FluxSetting α) : α :=
  -c.perVolt * c.rise + c.energyStep

/-- How far the right node holds more electrons than balance those of the left one, as a
logarithm. -/
def FluxSetting.electronImbalance (c : FluxSetting α) (left right : α) : α :=
  -c.electronStep + Scalar.ln (right / left)

/-- How far the right node holds more holes than balance those of the left one, as a logarithm. -/
def FluxSetting.holeImbalance (c : FluxSetting α) (left right : α) : α :=
  -c.holeStep + Scalar.ln (right / left)

end Steps

/-! ### Signs -/

section Signs

variable {c : FluxSetting ℝ} {left right : ℝ}

theorem sign_exp_sub_one (y : ℝ) : SignType.sign (Real.exp y - 1) = SignType.sign y := by
  rcases lt_trichotomy y 0 with hneg | rfl | hpos
  · rw [sign_neg hneg, sign_neg (sub_neg.2 (Real.exp_lt_one_iff.2 hneg))]
  · rw [Real.exp_zero, sub_self]
  · rw [sign_pos hpos, sign_pos (sub_pos.2 (Real.one_lt_exp_iff.2 hpos))]

/-- A weighted excess has the sign of the imbalance that causes it. -/
theorem sign_excess {force y : ℝ} (hforce : 0 < force) (hleft : 0 < left) (d : ℝ) :
    SignType.sign (force * Physics.bernoulli d * (left * (Real.exp y - 1))) = SignType.sign y := by
  rw [sign_mul, sign_mul, sign_mul, sign_pos hforce, sign_pos (Physics.bernoulli_pos d),
    sign_pos hleft, sign_exp_sub_one, one_mul, one_mul, one_mul]

theorem sign_electronFlux (hforce : 0 < c.force) (hleft : 0 < left) :
    SignType.sign (electronFlux c left right).flux =
      SignType.sign (c.electronImbalance left right) :=
  sign_excess hforce hleft (-c.electronStep)

theorem sign_holeFlux (hforce : 0 < c.force) (hleft : 0 < left) :
    SignType.sign (holeFlux c left right).flux = -SignType.sign (c.holeImbalance left right) := by
  have hflux : (holeFlux c left right).flux =
      -(c.force * Physics.bernoulli (-c.holeStep) *
        (left * (Real.exp (c.holeImbalance left right) - 1))) := by
    rw [← neg_mul, ← neg_mul]
    rfl
  rw [hflux, Left.sign_neg, sign_excess hforce hleft]

end Signs

/-! ### The weighted excess -/

/-- The excess of the left density over what balances the right one, weighted. -/
noncomputable def weightedExcess (d left right : ℝ) : ℝ :=
  Physics.bernoulli (-d) * (left * (Real.exp (-d + Real.log (right / left)) - 1))

theorem hasDerivAt_weightedExcess {d left right : ℝ → ℝ} {d' left' right' x : ℝ}
    (hd : HasDerivAt d d' x) (hleft : HasDerivAt left left' x) (hright : HasDerivAt right right' x)
    (hl : left x ≠ 0) (hr : right x ≠ 0) (hstep : |d x| ≠ seriesThreshold) :
    let b := Physics.bernoulli (-d x)
    let growth := Real.exp (-d x + Real.log (right x / left x))
    HasDerivAt (fun t => weightedExcess (d t) (left t) (right t))
      (-(bernoulliDerivative (-d x) * (left x * (growth - 1)) + b * (left x * growth)) * d' -
        b * left' + b * left x * growth / right x * right') x := by
  intro b growth
  have hneg : |-d x| ≠ seriesThreshold := by rwa [abs_neg]
  have hweight := HasDerivAt.comp (h := fun t => -d t) x (hasDerivAt_bernoulli hneg) hd.fun_neg
  have hratio := (hright.fun_div hleft hl).log (div_ne_zero hr hl)
  have hgrowth := (hd.fun_neg.fun_add hratio).exp
  have hexcess := hleft.fun_mul (hgrowth.sub_const 1)
  refine (hweight.fun_mul hexcess).congr_deriv ?_
  simp only [Function.comp_apply]
  field_simp
  ring

/-! ### Both fluxes -/

/-- The flux of carriers of either sign, with its derivatives. -/
noncomputable def signedFlux (sign : ℝ) (c : FluxSetting ℝ) (left right : ℝ) : CarrierFlux ℝ :=
  let d := sign * c.perVolt * c.rise + c.energyStep
  let growth := Real.exp (-d + Real.log (right / left))
  let b := Physics.bernoulli (-d)
  let excess := left * (growth - 1)
  let byPotentialOfWeight := sign * bernoulliDerivative (-d) * c.perVolt
  let byPotentialOfExcess := sign * left * growth * c.perVolt
  { flux := sign * c.force * b * excess
    byLeftPotential := sign * (byPotentialOfWeight * excess + b * byPotentialOfExcess) * c.force
    byLeftDensity := -sign * b * c.force
    byRightDensity := sign * b * left * growth / right * c.force
    force := c.force
    rightWeight := Physics.bernoulli d
    leftWeight := b }

section Fluxes

variable {c : FluxSetting ℝ} {rise left right : ℝ → ℝ} {rise' left' right' x : ℝ}

theorem electronFlux_eq (c : FluxSetting ℝ) (left right : ℝ) :
    electronFlux c left right = signedFlux 1 c left right := by
  simp only [electronFlux, signedFlux, one_mul, neg_mul]
  rfl

theorem holeFlux_eq (c : FluxSetting ℝ) (left right : ℝ) :
    holeFlux c left right = signedFlux (-1) c left right := by
  simp only [holeFlux, signedFlux, neg_mul, one_mul, neg_neg]
  rfl

/-- A flux changes at the rate that its derivatives give. -/
theorem hasDerivAt_signedFlux (sign : ℝ) (hrise : HasDerivAt rise rise' x)
    (hleft : HasDerivAt left left' x) (hright : HasDerivAt right right' x) (hc : c.rise = rise x)
    (hl : left x ≠ 0) (hr : right x ≠ 0)
    (hstep : |sign * c.perVolt * c.rise + c.energyStep| ≠ seriesThreshold) :
    let f := signedFlux sign c (left x) (right x)
    HasDerivAt (fun t => (signedFlux sign { c with rise := rise t } (left t) (right t)).flux)
      (-f.byLeftPotential * rise' + f.byLeftDensity * left' + f.byRightDensity * right') x := by
  intro f
  have hflux : ∀ t, (signedFlux sign { c with rise := rise t } (left t) (right t)).flux =
      sign * c.force *
        weightedExcess (sign * c.perVolt * rise t + c.energyStep) (left t) (right t) :=
    fun _ => mul_assoc _ _ _
  have hd : HasDerivAt (fun t => sign * c.perVolt * rise t + c.energyStep)
      (sign * c.perVolt * rise') x :=
    (hrise.const_mul (sign * c.perVolt)).add_const c.energyStep
  rw [hc] at hstep
  simp only [hflux]
  refine ((hasDerivAt_weightedExcess hd hleft hright hl hr hstep).const_mul
    (sign * c.force)).congr_deriv ?_
  simp only [f, signedFlux, hc]
  ring

/-- The flux of electrons changes at the rate that its derivatives give. -/
theorem hasDerivAt_electronFlux (hrise : HasDerivAt rise rise' x) (hleft : HasDerivAt left left' x)
    (hright : HasDerivAt right right' x) (hc : c.rise = rise x) (hl : left x ≠ 0)
    (hr : right x ≠ 0) (hstep : |c.electronStep| ≠ seriesThreshold) :
    let f := electronFlux c (left x) (right x)
    HasDerivAt (fun t => (electronFlux { c with rise := rise t } (left t) (right t)).flux)
      (-f.byLeftPotential * rise' + f.byLeftDensity * left' + f.byRightDensity * right') x := by
  rw [FluxSetting.electronStep, ← one_mul c.perVolt] at hstep
  simp only [electronFlux_eq]
  exact hasDerivAt_signedFlux 1 hrise hleft hright hc hl hr hstep

/-- The flux of holes changes at the rate that its derivatives give. -/
theorem hasDerivAt_holeFlux (hrise : HasDerivAt rise rise' x) (hleft : HasDerivAt left left' x)
    (hright : HasDerivAt right right' x) (hc : c.rise = rise x) (hl : left x ≠ 0)
    (hr : right x ≠ 0) (hstep : |c.holeStep| ≠ seriesThreshold) :
    let f := holeFlux c (left x) (right x)
    HasDerivAt (fun t => (holeFlux { c with rise := rise t } (left t) (right t)).flux)
      (-f.byLeftPotential * rise' + f.byLeftDensity * left' + f.byRightDensity * right') x := by
  rw [FluxSetting.holeStep, ← neg_one_mul c.perVolt] at hstep
  simp only [holeFlux_eq]
  exact hasDerivAt_signedFlux (-1) hrise hleft hright hc hl hr hstep

end Fluxes

end CarrierTransport.Newton
