import CarrierTransport.Physics.Material

/-!
# Silicon and its oxide

The materials a layer can be made of. Silicon governs every node it touches; the oxide holds no
carriers.
-/

namespace CarrierTransport.Physics

/-! ### The materials -/

inductive Material where
  | silicon
  | siliconDioxide
deriving DecidableEq, Repr

namespace Material

def all : List Material := [.silicon, .siliconDioxide]

/-- The name of a material in descriptions and reports. -/
def name : Material → String
  | .silicon => "Si"
  | .siliconDioxide => "SiO2"

def ofName? (text : String) : Option Material :=
  all.find? fun m => m.name == text

theorem ofName?_name (m : Material) : ofName? m.name = some m := by
  cases m <;> decide

end Material

/-! ### Silicon -/

namespace Silicon

variable {α : Type} [Scalar α]

/-- The narrowing of the gap in the total doping, which vanishes with it. Where the logarithm is
negative the sum `ln + sqrt (ln ^ 2 + c)` is written as a quotient, which loses no digits. -/
def gapNarrowing (donor acceptor : α) : α :=
  let v1 : α := 9e-3
  let n0 : α := 1e17
  let c : α := 0.5
  let total := donor + acceptor
  if total ≤ 0.0 then 0.0 else
    let logRatio := Scalar.ln (total / n0)
    let root := Scalar.sqrt (logRatio * logRatio + c)
    if 0.0 ≤ logRatio then v1 * (logRatio + root) else v1 * c / (root - logRatio)

/-- The band gap without doping. -/
def bandGap : α := 1.08

/-- The intrinsic density. The roots are taken one by one, as the product of the densities of
states leaves the range of single precision. -/
def intrinsicDensity (temperature narrowing : α) : α :=
  Scalar.sqrt (conductionBandDensity temperature) * Scalar.sqrt (valenceBandDensity temperature)
    * Scalar.exp ((narrowing - bandGap) * 0.5 / thermalVoltage temperature)

/-- The potential at which the mobile charge balances the doping. -/
def builtInPotential (temperature donor acceptor : α) : α :=
  let intrinsic := intrinsicDensity temperature (gapNarrowing donor acceptor)
  thermalVoltage temperature * Scalar.asinh ((donor - acceptor) * 0.5 / intrinsic)

end Silicon

/-! ### The catalogue -/

instance : MaterialKind Material where
  priority
    | .silicon => 0
    | .siliconDioxide => 100
  isSemiconductor
    | .silicon => true
    | .siliconDioxide => false

instance {α : Type} [Scalar α] : MaterialModel Material α where
  permittivity
    | .silicon => 11.7 * vacuumPermittivity
    | .siliconDioxide => 3.9 * vacuumPermittivity
  electronMobility
    | .silicon => 1417.0
    | .siliconDioxide => 0.0
  holeMobility
    | .silicon => 470.5
    | .siliconDioxide => 0.0
  affinity
    | .silicon => 4.17
    | .siliconDioxide => 0.97
  bandGap
    | .silicon => Silicon.bandGap
    | .siliconDioxide => 9.0
  gapNarrowing
    | .silicon => Silicon.gapNarrowing
    | .siliconDioxide => fun _ _ => 0.0
  intrinsicDensity
    | .silicon => Silicon.intrinsicDensity
    | .siliconDioxide => fun _ _ => 0.0
  builtInPotential
    | .silicon => Silicon.builtInPotential
    | .siliconDioxide => fun _ _ _ => 0.0

end CarrierTransport.Physics
