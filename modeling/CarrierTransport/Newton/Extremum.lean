import CarrierTransport.Decimal.Scientific

/-!
# Extrema

The signed value of largest magnitude among diagnostics, and the node it sits on. Values are
offered one after the other; of equal magnitudes the first is kept or the last, by the rule that
the diagnostic asks for.
-/

namespace CarrierTransport.Newton

/-- The value of largest magnitude so far and its node. -/
structure Extremum (α : Type) where
  node : Option Nat
  value : α
deriving Repr

namespace Extremum

variable {α : Type} [Scalar α]

def none : Extremum α :=
  ⟨Option.none, 0⟩

def magnitude (e : Extremum α) : α :=
  Scalar.abs e.value

/-- The extremum after a value that replaces it if strictly larger in magnitude. -/
def offer (e : Extremum α) (node : Nat) (value : α) : Extremum α :=
  if e.magnitude < Scalar.abs value then ⟨some node, value⟩ else e

/-- The extremum after a value that replaces it if at least as large in magnitude. -/
def offerInclusive (e : Extremum α) (node : Nat) (value : α) : Extremum α :=
  if e.magnitude ≤ Scalar.abs value then ⟨some node, value⟩ else e

/-- The extremum in words, to seven significant digits. -/
def text {β : Type} [BinaryScalar β] (e : Extremum β) : String :=
  match e.node with
  | some node => s!"{Decimal.toDigits 7 e.value} at node {node}"
  | .none => "none"

end Extremum

end CarrierTransport.Newton
