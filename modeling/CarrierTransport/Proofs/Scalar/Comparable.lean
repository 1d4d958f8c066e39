import Mathlib
import CarrierTransport.Proofs.Scalar.Comparison
import CarrierTransport.Proofs.Scalar.Exact

/-!
# Values kept at a floor

Over every scalar type of a simulation the larger of a value and a bound is a number that is not
below the bound, also where the value is none: it is the bound then. That takes a scalar type whose
numbers can be compared with each other (`ComparableScalar`), and both the binary scalar types and
the exact ones are of this kind.
-/

namespace CarrierTransport

open Float.Model (UnpackedFloat)

/-- The value is a number: what is none does not even equal itself. -/
def Scalar.IsNumber {α : Type} [Scalar α] (a : α) : Prop :=
  (a == a) = true

/-- A scalar type whose numbers can be compared with each other. -/
class ComparableScalar (α : Type) [Scalar α] : Prop where
  le_self {a : α} (ha : Scalar.IsNumber a) : a ≤ a
  le_of_not_lt {a b : α} (ha : Scalar.IsNumber a) (hb : Scalar.IsNumber b) (h : ¬ a < b) : b ≤ a

/-- The value is a number and not below the bound. -/
def Scalar.IsFloored {α : Type} [Scalar α] (floor a : α) : Prop :=
  Scalar.IsNumber a ∧ floor ≤ a

theorem ComparableScalar.isFloored_larger {α : Type} [Scalar α] [ComparableScalar α] {floor : α}
    (hfloor : Scalar.IsNumber floor) (a : α) : Scalar.IsFloored floor (Scalar.larger a floor) := by
  unfold Scalar.larger
  split
  · exact ⟨hfloor, le_self hfloor⟩
  · next hlt =>
    split
    · next ha => exact ⟨ha, le_of_not_lt ha hfloor hlt⟩
    · exact ⟨hfloor, le_self hfloor⟩

theorem IeeeScalar.isNumber_iff {α : Type} [IeeeScalar α] (a : α) :
    Scalar.IsNumber a ↔ IeeeScalar.IsNumber a := by
  rw [Scalar.IsNumber, beq_iff, IsNumber]
  rcases BinaryScalar.unpack a with ⟨_ | _⟩ | _ | ⟨_⟩ | ⟨_ | _⟩ <;>
    simp [UnpackedFloat.beq, UnpackedFloat.compare, UnpackedFloat.isNaN]

instance {α : Type} [IeeeScalar α] : ComparableScalar α where
  le_self {a} ha := by
    rw [IeeeScalar.isNumber_iff, IeeeScalar.isNumber_iff_rankOf] at ha
    obtain ⟨x, hx⟩ := ha
    exact (IeeeScalar.le_iff_rankOf a a).2 ⟨x, hx, x, hx, le_rfl⟩
  le_of_not_lt {a b} ha hb h := by
    rw [IeeeScalar.isNumber_iff, IeeeScalar.isNumber_iff_rankOf] at ha hb
    obtain ⟨x, hx⟩ := ha
    obtain ⟨y, hy⟩ := hb
    refine (IeeeScalar.le_iff_rankOf b a).2 ⟨y, hy, x, hx, not_lt.1 fun hxy => ?_⟩
    exact h ((IeeeScalar.lt_iff_rankOf a b).2 ⟨x, hx, y, hy, hxy⟩)

instance {α : Type} [ExactScalar α] : ComparableScalar α where
  le_self _ := le_rfl
  le_of_not_lt _ _ h := not_lt.1 h

end CarrierTransport
