import CarrierTransport.Proofs.LinearSystem.Scaling
import CarrierTransport.Proofs.Scalar.Comparison

/-!
# Zero pivots in floating point

A pivot is refused when its magnitude is strictly below the tolerance. The magnitude of a zero is
zero, so a zero pivot is refused, there or before, exactly if the tolerance is positive
(`BlockMatrix.refuses_zero_pivot_iff`), and without a positive tolerance no solve is refused at all.

The tolerance that a new matrix has is a constant of double precision far below the least number of
single precision, where it becomes zero. By default, therefore, a zero pivot is always refused in
double and never in single precision (`BlockMatrix.zero_pivot_default`).
-/

namespace CarrierTransport.LinearSystem.BlockMatrix

/-! ### Any tolerance -/

section Tolerance

variable {α : Type} [IeeeScalar α] (m : BlockMatrix α)

/-- A solve is refused at a row or before it, with the solution as it was. -/
def RefusedUpTo (row : Nat) : Prop :=
  ∃ row' ≤ row, ∃ magnitude s,
    solve m = .error (.singularPivot row' magnitude) s ∧ s.solution = m.solution

/-- A small pivot is refused, or one before it. -/
theorem refusedUpTo_of_small {row : Nat} (hrow : row < m.rowCount)
    (hsmall : Scalar.abs (m.pivotOf row) < m.pivotTolerance) : m.RefusedUpTo row := by
  induction row using Nat.strong_induction_on with
  | _ row ih =>
    by_cases hearlier : ∃ i < row, Scalar.abs (m.pivotOf i) < m.pivotTolerance
    · obtain ⟨i, hi, hsmall'⟩ := hearlier
      obtain ⟨row', hrow', hrefused⟩ := ih i hi (hi.trans hrow) hsmall'
      exact ⟨row', hrow'.trans hi.le, hrefused⟩
    · have hfirst : ∀ i < row, ¬ Scalar.abs (m.pivotOf i) < m.pivotTolerance := fun i hi hsmall' =>
        hearlier ⟨i, hi, hsmall'⟩
      exact ⟨row, le_rfl, _, _, m.solve_eq_error_of_small hrow hsmall hfirst, rfl⟩

theorem solve_eq_ok_of_not_pos (h : ¬ 0 < m.pivotTolerance) : ∃ s, solve m = .ok () s :=
  ⟨_, m.solve_eq_ok_of_forall fun row _ => IeeeScalar.not_abs_lt (m.pivotOf row) h⟩

/-- **A zero pivot is refused if and only if the tolerance is positive.** -/
theorem refuses_zero_pivot_iff {row : Nat} (hrow : row < m.rowCount) (hzero : m.pivotOf row == 0) :
    m.RefusedUpTo row ↔ 0 < m.pivotTolerance := by
  constructor
  · rintro ⟨row', -, magnitude, s, hrefused, -⟩
    by_contra hpos
    obtain ⟨s', hok⟩ := m.solve_eq_ok_of_not_pos hpos
    rw [hok] at hrefused
    cases hrefused
  · intro hpos
    exact m.refusedUpTo_of_small hrow (IeeeScalar.abs_lt_of_beq_zero hzero hpos)

end Tolerance

/-! ### The default tolerance -/

/-- The precisions that a solve runs in. -/
inductive Precision
  | single
  | double

namespace Precision

/-- The numbers of a precision. -/
def Number : Precision → Type
  | single => Float32
  | double => Float

instance : (p : Precision) → IeeeScalar p.Number
  | single => inferInstanceAs (IeeeScalar Float32)
  | double => inferInstanceAs (IeeeScalar Float)

/-- In single precision the constant is rounded to zero. -/
theorem defaultPivotTolerance_pos_iff (p : Precision) :
    (0 : p.Number) < defaultPivotTolerance ↔ p = double := by
  cases p with
  | single =>
    have hzero : ¬ (0 : Float32) < defaultPivotTolerance := by decide
    exact iff_of_false hzero nofun
  | double =>
    have hpos : (0 : Float) < defaultPivotTolerance := by decide
    exact iff_of_true hpos rfl

end Precision

/-- **Zero pivots at the default tolerance.** A zero pivot is refused, there or in an earlier row
and with the solution as it was, if and only if the precision is double. In single precision every
solve succeeds, whatever pivots it meets. -/
theorem zero_pivot_default (p : Precision) (m : BlockMatrix p.Number)
    (htolerance : m.pivotTolerance = defaultPivotTolerance) :
    (∀ row < m.rowCount, m.pivotOf row == 0 → (m.RefusedUpTo row ↔ p = .double)) ∧
      (p = .single → ∃ s, solve m = .ok () s) := by
  constructor
  · intro row hrow hzero
    rw [m.refuses_zero_pivot_iff hrow hzero, htolerance]
    exact p.defaultPivotTolerance_pos_iff
  · intro hsingle
    apply m.solve_eq_ok_of_not_pos
    rw [htolerance, p.defaultPivotTolerance_pos_iff, hsingle]
    nofun

/-- A system of two uncoupled unknowns, without an equation for the second. -/
def halfEmpty (α : Type) [Scalar α] : BlockMatrix α where
  layout := .ofSizes #[1, 1]
  rows := #[#[⟨0, 1⟩], #[⟨1, 0⟩]]
  rhs := #[1, 1]
  solution := #[0, 0]
  pivotTolerance := defaultPivotTolerance

/-- In double precision the second row is refused, in single precision the solve succeeds. -/
theorem zero_pivot_halfEmpty :
    (1 < (halfEmpty Float).rowCount ∧ ((halfEmpty Float).pivotOf 1 == 0) = true ∧
      (halfEmpty Float).RefusedUpTo 1) ∧
    (1 < (halfEmpty Float32).rowCount ∧ ((halfEmpty Float32).pivotOf 1 == 0) = true ∧
      ¬ (halfEmpty Float32).RefusedUpTo 1 ∧ ∃ s, solve (halfEmpty Float32) = .ok () s) := by
  have hrow : 1 < (halfEmpty Float).rowCount := by decide
  have hrow' : 1 < (halfEmpty Float32).rowCount := by decide
  have hzero : ((halfEmpty Float).pivotOf 1 == 0) = true := by decide +kernel
  have hzero' : ((halfEmpty Float32).pivotOf 1 == 0) = true := by decide +kernel
  obtain ⟨hrefused, -⟩ := zero_pivot_default .double (halfEmpty Float) rfl
  obtain ⟨hrefused', hok⟩ := zero_pivot_default .single (halfEmpty Float32) rfl
  refine ⟨⟨hrow, hzero, (hrefused 1 hrow hzero).2 rfl⟩, hrow', hzero', ?_, hok rfl⟩
  intro h
  cases (hrefused' 1 hrow' hzero').1 h

end CarrierTransport.LinearSystem.BlockMatrix
