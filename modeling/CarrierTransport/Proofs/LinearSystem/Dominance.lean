import Mathlib
import CarrierTransport.Proofs.LinearSystem.Solve

/-!
# Dominant diagonals

A system whose diagonal outweighs the rest of every row is solved, although elimination goes without
pivoting and divides the columns first, which hides the weights of the rows
(`BlockMatrix.dominant_solved`).

What elimination does to rows it does to columns as well: some combination of the columns up to a
row, the last of them taken once, leaves the pivot in that row and nothing in the rows before
(`Crout.exists_combination`). Undoing the scaling makes it a vector that the system takes to zero in
the rows before. None of these can hold its greatest component, since it would be outweighed there
(`Dominant.le_abs_sum`); so the last component is the greatest, and the pivot keeps the margin of its
own row (`Dominant.le_pivotOf`).
-/

namespace CarrierTransport.LinearSystem

open Finset (range)

variable {α : Type} [ExactScalar α]

/-! ### A combination of columns -/

namespace Factors

variable (F : Factors α) (env : Envelope) (row : Nat)

theorem mulVec_upperMatrix_last (z : Fin (row + 1) → α) :
    (F.upperMatrix env (row + 1)).mulVec z (Fin.last row) = z (Fin.last row) := by
  have hentry : F.upperMatrix env (row + 1) (Fin.last row) = Pi.single (Fin.last row) 1 := by
    funext j
    have hj : F.upperAt env row j = 0 := F.upperAt_of_le (Nat.lt_succ_iff.1 j.isLt)
    simp [upperMatrix, hj, Matrix.one_apply, Pi.single_apply, eq_comm]
  simp [Matrix.mulVec, hentry]

theorem col_lowerMatrix_last :
    (F.lowerMatrix env (row + 1)).col (Fin.last row) =
      fun i : Fin (row + 1) => if (i : Nat) = row then F.pivotAt row else 0 := by
  funext i
  have hi : F.lowerAt env i row = 0 := F.lowerAt_of_le (Nat.lt_succ_iff.1 i.isLt)
  by_cases hrow : (i : Nat) = row
  · rw [hrow] at hi
    simp [lowerMatrix, Matrix.diagonal_apply, Fin.ext_iff, hrow, hi]
  · simp [lowerMatrix, Fin.ext_iff, hrow, hi]

end Factors

/-- Some combination of the columns up to a row leaves the pivot of the row and nothing before. -/
theorem Crout.exists_combination {env : Envelope} {A : Nat → Nat → α} {F : Factors α} {row : Nat}
    (h : Crout env A F (row + 1)) :
    ∃ z : Nat → α, z row = 1 ∧
      ∀ i ≤ row, ∑ j ∈ range (row + 1), A i j * z j = if i = row then F.pivotAt row else 0 := by
  let U := F.upperMatrix env (row + 1)
  have hunit : IsUnit U.det := by
    rw [F.det_upperMatrix]
    exact isUnit_one
  -- the combination is the last column of the inverse of the upper factor
  let z : Fin (row + 1) → α := U⁻¹.mulVec (Pi.single (Fin.last row) 1)
  have hupper : U.mulVec z = Pi.single (Fin.last row) 1 := by
    rw [Matrix.mulVec_mulVec, Matrix.mul_nonsing_inv U hunit, Matrix.one_mulVec]
  have hlast : z (Fin.last row) = 1 := by
    rw [← F.mulVec_upperMatrix_last env row z, hupper, Pi.single_eq_same]
  have hcombined : (leading A (row + 1)).mulVec z =
      fun i : Fin (row + 1) => if (i : Nat) = row then F.pivotAt row else 0 := by
    rw [← h.lowerMatrix_mul_upperMatrix, ← Matrix.mulVec_mulVec, hupper,
      Matrix.mulVec_single_one, F.col_lowerMatrix_last]
  refine ⟨fun j => if hj : j < row + 1 then z ⟨j, hj⟩ else 0, ?_, ?_⟩
  · exact (dif_pos (Nat.lt_succ_self row)).trans hlast
  · intro i hi
    have hentry := congrFun hcombined ⟨i, Nat.lt_succ_of_le hi⟩
    rw [← hentry, Finset.sum_range]
    simp only [Fin.is_lt, dif_pos]
    rfl

namespace BlockMatrix

variable {m : BlockMatrix α} {share : α}

/-! ### Margins -/

/-- In every row the diagonal is not zero and outweighs the rest of the row by a share of itself. -/
structure Dominant (m : BlockMatrix α) (share : α) : Prop where
  diagonal : ∀ row < m.rowCount, m.coefficient row row ≠ 0
  margin : ∀ row < m.rowCount, share * |m.coefficient row row| ≤
    |m.coefficient row row| - ∑ column ∈ (range m.rowCount).erase row, |m.coefficient row column|

/-- Where the greatest component of a vector meets the diagonal, the margin is left of the row. -/
theorem Dominant.le_abs_sum (h : m.Dominant share) {rows i : Nat} (hrows : rows ≤ m.rowCount)
    (hi : i < rows) {x : Nat → α} (hmax : ∀ j < rows, |x j| ≤ |x i|) :
    share * |m.coefficient i i| * |x i| ≤ |∑ j ∈ range rows, m.coefficient i j * x j| := by
  have hrest : |∑ j ∈ (range rows).erase i, m.coefficient i j * x j| ≤
      (∑ j ∈ (range m.rowCount).erase i, |m.coefficient i j|) * |x i| := by
    calc |∑ j ∈ (range rows).erase i, m.coefficient i j * x j|
        ≤ ∑ j ∈ (range rows).erase i, |m.coefficient i j * x j| := Finset.abs_sum_le_sum_abs _ _
      _ ≤ ∑ j ∈ (range rows).erase i, |m.coefficient i j| * |x i| := by
          refine Finset.sum_le_sum fun j hj => ?_
          rw [abs_mul]
          have hlt := Finset.mem_range.1 (Finset.mem_of_mem_erase hj)
          exact mul_le_mul_of_nonneg_left (hmax j hlt) (abs_nonneg _)
      _ = (∑ j ∈ (range rows).erase i, |m.coefficient i j|) * |x i| := by rw [Finset.sum_mul]
      _ ≤ (∑ j ∈ (range m.rowCount).erase i, |m.coefficient i j|) * |x i| := by
          have hsubset : (range rows).erase i ⊆ (range m.rowCount).erase i :=
            Finset.erase_subset_erase _ (Finset.range_subset_range.2 hrows)
          exact mul_le_mul_of_nonneg_right
            (Finset.sum_le_sum_of_subset_of_nonneg hsubset fun _ _ _ => abs_nonneg _)
            (abs_nonneg _)
  have hmargin := mul_le_mul_of_nonneg_right (h.margin i (hi.trans_le hrows)) (abs_nonneg (x i))
  rw [← Finset.add_sum_erase _ _ (Finset.mem_range.2 hi)]
  calc share * |m.coefficient i i| * |x i|
      ≤ |m.coefficient i i * x i| -
          (∑ j ∈ (range m.rowCount).erase i, |m.coefficient i j|) * |x i| := by
        rw [abs_mul, ← sub_mul]
        exact hmargin
    _ ≤ |m.coefficient i i * x i| - |∑ j ∈ (range rows).erase i, m.coefficient i j * x j| :=
        sub_le_sub_left hrest _
    _ ≤ |m.coefficient i i * x i + ∑ j ∈ (range rows).erase i, m.coefficient i j * x j| := by
        have htriangle := abs_sub_abs_le_abs_sub (m.coefficient i i * x i)
          (-∑ j ∈ (range rows).erase i, m.coefficient i j * x j)
        rwa [abs_neg, sub_neg_eq_add] at htriangle

/-- **The pivot of a row keeps its margin**, if elimination comes so far. -/
theorem Dominant.le_pivotOf (h : m.Dominant share) (hm : m.WellFormed) (hshare : 0 < share)
    {row : Nat} (hrow : row < m.rowCount) (hpivot : ∀ i < row, m.pivotOf i ≠ 0) :
    share ≤ |m.pivotOf row| := by
  have hcrout := crout_eliminated (hm.encloses (row + 1)) fun i hi => hpivot i (by omega)
  obtain ⟨z, hlast, hcombined⟩ := hcrout.exists_combination
  rw [pivotAt_eliminated (Nat.lt_succ_self row), ← pivotOf, hm.coefficient_scaled] at hcombined
  let x (j : Nat) : α := z j / m.scaleOf j
  have hsum : ∀ i ≤ row, ∑ j ∈ range (row + 1), m.coefficient i j * x j =
      if i = row then m.pivotOf row else 0 := by
    intro i hi
    rw [← hcombined i hi]
    refine Finset.sum_congr rfl fun j _ => ?_
    simp only [x, scaledCoefficient]
    ring
  have hone : |m.coefficient row row| * |x row| = 1 := by
    have hne := h.diagonal row hrow
    simp only [x, hlast, scaleOf, if_neg hne]
    rw [← abs_mul, mul_one_div_cancel hne, abs_one]
  obtain ⟨i, hi, hmax⟩ := Finset.exists_max_image (range (row + 1)) (fun j => |x j|)
    ⟨row, Finset.self_mem_range_succ row⟩
  rw [Finset.mem_range] at hi
  simp only [Finset.mem_range] at hmax
  have hweight := h.le_abs_sum (by omega) hi hmax
  rw [hsum i (by omega)] at hweight
  rcases eq_or_ne i row with rfl | hne
  · rwa [if_pos rfl, mul_assoc, hone, mul_one] at hweight
  · -- a row before leaves nothing, so it does not hold the greatest component
    rw [if_neg hne, abs_zero] at hweight
    have hpos : 0 < |x i| := by
      refine lt_of_lt_of_le ?_ (hmax row (Nat.lt_succ_self row))
      exact abs_pos.2 fun hzero => by simp [hzero] at hone
    have hdiagonal : 0 < |m.coefficient i i| := abs_pos.2 (h.diagonal i (by omega))
    exact absurd hweight (not_le.2 (by positivity))

theorem Dominant.forall_le_pivotOf (h : m.Dominant share) (hm : m.WellFormed) (hshare : 0 < share) :
    ∀ row < m.rowCount, share ≤ |m.pivotOf row| := by
  intro row
  induction row using Nat.strong_induction_on with
  | _ row ih =>
    intro hrow
    refine h.le_pivotOf hm hshare hrow fun i hi => ?_
    exact abs_pos.1 (hshare.trans_le (ih i hi (hi.trans hrow)))

/-! ### The solve -/

/-- **A dominant system is solved.** Whatever its size, its places and its right hand side: no pivot
is refused, and the solution is the only vector that satisfies every equation. -/
theorem dominant_solved (hm : m.Built) (hmin : 0 < (Scalar.minPositive : α))
    (htolerance : Scalar.minPositive ≤ m.pivotTolerance) (h : m.Dominant m.pivotTolerance) :
    ∃ s, solve m = .ok () s ∧ s.solution.size = m.rowCount ∧
      ∀ x : Nat → α,
        (∀ row < m.rowCount,
          ∑ column ∈ range m.rowCount, m.coefficient row column * x column = m.rhs.getD row 0) ↔
        ∀ row < m.rowCount, x row = s.solution.getD row 0 := by
  have hwell := hm.wellFormed
  have hlarge := h.forall_le_pivotOf hwell (hmin.trans_le htolerance)
  have hsolve := m.solve_eq_ok_of_forall fun row hrow => by
    rw [ExactScalar.abs_eq_abs, not_lt]
    exact hlarge row hrow
  rw [restored_eq] at hsolve
  obtain ⟨hsize, hsolved⟩ := hwell.solves_solutionOf hmin fun row hrow =>
    htolerance.trans (hlarge row hrow)
  refine ⟨_, hsolve, hsize, fun x => ⟨?_, ?_⟩⟩
  · intro hx row hrow
    exact (hwell.solution_eq hmin htolerance hsolve hx row hrow).symm
  · intro hx row hrow
    rw [← hsolved row hrow]
    refine Finset.sum_congr rfl fun column hcolumn => ?_
    rw [hx column (Finset.mem_range.1 hcolumn)]

/-- A dominant system on the star, with signs of both kinds. -/
def heavyStar : BlockMatrix ℚ where
  layout := .ofSizes #[1, 1, 1]
  rows := #[#[⟨0, -3⟩, ⟨1, 1⟩, ⟨2, -1⟩], #[⟨0, 2⟩, ⟨1, 4⟩], #[⟨0, -1⟩, ⟨2, 2⟩]]
  rhs := #[1, 2, 3]
  solution := #[0, 0, 0]
  pivotTolerance := 1 / 3

theorem dominant_solved_heavyStar :
    heavyStar.Built ∧ 0 < (Scalar.minPositive : ℚ) ∧
      Scalar.minPositive ≤ heavyStar.pivotTolerance ∧
      heavyStar.Dominant heavyStar.pivotTolerance ∧
      ∃ s, solve heavyStar = .ok () s ∧
        ∀ row < 3, (#[-1 / 2, 3 / 4, 5 / 4] : Array ℚ).getD row 0 = s.solution.getD row 0 := by
  have hbuilt : heavyStar.Built :=
    .ofTopology starBase.2.1 ⟨rfl, by rw [starBase.2.2]; simp [pattern, heavyStar], rfl, rfl⟩
  have hmin : 0 < (Scalar.minPositive : ℚ) := by decide +kernel
  have htolerance : Scalar.minPositive ≤ heavyStar.pivotTolerance := by decide +kernel
  have hdominant : heavyStar.Dominant heavyStar.pivotTolerance :=
    ⟨by decide +kernel, by decide +kernel⟩
  obtain ⟨s, hs, -, hunique⟩ := dominant_solved hbuilt hmin htolerance hdominant
  refine ⟨hbuilt, hmin, htolerance, hdominant, s, hs, ?_⟩
  apply (hunique fun row => (#[-1 / 2, 3 / 4, 5 / 4] : Array ℚ).getD row 0).1
  decide +kernel

end BlockMatrix

end CarrierTransport.LinearSystem
