import CarrierTransport.Proofs.LinearSystem.Scaling
import CarrierTransport.Proofs.LinearSystem.Substitution

/-!
# What a solve guarantees

Over an exact scalar type a solve that ends without an error leaves a vector that satisfies every
equation of the system, and changes nothing else (`BlockMatrix.solve_correct`). Whether it does end
so is a matter of the leading minors of the scaled coefficients: the pivot of a row is the quotient
of two successive minors, so the first row whose minor is small against the one before is the row
that is refused (`BlockMatrix.solve_refuses_iff`). Minors that are not zero also make the solution
unique, so a solve finds zero only for a right hand side of zeros
(`BlockMatrix.WellFormed.solution_eq_zero_iff`).
-/

namespace CarrierTransport.LinearSystem

namespace BlockMatrix

open Finset (range)
open Mesh (Topology)

variable {α : Type} [ExactScalar α] {m s : BlockMatrix α}

/-! ### The outcome of the factorisation -/

/-- A solve without an error has met no small pivot and changes nothing but the solution. -/
theorem of_solve_eq_ok (h : solve m = .ok () s) :
    (∀ row < m.rowCount, m.pivotTolerance ≤ |m.pivotOf row|) ∧
      s = { m with solution := m.solutionOf } := by
  have hlarge := m.not_small_of_solve_eq_ok h
  rw [m.solve_eq_ok_of_forall hlarge, restored_eq] at h
  cases h
  refine ⟨fun row hrow => ?_, rfl⟩
  have hpivot := hlarge row hrow
  rwa [ExactScalar.abs_eq_abs, not_lt] at hpivot

/-! ### The equations -/

theorem solutionOf_getD (hsize : m.scaledSolution.size = m.rowCount) {column : Nat}
    (h : column < m.rowCount) :
    m.solutionOf.getD column 0 = m.scaledSolution.getD column 0 / m.scaleOf column := by
  rw [← m.diagonalScale_getD h 1, solutionOf, Array.getD_eq_getD_getElem?,
    Array.getD_eq_getD_getElem?, Array.getD_eq_getD_getElem?, Array.getElem?_zipWith,
    Array.getElem?_eq_getElem (by rwa [hsize]),
    Array.getElem?_eq_getElem (by rwa [size_diagonalScale])]
  rfl

theorem WellFormed.mulVec_scaledSolution (hm : m.WellFormed) (hmin : 0 < (Scalar.minPositive : α))
    (hpivot : ∀ row < m.rowCount, Scalar.minPositive ≤ |m.pivotOf row|) :
    m.scaledSolution.size = m.rowCount ∧
      (leading m.scaledCoefficient m.rowCount).mulVec (vector m.scaledSolution m.rowCount) =
        vector m.rhs m.rowCount := by
  have hcrout := crout_eliminated (hm.encloses m.rowCount) fun row hrow =>
    abs_pos.1 (lt_of_lt_of_le hmin (hpivot row (by omega)))
  have hsolved := mulVec_substitute (by rwa [size_envelope]) m.rhs
    (fun row _ => m.start_envelope_le row) hmin fun row hrow => by
      rw [size_envelope] at hrow
      rw [pivotAt_eliminated hrow]
      exact hpivot row hrow
  rw [size_envelope] at hsolved
  rw [← hm.coefficient_scaled]
  exact hsolved

/-- The solution of the scaled system, divided by the scale, solves the system itself. -/
theorem WellFormed.solves_solutionOf (hm : m.WellFormed) (hmin : 0 < (Scalar.minPositive : α))
    (hpivot : ∀ row < m.rowCount, Scalar.minPositive ≤ |m.pivotOf row|) :
    m.solutionOf.size = m.rowCount ∧
      ∀ row < m.rowCount,
        ∑ column ∈ range m.rowCount, m.coefficient row column * m.solutionOf.getD column 0 =
          m.rhs.getD row 0 := by
  obtain ⟨hsize, hsolved⟩ := hm.mulVec_scaledSolution hmin hpivot
  refine ⟨by rw [solutionOf, Array.size_zipWith, hsize, size_diagonalScale, min_self], ?_⟩
  intro row hrow
  -- the factor of a column moves from the solution to the coefficient
  have hterm : ∀ column ∈ range m.rowCount,
      m.coefficient row column * m.solutionOf.getD column 0 =
        m.scaledCoefficient row column * m.scaledSolution.getD column 0 := by
    intro column hcolumn
    rw [solutionOf_getD hsize (Finset.mem_range.1 hcolumn), scaledCoefficient]
    ring
  rw [Finset.sum_congr rfl hterm]
  refine Eq.trans ?_ (congrFun hsolved ⟨row, hrow⟩)
  rw [← Fin.sum_univ_eq_sum_range fun column =>
    m.scaledCoefficient row column * m.scaledSolution.getD column 0]
  rfl

/-! ### The residual -/

/-- The residual of a solution has no norm. -/
theorem WellFormed.residualNorm_eq_zero (hm : m.WellFormed)
    (h : ∀ row < m.rowCount,
      ∑ column ∈ range m.rowCount, m.coefficient row column * m.solution.getD column 0 =
        m.rhs.getD row 0) : m.residualNorm = 0 := by
  have hzero : m.residuals = Array.replicate m.rowCount 0 := by
    refine Array.ext (by simp [residuals, rowCount]) fun row hrow hrow' => ?_
    rw [Array.size_replicate] at hrow'
    have hgetD : m.rows.getD row #[] = m.rows[row] := by
      rw [Array.getD_eq_getD_getElem?, Array.getElem?_eq_getElem hrow', Option.getD_some]
    have hfold := hm.foldl_row (fun column => m.solution.getD column 0) (m.rhs.getD row 0) row
    rw [h row hrow', sub_self, hgetD] at hfold
    simp only [residuals, Array.getElem_mapIdx, Array.getElem_replicate]
    exact hfold
  have hsum : ∀ n : Nat, (Array.replicate n (0 : α)).foldl (fun acc r => acc + r * r) 0 = 0 := by
    intro n
    induction n with
    | zero => rfl
    | succ n ih => rw [Array.replicate_succ, Array.foldl_push, ih, mul_zero, add_zero]
  rw [residualNorm, hzero, hsum, ExactScalar.sqrt_zero]

/-! ### A system on three nodes -/

/-- A node joined with two others. -/
def starMesh : Topology ℚ where
  nodes := #[⟨[0, 1], 0⟩, ⟨[0], 0⟩, ⟨[1], 0⟩]
  elements := #[⟨0, 1, 1, 1, 0⟩, ⟨0, 2, 1, 1, 0⟩]

/-- The empty system of the star. -/
def starBase : { m : BlockMatrix ℚ // ofTopology starMesh #[1, 1, 1] = .ok m ∧
    m.pattern = #[#[0, 1, 2], #[0, 1], #[0, 2]] } :=
  ⟨ofCouplings (.ofSizes #[1, 1, 1]) (.ofPairs 3 [(0, 1), (0, 2)]), by
    have hsizes : #[1, 1, 1].findIdx? (· == 0) = none := by simp
    refine ⟨?_, by decide +kernel⟩
    rw [ofTopology, if_neg (by decide), hsizes]
    rfl⟩

/-- A system on the star. The last two unknowns share no coefficient, but an envelope; the system
is singular for `d = 3 / 5`. -/
def star (d : ℚ) : BlockMatrix ℚ where
  layout := .ofSizes #[1, 1, 1]
  rows := #[#[⟨0, 2⟩, ⟨1, 1⟩, ⟨2, 1⟩], #[⟨0, 1⟩, ⟨1, 3⟩], #[⟨0, 1⟩, ⟨2, d⟩]]
  rhs := #[4, 4, 5]
  solution := #[0, 0, 0]
  pivotTolerance := 1 / 10 ^ 50

theorem built_star (d : ℚ) : (star d).Built :=
  .ofTopology starBase.2.1 ⟨rfl, by rw [starBase.2.2]; simp [pattern, star], rfl, rfl⟩

/-- The regular star, solved. -/
def solvedStar : { s : BlockMatrix ℚ // solve (star 4) = .ok () s } :=
  ⟨{ star 4 with solution := #[1, 1, 1] }, by
    have hpivot : ∀ row < (star 4).rowCount,
        ¬ Scalar.abs ((star 4).pivotOf row) < (star 4).pivotTolerance := by
      decide +kernel
    have hsolution : (star 4).solutionOf = #[1, 1, 1] := by decide +kernel
    rw [(star 4).solve_eq_ok_of_forall hpivot, restored_eq, hsolution]⟩

/-- The row that ends a solve of the singular star. -/
def refusedRow : { row : Nat // ∃ magnitude s,
    solve (star (3 / 5)) = .error (.singularPivot row magnitude) s } :=
  ⟨2, by
    have hsmall : Scalar.abs ((star (3 / 5)).pivotOf 2) < (star (3 / 5)).pivotTolerance := by
      decide +kernel
    have hlarge : ∀ row < 2,
        ¬ Scalar.abs ((star (3 / 5)).pivotOf row) < (star (3 / 5)).pivotTolerance := by
      decide +kernel
    exact ⟨_, _, (star (3 / 5)).solve_eq_error_of_small (by decide) hsmall hlarge⟩⟩

/-! ### Correctness -/

/-- **A solve without an error solves the system.** The solution satisfies every equation, the norm
of the residual is zero, and everything but the solution is as before. -/
theorem solve_correct (hm : m.Built) (hmin : 0 < (Scalar.minPositive : α))
    (htolerance : Scalar.minPositive ≤ m.pivotTolerance) (h : solve m = .ok () s) :
    (s.solution.size = m.rowCount ∧
      ∀ row < m.rowCount,
        ∑ column ∈ range m.rowCount, m.coefficient row column * s.solution.getD column 0 =
          m.rhs.getD row 0) ∧
      s.residualNorm = 0 ∧ s = { m with solution := s.solution } := by
  have hwell := hm.wellFormed
  obtain ⟨hpivot, rfl⟩ := of_solve_eq_ok h
  obtain ⟨hsize, hsolved⟩ := hwell.solves_solutionOf hmin fun row hrow =>
    htolerance.trans (hpivot row hrow)
  refine ⟨⟨hsize, hsolved⟩, ?_, rfl⟩
  have hsame : m.SamePlaces { m with solution := m.solutionOf } :=
    ⟨rfl, rfl, rfl, hsize.trans hwell.solution_size.symm⟩
  exact (hwell.of_samePlaces hsame).residualNorm_eq_zero hsolved

theorem solve_correct_star :
    0 < (Scalar.minPositive : ℚ) ∧ Scalar.minPositive ≤ (star 4).pivotTolerance ∧
      (∀ row < 3, ∑ column ∈ range 3, (star 4).coefficient row column *
        (#[1, 1, 1] : Array ℚ).getD column 0 = (star 4).rhs.getD row 0) ∧
      solvedStar.val.residualNorm = 0 := by
  have hmin : 0 < (Scalar.minPositive : ℚ) := by norm_num [Scalar.minPositive]
  have htolerance : Scalar.minPositive ≤ (star 4).pivotTolerance := by
    rw [show (Scalar.minPositive : ℚ) = 1 / 10 ^ 300 from rfl, star]
    exact one_div_le_one_div_of_le (by positivity) (pow_le_pow_right₀ (by norm_num) (by norm_num))
  obtain ⟨⟨-, hsolved⟩, hresidual, -⟩ :=
    solve_correct (built_star 4) hmin htolerance solvedStar.property
  exact ⟨hmin, htolerance, hsolved, hresidual⟩

/-! ### Refusal -/

/-- The leading minors of the scaled coefficients. -/
def leadingMinor (m : BlockMatrix α) (rows : Nat) : α :=
  (leading m.scaledCoefficient rows).det

/-- The minor that ends with a row is small against the minor before it. -/
def SmallMinor (m : BlockMatrix α) (row : Nat) : Prop :=
  |m.leadingMinor (row + 1)| < m.pivotTolerance * |m.leadingMinor row|

/-- Of the rows with a small minor this is the first. -/
def FirstSmallMinor (m : BlockMatrix α) (row : Nat) : Prop :=
  row < m.rowCount ∧ m.SmallMinor row ∧ ∀ i < row, ¬ m.SmallMinor i

/-- A minor behind pivots that are not zero is not zero, and the next one is its multiple by the
pivot. -/
theorem WellFormed.leadingMinor_succ (hm : m.WellFormed) {row : Nat}
    (hpivot : ∀ i < row, m.pivotOf i ≠ 0) :
    m.leadingMinor row ≠ 0 ∧ m.leadingMinor (row + 1) = m.leadingMinor row * m.pivotOf row := by
  have hcrout := crout_eliminated (hm.encloses (row + 1)) fun i hi => hpivot i (by omega)
  have hmet : ∀ i ≤ row, (eliminated m.envelope m.scaled.coefficient (row + 1)).pivotAt i =
      m.pivotOf i := fun i hi => pivotAt_eliminated (by omega)
  have hminor : m.leadingMinor row = ∏ i ∈ range row, m.pivotOf i := by
    rw [leadingMinor, ← hm.coefficient_scaled, (hcrout.mono (Nat.le_succ row)).det_leading]
    exact Finset.prod_congr rfl fun i hi => hmet i (Finset.mem_range.1 hi).le
  refine ⟨?_, ?_⟩
  · rw [hminor]
    exact Finset.prod_ne_zero_iff.2 fun i hi => hpivot i (Finset.mem_range.1 hi)
  · rw [leadingMinor, ← hm.coefficient_scaled, hcrout.det_leading, Finset.prod_range_succ,
      hmet row le_rfl, hminor]
    congr 1
    exact Finset.prod_congr rfl fun i hi => hmet i (Finset.mem_range.1 hi).le

theorem WellFormed.smallMinor_iff (hm : m.WellFormed) {row : Nat}
    (hpivot : ∀ i < row, m.pivotOf i ≠ 0) :
    m.SmallMinor row ↔ |m.pivotOf row| < m.pivotTolerance := by
  obtain ⟨hne, hsucc⟩ := hm.leadingMinor_succ hpivot
  rw [SmallMinor, hsucc, abs_mul, mul_comm]
  exact mul_lt_mul_iff_left₀ (abs_pos.2 hne)

/-- The pivots before a row are all large if and only if the minors are. -/
theorem WellFormed.forall_smallMinor_iff (hm : m.WellFormed) (htolerance : 0 < m.pivotTolerance)
    (row : Nat) :
    (∀ i < row, ¬ m.SmallMinor i) ↔ ∀ i < row, ¬ |m.pivotOf i| < m.pivotTolerance := by
  have hne : ∀ i, ¬ |m.pivotOf i| < m.pivotTolerance → m.pivotOf i ≠ 0 := fun i hi =>
    abs_pos.1 (lt_of_lt_of_le htolerance (not_lt.1 hi))
  induction row with
  | zero => simp
  | succ row ih =>
    rw [Nat.forall_lt_succ_right, Nat.forall_lt_succ_right]
    refine (and_congr_left' ih).trans (and_congr_right fun hlarge => not_congr ?_)
    exact hm.smallMinor_iff fun i hi => hne i (hlarge i hi)

theorem WellFormed.solve_eq_error (hm : m.WellFormed) (htolerance : 0 < m.pivotTolerance)
    {row : Nat} (h : m.FirstSmallMinor row) :
    solve m = .error (.singularPivot row |m.pivotOf row|) m := by
  obtain ⟨hrow, hsmall, hfirst⟩ := h
  have hlarge := (hm.forall_smallMinor_iff htolerance row).1 hfirst
  have hne : ∀ i < row, m.pivotOf i ≠ 0 := fun i hi =>
    abs_pos.1 (lt_of_lt_of_le htolerance (not_lt.1 (hlarge i hi)))
  have hpivot := (hm.smallMinor_iff hne).1 hsmall
  simp only [← ExactScalar.abs_eq_abs] at hpivot hlarge ⊢
  rw [m.solve_eq_error_of_small hrow hpivot hlarge, restored_eq]

theorem WellFormed.solve_eq_ok (hm : m.WellFormed) (htolerance : 0 < m.pivotTolerance)
    (h : ∀ row, ¬ m.FirstSmallMinor row) : ∃ s, solve m = .ok () s := by
  have hnone : ∀ row < m.rowCount, ¬ m.SmallMinor row := by
    intro row
    induction row using Nat.strong_induction_on with
    | _ row ih => exact fun hrow hsmall => h row ⟨hrow, hsmall, fun i hi => ih i hi (by omega)⟩
  have hlarge := (hm.forall_smallMinor_iff htolerance m.rowCount).1 hnone
  simp only [← ExactScalar.abs_eq_abs] at hlarge
  exact ⟨_, m.solve_eq_ok_of_forall hlarge⟩

/-- **When a solve is refused.** A row is reported if and only if its leading minor is the first
that is small against the one before it; without such a row the solve succeeds. A refused solve
leaves the system as it was. -/
theorem solve_refuses_iff (hm : m.Built) (htolerance : 0 < m.pivotTolerance) :
    (∀ row, (∃ magnitude s, solve m = .error (.singularPivot row magnitude) s) ↔
        m.FirstSmallMinor row) ∧
      ((∀ row, ¬ m.FirstSmallMinor row) → ∃ s, solve m = .ok () s) ∧
      ∀ e s, solve m = .error e s → s = m := by
  have hwell := hm.wellFormed
  refine ⟨fun row => ⟨?_, ?_⟩, hwell.solve_eq_ok htolerance, ?_⟩
  · rintro ⟨magnitude, s, h⟩
    by_cases hfirst : ∃ row', m.FirstSmallMinor row'
    · obtain ⟨row', hrow'⟩ := hfirst
      rw [hwell.solve_eq_error htolerance hrow'] at h
      cases h
      exact hrow'
    · obtain ⟨s', hs'⟩ := hwell.solve_eq_ok htolerance (not_exists.1 hfirst)
      rw [hs'] at h
      cases h
  · intro h
    exact ⟨_, _, hwell.solve_eq_error htolerance h⟩
  · intro e s h
    rw [solve_eq_factorise] at h
    split at h
    · cases h
      exact m.restored_eq
    · cases h

/-- Row 2 of the singular star is refused, so its leading minor is the first small one. -/
theorem firstSmallMinor_star :
    0 < (star (3 / 5)).pivotTolerance ∧ (star (3 / 5)).FirstSmallMinor 2 := by
  have htolerance : 0 < (star (3 / 5)).pivotTolerance := by
    rw [star]
    positivity
  exact ⟨htolerance,
    ((solve_refuses_iff (built_star (3 / 5)) htolerance).1 2).1 refusedRow.property⟩

/-! ### Uniqueness -/

/-- **A solve finds the only solution**: whatever satisfies the equations is what it has found. -/
theorem WellFormed.solution_eq (hm : m.WellFormed) (hmin : 0 < (Scalar.minPositive : α))
    (htolerance : Scalar.minPositive ≤ m.pivotTolerance) (h : solve m = .ok () s) {x : Nat → α}
    (hx : ∀ row < m.rowCount,
      ∑ column ∈ range m.rowCount, m.coefficient row column * x column = m.rhs.getD row 0) :
    ∀ row < m.rowCount, s.solution.getD row 0 = x row := by
  obtain ⟨hlarge, rfl⟩ := of_solve_eq_ok h
  have hpivot : ∀ row < m.rowCount, Scalar.minPositive ≤ |m.pivotOf row| := fun row hrow =>
    htolerance.trans (hlarge row hrow)
  obtain ⟨hsize, hscaled⟩ := hm.mulVec_scaledSolution hmin hpivot
  have hminor : m.leadingMinor m.rowCount ≠ 0 :=
    (hm.leadingMinor_succ fun i hi => abs_pos.1 (lt_of_lt_of_le hmin (hpivot i hi))).1
  -- the scaled coefficients take the scaled values to the right hand side as well
  have hx' : (leading m.scaledCoefficient m.rowCount).mulVec
      (fun i : Fin m.rowCount => m.scaleOf i * x i) = vector m.rhs m.rowCount := by
    funext row
    change ∑ column : Fin m.rowCount, m.coefficient row column / m.scaleOf column *
      (m.scaleOf column * x column) = m.rhs.getD row 0
    rw [← hx row row.isLt, ← Fin.sum_univ_eq_sum_range fun column =>
      m.coefficient row column * x column]
    refine Finset.sum_congr rfl fun column _ => ?_
    rw [← mul_assoc, div_mul_cancel₀ _ (m.scaleOf_ne_zero column)]
  have hvanish := Matrix.eq_zero_of_mulVec_eq_zero hminor
    ((Matrix.mulVec_sub _ _ _).trans (sub_eq_zero.2 (hscaled.trans hx'.symm)))
  intro row hrow
  have hentry : m.scaledSolution.getD row 0 = m.scaleOf row * x row :=
    sub_eq_zero.1 (congrFun hvanish ⟨row, hrow⟩)
  rw [solutionOf_getD hsize hrow, hentry, mul_div_cancel_left₀ _ (m.scaleOf_ne_zero row)]

/-- **A solve finds zero if and only if there is nothing on the right hand side.** -/
theorem WellFormed.solution_eq_zero_iff (hm : m.WellFormed) (hmin : 0 < (Scalar.minPositive : α))
    (htolerance : Scalar.minPositive ≤ m.pivotTolerance) (h : solve m = .ok () s) :
    (∀ row, s.solution.getD row 0 = 0) ↔ ∀ row, m.rhs.getD row 0 = 0 := by
  have hunique := hm.solution_eq hmin htolerance h (x := fun _ => 0)
  obtain ⟨hlarge, rfl⟩ := of_solve_eq_ok h
  obtain ⟨hsize, hsolved⟩ := hm.solves_solutionOf hmin fun row hrow =>
    htolerance.trans (hlarge row hrow)
  have hbeyond : ∀ (a : Array α) (row : Nat), a.size = m.rowCount → m.rowCount ≤ row →
      a.getD row 0 = 0 := by
    intro a row ha hrow
    rw [Array.getD_eq_getD_getElem?, Array.getElem?_eq_none (by omega), Option.getD_none]
  constructor
  · intro hzero row
    rcases Nat.lt_or_ge row m.rowCount with hrow | hrow
    · rw [← hsolved row hrow]
      apply Finset.sum_eq_zero
      intro column _
      rw [hzero column, mul_zero]
    · exact hbeyond _ row hm.rhs_size hrow
  · intro hzero row
    rcases Nat.lt_or_ge row m.rowCount with hrow | hrow
    · refine hunique (fun row _ => ?_) row hrow
      rw [hzero row]
      exact Finset.sum_eq_zero fun _ _ => mul_zero _
    · exact hbeyond _ row hsize hrow

end BlockMatrix

end CarrierTransport.LinearSystem
