import CarrierTransport.Proofs.LinearSystem.Crout

/-!
# Substitution solves both triangular systems

Substitution runs down the rows of the lower factor and up the columns of the upper one. On the way
down the unknowns found so far are final; on the way up an unknown is final as soon as its row has
been reached, and the right hand sides above it have lost its terms. Together with the product of
the factors, substitution solves the factored system (`mulVec_substitute`). The guard against tiny
divisors never acts where every pivot has full precision.
-/

namespace CarrierTransport.LinearSystem

open Finset (range)

variable {α : Type} [ExactScalar α] {env : Envelope} {F : Factors α}

/-! ### Downwards -/

theorem divisor_of_le {pivot : α} (h : Scalar.minPositive ≤ |pivot|) : divisor pivot = pivot := by
  rw [divisor, ExactScalar.abs_eq_abs, if_neg (not_lt.2 h)]

/-- The terms before the envelope of a row vanish. -/
theorem sum_lowerAt_eq_sum_range {row : Nat} (y : Nat → α) :
    ∑ k ∈ Finset.Ico (env.start row) row, F.lowerAt env row k * y k =
      ∑ k ∈ range row, F.lowerAt env row k * y k :=
  Loop.sum_Ico_eq_sum_range fun k hk => by
    rw [F.lowerAt_eq_entry, env.entry_of_lt_start hk, zero_mul]

theorem forwardRow_eq (b y : Array α) {row : Nat} (hstart : env.start row ≤ row)
    (hpivot : Scalar.minPositive ≤ |F.pivotAt row|) :
    forwardRow env F b y row =
      y.push ((b.getD row 0 - ∑ k ∈ range row, F.lowerAt env row k * y.getD k 0) /
        F.pivotAt row) := by
  rw [forwardRow, divisor_of_le hpivot, Envelope.columns, Loop.foldl_range'_sub,
    Nat.add_sub_cancel' hstart, sum_lowerAt_eq_sum_range fun k => y.getD k 0]

/-- The unknowns found for the first rows of the lower factor. -/
structure SolvesLower (env : Envelope) (F : Factors α) (b : Array α) (rows : Nat) (y : Array α) :
    Prop where
  size : y.size = rows
  eq : ∀ i < rows, ∑ k ∈ range i, F.lowerAt env i k * y.getD k 0 + F.pivotAt i * y.getD i 0 =
    b.getD i 0

theorem SolvesLower.step {b y : Array α} {row : Nat} (h : SolvesLower env F b row y)
    (hstart : env.start row ≤ row) (hpivot : Scalar.minPositive ≤ |F.pivotAt row|)
    (hne : F.pivotAt row ≠ 0) : SolvesLower env F b (row + 1) (forwardRow env F b y row) := by
  obtain ⟨v, hv⟩ : ∃ v, v = (b.getD row 0 - ∑ k ∈ range row, F.lowerAt env row k * y.getD k 0) /
    F.pivotAt row := ⟨_, rfl⟩
  have hpush : ∀ k, (y.push v).getD k 0 = if k = row then v else y.getD k 0 := by
    intro k
    rw [Array.getD_eq_getD_getElem?, Array.getD_eq_getD_getElem?, Array.getElem?_push, h.size]
    split_ifs <;> rfl
  rw [forwardRow_eq b y hstart hpivot, ← hv]
  constructor
  case size => rw [Array.size_push, h.size]
  case eq =>
    intro i hi
    have hsum : ∑ k ∈ range i, F.lowerAt env i k * (y.push v).getD k 0 =
        ∑ k ∈ range i, F.lowerAt env i k * y.getD k 0 :=
      Finset.sum_congr rfl fun k hk => by
        rw [hpush, if_neg (by rw [Finset.mem_range] at hk; omega)]
    rw [hsum, hpush]
    rcases Nat.lt_or_eq_of_le (Nat.lt_succ_iff.1 hi) with hi | rfl
    · rw [if_neg (by omega), h.eq i hi]
    · rw [if_pos rfl, hv, mul_div_cancel₀ _ hne, add_sub_cancel]

theorem solvesLower_forward (b : Array α) {rows : Nat} (hstart : ∀ i < rows, env.start i ≤ i)
    (hpivot : ∀ i < rows, Scalar.minPositive ≤ |F.pivotAt i|) (hne : ∀ i < rows, F.pivotAt i ≠ 0) :
    SolvesLower env F b rows ((List.range rows).foldl (forwardRow env F b) #[]) :=
  Loop.foldl_range_invariant (SolvesLower env F b) ⟨rfl, by omega⟩ fun row _ hrow h =>
    h.step (hstart row hrow) (hpivot row hrow) (hne row hrow)

/-! ### Upwards -/

theorem getD_modify {β : Type} (values : Array β) (k : Nat) (f : β → β) (d : β) {j : Nat}
    (hj : j < values.size) :
    (values.modify k f).getD j d = if k = j then f (values.getD j d) else values.getD j d := by
  rw [Array.getD_eq_getD_getElem?, Array.getD_eq_getD_getElem?, Array.getElem?_modify,
    Array.getElem?_eq_getElem hj]
  split_ifs <;> rfl

/-- The right hand sides `x` when the terms of the unknown of `row` have been taken off the rows of
its envelope before `k`. -/
structure TermsTaken (env : Envelope) (F : Factors α) (x : Array α) (row k : Nat) (z : Array α) :
    Prop where
  size : z.size = x.size
  entry : ∀ j < x.size, z.getD j 0 =
    if env.start row ≤ j ∧ j < k then x.getD j 0 - F.upperAt env j row * x.getD row 0
    else x.getD j 0

theorem TermsTaken.step {x z : Array α} {row k : Nat} (h : TermsTaken env F x row k z)
    (hk : env.start row ≤ k) :
    TermsTaken env F x row (k + 1)
      (z.modify k fun v => v - F.upperAt env k row * x.getD row 0) := by
  refine ⟨by rw [Array.size_modify, h.size], fun j hj => ?_⟩
  rw [getD_modify _ _ _ _ (by rwa [h.size]), h.entry j hj]
  by_cases hkj : k = j
  · rw [if_pos hkj, if_neg (by omega), if_pos (by omega), hkj]
  · rw [if_neg hkj]
    by_cases hj' : env.start row ≤ j ∧ j < k
    · rw [if_pos hj', if_pos (by omega)]
    · rw [if_neg hj', if_neg (by omega)]

/-- A known unknown of the upper factor, with its terms taken off all right hand sides. -/
theorem backwardRow_spec (x : Array α) {row : Nat} (hstart : env.start row ≤ row) :
    (backwardRow env F x row).size = x.size ∧
      ∀ j < x.size, (backwardRow env F x row).getD j 0 =
        x.getD j 0 - F.upperAt env j row * x.getD row 0 := by
  have hloop : TermsTaken env F x row (env.start row + (row - env.start row))
      (backwardRow env F x row) :=
    Loop.foldl_range'_invariant (TermsTaken env F x row)
      ⟨rfl, fun j hj => by rw [if_neg (by omega)]⟩ fun k z hk _ h => h.step hk
  rw [Nat.add_sub_cancel' hstart] at hloop
  refine ⟨hloop.size, fun j hj => ?_⟩
  rw [hloop.entry j hj]
  by_cases hj' : env.start row ≤ j ∧ j < row
  · rw [if_pos hj']
  · rw [if_neg hj', F.upperAt_eq_entry, env.entry_eq_ite, if_neg hj', zero_mul, sub_zero]

/-- The unknowns of the upper factor from `row` on, their terms taken off all right hand sides. -/
structure SolvesUpper (env : Envelope) (F : Factors α) (y : Array α) (rows row : Nat)
    (x : Array α) : Prop where
  size : x.size = rows
  eq : ∀ i < rows, x.getD i 0 + ∑ k ∈ Finset.Ico row rows, F.upperAt env i k * x.getD k 0 =
    y.getD i 0

theorem SolvesUpper.step {y x : Array α} {rows row : Nat}
    (h : SolvesUpper env F y rows (row + 1) x) (hrow : row < rows)
    (hstart : env.start row ≤ row) : SolvesUpper env F y rows row (backwardRow env F x row) := by
  obtain ⟨hsize, hentry⟩ := backwardRow_spec (F := F) x hstart
  rw [h.size] at hsize hentry
  -- the unknowns from `row` on are final
  have hfinal : ∀ k, row ≤ k → k < rows → (backwardRow env F x row).getD k 0 = x.getD k 0 := by
    intro k hk hlt
    rw [hentry k hlt, F.upperAt_of_le hk, zero_mul, sub_zero]
  refine ⟨hsize, fun i hi => ?_⟩
  have hsum : ∑ k ∈ Finset.Ico row rows, F.upperAt env i k * (backwardRow env F x row).getD k 0 =
      ∑ k ∈ Finset.Ico row rows, F.upperAt env i k * x.getD k 0 :=
    Finset.sum_congr rfl fun k hk => by
      rw [Finset.mem_Ico] at hk
      rw [hfinal k hk.1 hk.2]
  rw [hsum, hentry i hi, Finset.sum_eq_sum_Ico_succ_bot hrow, ← h.eq i hi]
  ring

theorem solvesUpper_backward (y : Array α) {rows : Nat} (hsize : y.size = rows)
    (hstart : ∀ i < rows, env.start i ≤ i) :
    SolvesUpper env F y rows 0 ((List.range rows).reverse.foldl (backwardRow env F) y) :=
  Loop.foldl_reverse_range_invariant (SolvesUpper env F y rows) ⟨hsize, by simp⟩
    fun row _ hrow h => h.step hrow (hstart row hrow)

/-! ### Both ways -/

/-- The first entries of an array as a vector. -/
def vector {β : Type} [Zero β] (values : Array β) (rows : Nat) : Fin rows → β :=
  fun i => values.getD i 0

/-- **Substitution solves the factored system.** -/
theorem mulVec_substitute {A : Nat → Nat → α} (hF : Crout env A F env.size) (b : Array α)
    (hstart : ∀ i < env.size, env.start i ≤ i) (hmin : 0 < (Scalar.minPositive : α))
    (hpivot : ∀ i < env.size, Scalar.minPositive ≤ |F.pivotAt i|) :
    (substitute env F b).size = env.size ∧
      (leading A env.size).mulVec (vector (substitute env F b) env.size) =
        vector b env.size := by
  have hne : ∀ i < env.size, F.pivotAt i ≠ 0 := fun i hi =>
    abs_pos.1 (lt_of_lt_of_le hmin (hpivot i hi))
  have hy := solvesLower_forward b hstart hpivot hne
  obtain ⟨y, hydef⟩ : ∃ y, y = (List.range env.size).foldl (forwardRow env F b) #[] := ⟨_, rfl⟩
  rw [← hydef] at hy
  have hx := solvesUpper_backward (F := F) y hy.size hstart
  have hsub : substitute env F b = (List.range env.size).reverse.foldl (backwardRow env F) y := by
    rw [hydef]
    rfl
  rw [← hsub] at hx
  refine ⟨hx.size, ?_⟩
  have hupper : (F.upperMatrix env env.size).mulVec (vector (substitute env F b) env.size) =
      vector y env.size := by
    funext i
    rw [Factors.upperMatrix, Matrix.add_mulVec, Matrix.one_mulVec, Pi.add_apply, add_comm]
    refine Eq.trans ?_ (hx.eq i i.isLt)
    rw [← Finset.range_eq_Ico, ← Fin.sum_univ_eq_sum_range]
    rfl
  have hlower : (F.lowerMatrix env env.size).mulVec (vector y env.size) = vector b env.size := by
    funext i
    rw [Factors.lowerMatrix, Matrix.add_mulVec, Pi.add_apply, Matrix.mulVec_diagonal]
    refine Eq.trans ?_ (hy.eq i i.isLt)
    congr 1
    rw [← Finset.eventually_constant_sum (fun k hk => ?_) i.isLt.le, ← Fin.sum_univ_eq_sum_range]
    · rfl
    · rw [F.lowerAt_of_le hk, zero_mul]
  rw [← hF.lowerMatrix_mul_upperMatrix, ← Matrix.mulVec_mulVec, hupper, hlower]

end CarrierTransport.LinearSystem
