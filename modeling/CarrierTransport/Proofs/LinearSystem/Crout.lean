import CarrierTransport.Proofs.LinearSystem.Elimination
import CarrierTransport.Proofs.Loop
import CarrierTransport.Proofs.Scalar.Exact

/-!
# The factors reproduce the matrix

In the arithmetic of a field every eliminated row satisfies the equations of Crout's scheme, entry by
entry (`crout_eliminated`). The invariant behind it is that of a partially eliminated row: the
columns before the current one hold their final entries, and the pivot has been reduced by them
(`Eliminating`). Where an envelope has not begun, both the matrix and the factors are zero, so the
sums over the common part of two envelopes are sums over all earlier columns.

The equations say that the product of the triangular factors is the matrix, inside the envelopes
and outside of them (`Crout.lowerMatrix_mul_upperMatrix`), and so that every leading minor is the
product of the pivots before it (`Crout.det_leading`).
-/

namespace CarrierTransport.LinearSystem

open Finset (range)

variable {α : Type} [FieldScalar α] {env : Envelope} {A : Nat → Nat → α}

/-! ### The equations -/

/-- The matrix vanishes outside of the envelopes of its first rows, which end at the diagonal. -/
structure Encloses (env : Envelope) (A : Nat → Nat → α) (rows : Nat) : Prop where
  start_le : ∀ i < rows, env.start i ≤ i
  lower : ∀ i < rows, ∀ j < env.start i, A i j = 0
  upper : ∀ i < rows, ∀ j < env.start i, A j i = 0

/-- The equations of Crout's scheme for the first rows. -/
structure Crout (env : Envelope) (A : Nat → Nat → α) (F : Factors α) (rows : Nat) : Prop where
  lower : ∀ i < rows, ∀ j < i,
    F.lowerAt env i j = A i j - ∑ k ∈ range j, F.lowerAt env i k * F.upperAt env k j
  upper : ∀ i < rows, ∀ j < i,
    F.upperAt env j i * F.pivotAt j = A j i - ∑ k ∈ range j, F.lowerAt env j k * F.upperAt env k i
  pivot : ∀ i < rows,
    F.pivotAt i = A i i - ∑ k ∈ range i, F.lowerAt env i k * F.upperAt env k i

/-! ### One row -/

/-- The row being eliminated when the columns before `column` are done. -/
structure Eliminating (env : Envelope) (A : Nat → Nat → α) (F : Factors α) (row column : Nat)
    (known : PartialRow α) : Prop where
  lower_size : known.lower.size = column - env.start row
  upper_size : known.upper.size = column - env.start row
  lower : ∀ j, env.start row ≤ j → j < column →
    env.entry known.lower row j =
      A row j - ∑ k ∈ range j, env.entry known.lower row k * F.upperAt env k j
  upper : ∀ j, env.start row ≤ j → j < column →
    env.entry known.upper row j * F.pivotAt j =
      A j row - ∑ k ∈ range j, F.lowerAt env j k * env.entry known.upper row k
  pivot : known.pivot =
    A row row - ∑ k ∈ range column, env.entry known.lower row k * env.entry known.upper row k

/-- The reduction of a lower entry runs over all earlier columns: before the envelopes of `row` and
`column` have both begun, one of the factors is zero. -/
theorem sum_reduce_eq_sum_range (values table : Array α) {row column : Nat}
    (hcolumn : column < row) :
    ∑ k ∈ Finset.Ico (max (env.start row) (env.start column)) column,
        env.entry table column k * values.getD (k - env.start row) 0 =
      ∑ k ∈ range column, env.entry table column k * env.entry values row k := by
  have hbefore : ∀ k < max (env.start row) (env.start column),
      env.entry table column k * env.entry values row k = 0 := by
    intro k hk
    rcases lt_max_iff.1 hk with hk | hk
    · rw [env.entry_of_lt_start hk, mul_zero]
    · rw [env.entry_of_lt_start hk, zero_mul]
  rw [← Loop.sum_Ico_eq_sum_range hbefore]
  refine Finset.sum_congr rfl fun k hk => ?_
  rw [Finset.mem_Ico, max_le_iff] at hk
  rw [env.entry_eq_ite values, if_pos ⟨hk.1.1, by omega⟩]

/-- The entries of the matrix, less what all earlier columns contribute to them. -/
theorem reduceEntries_eq (F : Factors α) {row column : Nat} (hcolumn : column < row)
    (hrow : env.start row ≤ column) (hstart : env.start column ≤ column) (known : PartialRow α) :
    reduceEntries env A F row column known =
      (A row column - ∑ k ∈ range column, env.entry known.lower row k * F.upperAt env k column,
        A column row -
          ∑ k ∈ range column, F.lowerAt env column k * env.entry known.upper row k) := by
  have hloop := Loop.foldl_range'_sub_pair
    (fun k => F.upperAt env k column * known.lower.getD (k - env.start row) 0)
    (fun k => F.lowerAt env column k * known.upper.getD (k - env.start row) 0)
    (max (env.start row) (env.start column)) (column - max (env.start row) (env.start column))
    (A row column) (A column row)
  rw [Nat.add_sub_cancel' (max_le hrow hstart)] at hloop
  refine Eq.trans hloop ?_
  simp only [F.upperAt_eq_entry, F.lowerAt_eq_entry, sum_reduce_eq_sum_range _ _ hcolumn,
    fun k => mul_comm (env.entry known.lower row k)]

variable {F : Factors α} {row : Nat}

theorem eliminating_start (env : Envelope) (A : Nat → Nat → α) (F : Factors α) (row : Nat) :
    Eliminating env A F row (env.start row) ⟨#[], #[], A row row⟩ where
  lower_size := by simp
  upper_size := by simp
  lower j hj hlt := by omega
  upper j hj hlt := by omega
  pivot := by
    rw [Finset.sum_eq_zero fun k hk => ?_, sub_zero]
    rw [env.entry_of_lt_start (Finset.mem_range.1 hk), zero_mul]

theorem Eliminating.step {column : Nat} {known : PartialRow α}
    (h : Eliminating env A F row column known) (hcolumn : column < row)
    (hrow : env.start row ≤ column) (hstart : env.start column ≤ column)
    (hpivot : F.pivotAt column ≠ 0) :
    Eliminating env A F row (column + 1) (eliminateColumn env A F row known column) := by
  obtain ⟨l, hl⟩ : ∃ l, l = A row column -
      ∑ k ∈ range column, env.entry known.lower row k * F.upperAt env k column := ⟨_, rfl⟩
  obtain ⟨u, hu⟩ : ∃ u, u = (A column row -
      ∑ k ∈ range column, F.lowerAt env column k * env.entry known.upper row k) /
        F.pivotAt column := ⟨_, rfl⟩
  have hdone : eliminateColumn env A F row known column =
      ⟨known.lower.push l, known.upper.push u, known.pivot - l * u⟩ := by
    rw [eliminateColumn, reduceEntries_eq F hcolumn hrow hstart known, ← hl]
    simp only [← hu]
  have hlower := env.entry_push hrow hcolumn h.lower_size l
  have hupper := env.entry_push hrow hcolumn h.upper_size u
  -- the entries pushed now are read by no sum over earlier columns
  have hlower_lt : ∀ k < column,
      env.entry (known.lower.push l) row k = env.entry known.lower row k :=
    fun k hk => by rw [hlower, if_neg (by omega)]
  have hupper_lt : ∀ k < column,
      env.entry (known.upper.push u) row k = env.entry known.upper row k :=
    fun k hk => by rw [hupper, if_neg (by omega)]
  rw [hdone]
  constructor
  case lower_size => rw [Array.size_push, h.lower_size]; omega
  case upper_size => rw [Array.size_push, h.upper_size]; omega
  case lower =>
    intro j hj hlt
    have hsum : ∑ k ∈ range j, env.entry (known.lower.push l) row k * F.upperAt env k j =
        ∑ k ∈ range j, env.entry known.lower row k * F.upperAt env k j :=
      Finset.sum_congr rfl fun k hk => by
        rw [hlower_lt k (by rw [Finset.mem_range] at hk; omega)]
    rw [hsum]
    rcases Nat.lt_or_eq_of_le (Nat.lt_succ_iff.1 hlt) with hlt | rfl
    · rw [hlower_lt j hlt, h.lower j hj hlt]
    · rw [hlower, if_pos rfl, hl]
  case upper =>
    intro j hj hlt
    have hsum : ∑ k ∈ range j, F.lowerAt env j k * env.entry (known.upper.push u) row k =
        ∑ k ∈ range j, F.lowerAt env j k * env.entry known.upper row k :=
      Finset.sum_congr rfl fun k hk => by
        rw [hupper_lt k (by rw [Finset.mem_range] at hk; omega)]
    rw [hsum]
    rcases Nat.lt_or_eq_of_le (Nat.lt_succ_iff.1 hlt) with hlt | rfl
    · rw [hupper_lt j hlt, h.upper j hj hlt]
    · rw [hupper, if_pos rfl, hu, div_mul_cancel₀ _ hpivot]
  case pivot =>
    have hsum : ∑ k ∈ range column,
          env.entry (known.lower.push l) row k * env.entry (known.upper.push u) row k =
        ∑ k ∈ range column, env.entry known.lower row k * env.entry known.upper row k :=
      Finset.sum_congr rfl fun k hk => by
        rw [hlower_lt k (Finset.mem_range.1 hk), hupper_lt k (Finset.mem_range.1 hk)]
    rw [Finset.sum_range_succ, hsum, hlower column, hupper column, if_pos rfl, if_pos rfl,
      ← sub_sub, ← h.pivot]

theorem eliminating_eliminateRow (hstart : ∀ i ≤ row, env.start i ≤ i)
    (hpivot : ∀ j < row, F.pivotAt j ≠ 0) :
    Eliminating env A F row row (eliminateRow env A F row) := by
  have hloop : Eliminating env A F row (env.start row + (row - env.start row))
      (eliminateRow env A F row) :=
    Loop.foldl_range'_invariant _ (eliminating_start env A F row) fun column known hrow hcolumn h =>
      h.step (by omega) hrow (hstart column (by omega)) (hpivot column (by omega))
  rwa [Nat.add_sub_cancel' (hstart row le_rfl)] at hloop

/-! ### All rows -/

/-- The equations of a row join those of the rows before it. -/
theorem Crout.extend {known : PartialRow α} (h : Crout env A F row) (hF : F.HasRows row)
    (hA : Encloses env A (row + 1)) (hrow : Eliminating env A F row row known) :
    Crout env A (F.extend known) (row + 1) := by
  have hlower : ∀ i j, i < row → (F.extend known).lowerAt env i j = F.lowerAt env i j :=
    fun i j hi => by rw [F.lowerAt_extend hF, if_neg (by omega)]
  have hupper : ∀ j i, i < row → (F.extend known).upperAt env j i = F.upperAt env j i :=
    fun j i hi => by rw [F.upperAt_extend hF, if_neg (by omega)]
  have hpivot : ∀ i, i < row → (F.extend known).pivotAt i = F.pivotAt i :=
    fun i hi => by rw [F.pivotAt_extend hF, if_neg (by omega)]
  have hlowerRow : ∀ j, (F.extend known).lowerAt env row j = env.entry known.lower row j :=
    fun j => by rw [F.lowerAt_extend hF, if_pos rfl]
  have hupperRow : ∀ j, (F.extend known).upperAt env j row = env.entry known.upper row j :=
    fun j => by rw [F.upperAt_extend hF, if_pos rfl]
  have hpivotRow : (F.extend known).pivotAt row = known.pivot := by
    rw [F.pivotAt_extend hF, if_pos rfl]
  constructor
  case lower =>
    intro i hi j hj
    have hsum : ∑ k ∈ range j, (F.extend known).lowerAt env i k * (F.extend known).upperAt env k j =
        ∑ k ∈ range j, (F.extend known).lowerAt env i k * F.upperAt env k j :=
      Finset.sum_congr rfl fun k hk => by rw [hupper k j (by omega)]
    rw [hsum]
    rcases Nat.lt_or_eq_of_le (Nat.lt_succ_iff.1 hi) with hi | rfl
    · simp only [hlower i _ hi, h.lower i hi j hj]
    · simp only [hlowerRow]
      rcases Nat.lt_or_ge j (env.start i) with hj' | hj'
      · rw [env.entry_of_lt_start hj', hA.lower i (by omega) j hj', Finset.sum_eq_zero, sub_zero]
        intro k hk
        rw [env.entry_of_lt_start (by rw [Finset.mem_range] at hk; omega), zero_mul]
      · exact hrow.lower j hj' hj
  case upper =>
    intro i hi j hj
    have hsum : ∑ k ∈ range j, (F.extend known).lowerAt env j k * (F.extend known).upperAt env k i =
        ∑ k ∈ range j, F.lowerAt env j k * (F.extend known).upperAt env k i :=
      Finset.sum_congr rfl fun k hk => by rw [hlower j k (by omega)]
    rw [hsum, hpivot j (by omega)]
    rcases Nat.lt_or_eq_of_le (Nat.lt_succ_iff.1 hi) with hi | rfl
    · simp only [hupper _ i hi, h.upper i hi j hj]
    · simp only [hupperRow]
      rcases Nat.lt_or_ge j (env.start i) with hj' | hj'
      · rw [env.entry_of_lt_start hj', hA.upper i (by omega) j hj', Finset.sum_eq_zero, sub_zero,
          zero_mul]
        intro k hk
        rw [env.entry_of_lt_start (by rw [Finset.mem_range] at hk; omega), mul_zero]
      · exact hrow.upper j hj' hj
  case pivot =>
    intro i hi
    rcases Nat.lt_or_eq_of_le (Nat.lt_succ_iff.1 hi) with hi | rfl
    · simp only [hpivot i hi, hlower i _ hi, hupper _ i hi, h.pivot i hi]
    · simp only [hpivotRow, hlowerRow, hupperRow, hrow.pivot]

theorem Crout.mono {rows rows' : Nat} (h : Crout env A F rows') (hrows : rows ≤ rows') :
    Crout env A F rows where
  lower i hi := h.lower i (by omega)
  upper i hi := h.upper i (by omega)
  pivot i hi := h.pivot i (by omega)

theorem pivotAt_eliminated {rows i : Nat} (hi : i < rows) :
    (eliminated env A rows).pivotAt i = pivotMet env A i := by
  induction rows with
  | zero => omega
  | succ rows ih =>
    rw [eliminated, Factors.pivotAt_extend (hasRows_eliminated env A rows)]
    rcases Nat.lt_or_eq_of_le (Nat.lt_succ_iff.1 hi) with hi | rfl
    · rw [if_neg (by omega), ih hi]
    · rw [if_pos rfl, pivotMet]

/-- **The eliminated rows satisfy Crout's equations**, as long as no pivot before the last row is
zero: only these are divided by. -/
theorem crout_eliminated {rows : Nat} (hA : Encloses env A rows)
    (hpivot : ∀ i, i + 1 < rows → pivotMet env A i ≠ 0) :
    Crout env A (eliminated env A rows) rows := by
  induction rows with
  | zero => exact ⟨by omega, by omega, by omega⟩
  | succ rows ih =>
    refine Crout.extend (ih ⟨?_, ?_, ?_⟩ fun i hi => hpivot i (by omega))
      (hasRows_eliminated env A rows) hA (eliminating_eliminateRow ?_ ?_)
    · exact fun i hi => hA.start_le i (by omega)
    · exact fun i hi => hA.lower i (by omega)
    · exact fun i hi => hA.upper i (by omega)
    · exact fun i hi => hA.start_le i (by omega)
    · intro j hj
      rw [pivotAt_eliminated hj]
      exact hpivot j (by omega)

/-! ### The product of the factors -/

/-- The leading rows and columns of a matrix. -/
def leading {β : Type} (A : Nat → Nat → β) (rows : Nat) : Matrix (Fin rows) (Fin rows) β :=
  Matrix.of fun i j => A i j

@[simp] theorem leading_apply {β : Type} (A : Nat → Nat → β) (rows : Nat) (i j : Fin rows) :
    leading A rows i j = A i j :=
  rfl

namespace Factors

/-- The lower factor, with the pivots on its diagonal. -/
def lowerMatrix (F : Factors α) (env : Envelope) (rows : Nat) : Matrix (Fin rows) (Fin rows) α :=
  leading (F.lowerAt env) rows + Matrix.diagonal fun i : Fin rows => F.pivotAt i

/-- The upper factor, with ones on its diagonal. -/
def upperMatrix (F : Factors α) (env : Envelope) (rows : Nat) : Matrix (Fin rows) (Fin rows) α :=
  leading (F.upperAt env) rows + 1

variable (F : Factors α) (env : Envelope) (rows : Nat)

theorem isLowerTriangular_lowerMatrix : (F.lowerMatrix env rows).IsLowerTriangular := by
  intro i j hij
  have hij : i < j := hij
  have hle : (i : Nat) ≤ j := hij.le
  simp [lowerMatrix, F.lowerAt_of_le hle, hij.ne]

theorem isUpperTriangular_upperMatrix : (F.upperMatrix env rows).IsUpperTriangular := by
  intro j i hij
  have hij : i < j := hij
  have hle : (i : Nat) ≤ j := hij.le
  simp [upperMatrix, F.upperAt_of_le hle, Matrix.one_apply_ne hij.ne']

theorem det_lowerMatrix : (F.lowerMatrix env rows).det = ∏ i ∈ range rows, F.pivotAt i := by
  rw [Matrix.det_of_isLowerTriangular _ (F.isLowerTriangular_lowerMatrix env rows),
    ← Fin.prod_univ_eq_prod_range]
  simp [lowerMatrix, F.lowerAt_of_le]

theorem det_upperMatrix : (F.upperMatrix env rows).det = 1 := by
  rw [Matrix.det_of_isUpperTriangular (F.isUpperTriangular_upperMatrix env rows)]
  simp [upperMatrix, F.upperAt_of_le]

theorem lowerMatrix_mul_upperMatrix_apply (i j : Fin rows) :
    (F.lowerMatrix env rows * F.upperMatrix env rows) i j =
      ∑ k ∈ range rows, F.lowerAt env i k * F.upperAt env k j + F.pivotAt i * F.upperAt env i j +
        (F.lowerAt env i j + if i = j then F.pivotAt i else 0) := by
  rw [lowerMatrix, upperMatrix, Matrix.mul_add, Matrix.mul_one, Matrix.add_mul]
  simp only [Matrix.add_apply, Matrix.diagonal_mul, Matrix.diagonal_apply, leading_apply]
  rw [Matrix.mul_apply, ← Fin.sum_univ_eq_sum_range]
  simp only [leading_apply]

/-- Only the columns before both ends contribute to the sum over inner columns. -/
theorem sum_lowerAt_mul_upperAt {i j stop : Nat} (hstop : stop ≤ rows)
    (hle : i ≤ stop ∨ j ≤ stop) :
    ∑ k ∈ range rows, F.lowerAt env i k * F.upperAt env k j =
      ∑ k ∈ range stop, F.lowerAt env i k * F.upperAt env k j := by
  refine Finset.eventually_constant_sum (fun k hk => ?_) hstop
  rcases hle with hle | hle
  · rw [F.lowerAt_of_le (by omega), zero_mul]
  · rw [F.upperAt_of_le (by omega), mul_zero]

end Factors

section Product

variable {rows : Nat}

/-- **The product of the factors is the matrix**, inside the envelopes and outside of them. -/
theorem Crout.lowerMatrix_mul_upperMatrix (h : Crout env A F rows) :
    F.lowerMatrix env rows * F.upperMatrix env rows = leading A rows := by
  ext i j
  rw [F.lowerMatrix_mul_upperMatrix_apply, leading_apply]
  rcases lt_trichotomy i j with hij | rfl | hij
  · have hlt : (i : Nat) < j := hij
    rw [F.sum_lowerAt_mul_upperAt env rows i.isLt.le (.inl le_rfl), F.lowerAt_of_le hlt.le,
      if_neg hij.ne, mul_comm (F.pivotAt i), h.upper j j.isLt i hlt]
    ring
  · rw [F.sum_lowerAt_mul_upperAt env rows i.isLt.le (.inl le_rfl), F.lowerAt_of_le le_rfl,
      F.upperAt_of_le le_rfl, if_pos rfl, h.pivot i i.isLt]
    ring
  · have hlt : (j : Nat) < i := hij
    rw [F.sum_lowerAt_mul_upperAt env rows j.isLt.le (.inr le_rfl), F.upperAt_of_le hlt.le,
      if_neg hij.ne', h.lower i i.isLt j hlt]
    ring

/-- **The leading minors are the products of the pivots.** -/
theorem Crout.det_leading (h : Crout env A F rows) :
    (leading A rows).det = ∏ i ∈ range rows, F.pivotAt i := by
  rw [← h.lowerMatrix_mul_upperMatrix, Matrix.det_mul, F.det_lowerMatrix, F.det_upperMatrix,
    mul_one]

end Product

end CarrierTransport.LinearSystem
