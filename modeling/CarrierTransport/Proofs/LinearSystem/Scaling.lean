import Mathlib
import CarrierTransport.LinearSystem.Solve
import CarrierTransport.Proofs.LinearSystem.Crout
import CarrierTransport.Proofs.LinearSystem.Pattern

/-!
# Column scaling and the envelope of a system

A solve factors the system with every column divided by its diagonal, on the envelope of its
pattern; whether it succeeds depends on the pivots of that elimination alone, in every scalar type
(`BlockMatrix.solve_eq_error_of_small`, `BlockMatrix.solve_eq_ok_of_forall`).

Over an exact scalar type the coefficients that are factored are those of the system over the
factor of their column (`BlockMatrix.WellFormed.coefficient_scaled`), the envelope of a well-formed
pattern encloses them (`BlockMatrix.WellFormed.encloses`), and undoing the scaling restores the
system exactly (`BlockMatrix.restored_eq`).
-/

namespace CarrierTransport.LinearSystem

namespace BlockMatrix

/-! ### The envelope of a pattern -/

section Envelope

variable {α : Type} (m : BlockMatrix α)

/-- The envelope of a system. -/
def envelope : Envelope :=
  .ofPattern m.pattern

theorem size_envelope : m.envelope.size = m.rowCount := by
  rw [envelope, Envelope.ofPattern, Envelope.size, Array.size_mapIdx, size_pattern]

theorem start_envelope (row : Nat) :
    m.envelope.start row =
      match (m.columnsOf row)[0]? with
      | some column => min column row
      | none => row := by
  rw [envelope, Envelope.ofPattern, Envelope.start, columnsOf, Array.getD_eq_getD_getElem?,
    Array.getElem?_mapIdx, Array.getD_eq_getD_getElem?]
  cases m.pattern[row]? with
  | none => rfl
  | some columns => rw [Option.getD_some, Array.getElem?_toList]; rfl

theorem start_envelope_le (row : Nat) : m.envelope.start row ≤ row := by
  rw [start_envelope]
  split
  · exact min_le_right _ _
  · exact le_rfl

variable {m}

theorem WellFormed.start_envelope_le_of_mem (hm : m.WellFormed) {row column : Nat}
    (h : column ∈ m.columnsOf row) : m.envelope.start row ≤ column := by
  have hasc := hm.ascending row
  rw [start_envelope]
  cases hcolumns : m.columnsOf row with
  | nil => rw [hcolumns] at h; simp at h
  | cons first rest =>
    rw [hcolumns, List.pairwise_cons] at hasc
    rw [hcolumns] at h
    refine le_trans (min_le_left first row) ?_
    rcases List.mem_cons.1 h with rfl | h
    · exact le_rfl
    · exact (hasc.1 column h).le

end Envelope

/-! ### Systems with changed coefficients -/

section MapEntries

variable {α : Type} (m : BlockMatrix α)

theorem pattern_mapEntries (f : Nat → Nat → α → α) : (m.mapEntries f).pattern = m.pattern := by
  refine Array.ext (by simp [pattern, mapEntries]) fun i hi hi' => ?_
  simp [pattern, mapEntries, Function.comp_def]

theorem samePlaces_mapEntries (f : Nat → Nat → α → α) : m.SamePlaces (m.mapEntries f) :=
  ⟨rfl, m.pattern_mapEntries f, rfl, rfl⟩

theorem mapEntries_mapEntries (f g : Nat → Nat → α → α) :
    (m.mapEntries f).mapEntries g =
      m.mapEntries fun row column value => g row column (f row column value) := by
  simp [mapEntries, Function.comp_def]

theorem mapEntries_eq_self {f : Nat → Nat → α → α}
    (hf : ∀ row column value, f row column value = value) : m.mapEntries f = m := by
  simp only [mapEntries, hf, Array.map_id']
  congr
  exact Array.ext (by simp) fun i hi hi' => by simp

theorem coefficient_mapEntries [Scalar α] {f : Nat → Nat → α → α} (hf : ∀ row column, f row column 0 = 0)
    (row column : Nat) :
    (m.mapEntries f).coefficient row column = f row column (m.coefficient row column) := by
  have hrow : ((m.mapEntries f).rows.getD row #[]).toList =
      (m.rows.getD row #[]).toList.map fun e => { e with value := f row e.column e.value } := by
    rw [mapEntries, Array.getD_eq_getD_getElem?, Array.getD_eq_getD_getElem?, Array.getElem?_mapIdx]
    cases m.rows[row]? <;> simp
  rw [coefficient_eq_elim, coefficient_eq_elim, hrow, List.find?_map]
  simp only [Function.comp_def]
  cases hfind : (m.rows.getD row #[]).toList.find? fun e => e.column == column with
  | none => rw [Option.map_none, Option.elim_none, hf]
  | some e =>
    have hcolumn : e.column = column := by simpa using List.find?_some hfind
    rw [Option.map_some, Option.elim_some, Option.elim_some, hcolumn]

end MapEntries

/-! ### The solve as a factorisation -/

section Solve

variable {α : Type} [Scalar α] (m : BlockMatrix α)

/-- The system with every column divided by its diagonal. -/
def scaled : BlockMatrix α :=
  m.scaleColumns (· / ·) m.diagonalScale

/-- The system with the scaling undone. -/
def restored : BlockMatrix α :=
  m.scaled.scaleColumns (· * ·) m.diagonalScale

/-- The pivot that the elimination meets in a row, if it comes so far. -/
def pivotOf (row : Nat) : α :=
  pivotMet m.envelope m.scaled.coefficient row

/-- The solution of the scaled system, when all rows are eliminated. -/
def scaledSolution : Array α :=
  substitute m.envelope (eliminated m.envelope m.scaled.coefficient m.rowCount) m.rhs

/-- The solution that a solve leaves behind. -/
def solutionOf : Array α :=
  m.scaledSolution.zipWith (· / ·) m.diagonalScale

theorem size_diagonalScale : m.diagonalScale.size = m.rowCount := by
  rw [diagonalScale, Array.size_map, Array.size_range]

/-- A solve factors the scaled system on the envelope of the system. -/
theorem solve_eq_factorise :
    solve m = match factorise m.envelope m.scaled.coefficient m.pivotTolerance with
      | .error pivot => .error (.singularPivot pivot.row pivot.magnitude) m.restored
      | .ok F => .ok () { m.restored with
          solution := (substitute m.envelope F m.rhs).zipWith (· / ·) m.diagonalScale } := by
  have henv : Envelope.ofPattern (m.scaleColumns (· / ·) m.diagonalScale).pattern = m.envelope := by
    rw [scaleColumns, pattern_mapEntries, envelope]
  rw [solve]
  simp only [henv]
  change (match factorise m.envelope m.scaled.coefficient m.pivotTolerance with
    | .error pivot => _
    | .ok F => _) = _
  cases factorise m.envelope m.scaled.coefficient m.pivotTolerance <;> rfl

theorem solve_eq_error_of_small {row : Nat} (hrow : row < m.rowCount)
    (hsmall : Scalar.abs (m.pivotOf row) < m.pivotTolerance)
    (h : ∀ i < row, ¬ Scalar.abs (m.pivotOf i) < m.pivotTolerance) :
    solve m = .error (.singularPivot row (Scalar.abs (m.pivotOf row))) m.restored := by
  rw [solve_eq_factorise, factorise_eq_error (by rwa [size_envelope]) hsmall h]
  rfl

theorem solve_eq_ok_of_forall
    (h : ∀ row < m.rowCount, ¬ Scalar.abs (m.pivotOf row) < m.pivotTolerance) :
    solve m = .ok () { m.restored with solution := m.solutionOf } := by
  rw [solve_eq_factorise, factorise_eq_ok (by rwa [size_envelope]), size_envelope]
  rfl

theorem not_small_of_solve_eq_ok {s : BlockMatrix α} (h : solve m = .ok () s) :
    ∀ row < m.rowCount, ¬ Scalar.abs (m.pivotOf row) < m.pivotTolerance := by
  rw [solve_eq_factorise] at h
  cases hF : factorise m.envelope m.scaled.coefficient m.pivotTolerance with
  | error pivot => rw [hF] at h; cases h
  | ok F => exact fun row hrow => not_small_of_factorise_eq_ok hF row (by rwa [size_envelope])

end Solve

/-! ### Scaled coefficients -/

variable {α : Type} [ExactScalar α] (m : BlockMatrix α)

/-- The factor of a column: its diagonal coefficient, or one where that is zero. -/
def scaleOf (column : Nat) : α :=
  if m.coefficient column column = 0 then 1 else m.coefficient column column

/-- The coefficient that a solve factors in place of the one at a row and column. -/
def scaledCoefficient (row column : Nat) : α :=
  m.coefficient row column / m.scaleOf column

theorem scaleOf_ne_zero (column : Nat) : m.scaleOf column ≠ 0 := by
  rw [scaleOf]
  split_ifs with h
  · exact one_ne_zero
  · exact h

theorem diagonalScale_getD {column : Nat} (h : column < m.rowCount) (d : α) :
    m.diagonalScale.getD column d = m.scaleOf column := by
  rw [diagonalScale, Array.getD_eq_getD_getElem?, Array.getElem?_map,
    Array.getElem?_eq_getElem (by rwa [Array.size_range]), Array.getElem_range, Option.map_some,
    Option.getD_some, scaleOf]
  simp only [beq_iff_eq]

theorem diagonalScale_getD_ne_zero (column : Nat) : m.diagonalScale.getD column 1 ≠ 0 := by
  rcases Nat.lt_or_ge column m.rowCount with hlt | hge
  · rw [m.diagonalScale_getD hlt]
    exact m.scaleOf_ne_zero column
  · rw [Array.getD_eq_getD_getElem?, Array.getElem?_eq_none (by rwa [size_diagonalScale]),
      Option.getD_none]
    exact one_ne_zero

/-- The coefficients that are factored are the scaled ones, also where none is stored. -/
theorem WellFormed.coefficient_scaled {m : BlockMatrix α} (hm : m.WellFormed) :
    m.scaled.coefficient = m.scaledCoefficient := by
  funext row column
  have hscaled : m.scaled.coefficient row column =
      m.coefficient row column / m.diagonalScale.getD column 1 :=
    m.coefficient_mapEntries (f := fun _ c v => v / m.diagonalScale.getD c 1)
      (fun _ _ => zero_div _) row column
  rw [hscaled, scaledCoefficient]
  rcases Nat.lt_or_ge column m.rowCount with hlt | hge
  · rw [m.diagonalScale_getD hlt]
  · rw [coefficient_eq_zero fun h => absurd (hm.lt row column h) (by omega), zero_div, zero_div]

/-- Dividing the columns and multiplying them back changes nothing. -/
theorem restored_eq : m.restored = m := by
  rw [restored, scaled, scaleColumns, scaleColumns, mapEntries_mapEntries]
  refine m.mapEntries_eq_self fun _ column value => ?_
  exact div_mul_cancel₀ value (m.diagonalScale_getD_ne_zero column)

theorem WellFormed.encloses {m : BlockMatrix α} (hm : m.WellFormed) (rows : Nat) :
    Encloses m.envelope m.scaled.coefficient rows where
  start_le i _ := m.start_envelope_le i
  lower i _ j hj := by
    rw [hm.coefficient_scaled, scaledCoefficient, coefficient_eq_zero fun h => ?_, zero_div]
    exact absurd (hm.start_envelope_le_of_mem h) (by omega)
  upper i _ j hj := by
    rw [hm.coefficient_scaled, scaledCoefficient, coefficient_eq_zero fun h => ?_, zero_div]
    exact absurd (hm.start_envelope_le_of_mem (hm.symm j i h)) (by omega)

end BlockMatrix

end CarrierTransport.LinearSystem
