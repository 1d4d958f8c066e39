import CarrierTransport.Proofs.LinearSystem.Addresses
import CarrierTransport.Proofs.LinearSystem.Workspace

/-!
# The slots of the factors

The slots of all envelopes are numbered through, row after row. Every entry that a symmetric pattern
stores beside the diagonal has a slot, of the lower factor if it is left of the diagonal and of the
upper one if it is above, and no two entries of a factor share one (`BlockMatrix.SlotsApart`). So the
cells of a workspace that a matrix has been put into are the matrix, entry by entry, with zeros where
the pattern has gaps (`Workspace.cell_loaded`).

What a factorisation leaves in the slots are two triangular matrices, and in the arithmetic of a
field their product is the matrix again, inside of the envelopes and outside of them
(`BlockMatrix.factors_reproduce`). It takes a tolerance that is above zero in magnitude, so that no
pivot is zero.
-/

namespace CarrierTransport.LinearSystem

/-! ### Slots -/

namespace Envelope

/-- The slots of all rows, those of a row as one block. -/
def slots (env : Envelope) : Layout :=
  .ofSizes ((Array.range env.size).map fun row => row - env.start row)

/-- The number of the slot of a column in the envelope of a row, among the slots of all rows. -/
def slotNumber? (env : Envelope) (row column : Nat) : Option Nat :=
  (env.slot? row column).map fun slot => env.slots.offset row + slot

variable {env : Envelope} {row column n : Nat}

theorem slotNumber?_eq_some :
    env.slotNumber? row column = some n ↔
      (env.start row ≤ column ∧ column < row) ∧
        n = env.slots.offset row + (column - env.start row) := by
  rw [slotNumber?, slot?]
  split_ifs with h
  · simp [h, eq_comm]
  · simp [h]

theorem lt_size_of_start_lt (h : env.start row < row) : row < env.size := by
  by_contra hge
  rw [start, Array.getD_eq_getD_getElem?, Array.getElem?_eq_none (not_lt.1 hge),
    Option.getD_none] at h
  exact lt_irrefl row h

theorem size_slots (h : row < env.size) :
    env.slots.sizes.getD row 0 = row - env.start row := by
  rw [slots, Layout.ofSizes, Array.getD_eq_getD_getElem?, Array.getElem?_map]
  simp [h]

/-- The number of a slot is its index in the block of its row. -/
theorem index_of_slotNumber? {α : Type} (h : env.slotNumber? row column = some n) :
    (env.slots.index row (column - env.start row) : Except (MatrixError α) Nat) = .ok n := by
  obtain ⟨⟨hstart, hcolumn⟩, hn⟩ := slotNumber?_eq_some.1 h
  have hrow : row < env.size := lt_size_of_start_lt (by omega)
  apply Layout.index_eq_ok.2
  refine ⟨?_, hn⟩
  rw [size_slots hrow]
  omega

theorem slotNumber?_lt (h : env.slotNumber? row column = some n) : n < env.slots.total :=
  Layout.exists_index_iff.1 ⟨_, _, index_of_slotNumber? (α := Unit) h⟩

/-- No two columns share a slot, whether of one row or of two. -/
theorem slotNumber?_inj {row' column' : Nat} (h : env.slotNumber? row column = some n)
    (h' : env.slotNumber? row' column' = some n) : row = row' ∧ column = column' := by
  have hless := Layout.index_lt_index_iff (index_of_slotNumber? (α := Unit) h)
    (index_of_slotNumber? h')
  have hgreater := Layout.index_lt_index_iff (index_of_slotNumber? (α := Unit) h')
    (index_of_slotNumber? h)
  obtain ⟨⟨hstart, -⟩, -⟩ := slotNumber?_eq_some.1 h
  obtain ⟨⟨hstart', -⟩, -⟩ := slotNumber?_eq_some.1 h'
  obtain rfl : row = row' := by omega
  refine ⟨rfl, ?_⟩
  omega

end Envelope

/-! ### Symmetric patterns -/

namespace BlockMatrix

variable {α : Type} {m : BlockMatrix α}

/-- The pattern is square and symmetric, the columns of each row ascending. Whether the diagonal is
stored does not matter: its cells are there in any case. -/
structure SymmetricPattern (m : BlockMatrix α) : Prop where
  ascending : ∀ row, (m.columnsOf row).Pairwise (· < ·)
  lt : ∀ row, ∀ column ∈ m.columnsOf row, column < m.rowCount
  symm : ∀ row, ∀ column ∈ m.columnsOf row, row ∈ m.columnsOf column

/-- The matrix with vectors of its size. -/
def withVectors [Scalar α] (m : BlockMatrix α) : BlockMatrix α :=
  { m with
    rhs := Array.replicate m.rowCount 0
    solution := Array.replicate m.rowCount 0 }

/-- A factorisation looks at the coefficients alone, so the vectors may be chosen. -/
theorem SymmetricPattern.wellFormed [Scalar α] (hm : m.SymmetricPattern) :
    m.withVectors.WellFormed where
  rhs_size := Array.size_replicate
  solution_size := Array.size_replicate
  ascending := hm.ascending
  lt := hm.lt
  symm := hm.symm

/-- Every entry beside the diagonal has a slot, no two entries of a factor the same one. -/
structure SlotsApart (m : BlockMatrix α) : Prop where
  lower : ∀ row, ∀ column ∈ m.columnsOf row, column < row →
    ∃ n < m.envelope.slots.total, m.envelope.slotNumber? row column = some n
  upper : ∀ row, ∀ column ∈ m.columnsOf row, row < column →
    ∃ n < m.envelope.slots.total, m.envelope.slotNumber? column row = some n
  apart : ∀ {row column row' column' n}, m.envelope.slotNumber? row column = some n →
    m.envelope.slotNumber? row' column' = some n → row = row' ∧ column = column'

theorem SymmetricPattern.slotsApart [Scalar α] (hm : m.SymmetricPattern) : m.SlotsApart := by
  have hslot : ∀ row, ∀ column ∈ m.columnsOf row, column < row →
      ∃ n < m.envelope.slots.total, m.envelope.slotNumber? row column = some n := by
    intro row column hmem hlt
    have hstart : m.envelope.start row ≤ column := hm.wellFormed.start_envelope_le_of_mem hmem
    have hnumber := Envelope.slotNumber?_eq_some.2 ⟨⟨hstart, hlt⟩, rfl⟩
    exact ⟨_, Envelope.slotNumber?_lt hnumber, hnumber⟩
  constructor
  case lower => exact hslot
  case upper =>
    intro row column hmem hlt
    exact hslot column row (hm.symm row column hmem) hlt
  case apart =>
    intro row column row' column' n h h'
    exact Envelope.slotNumber?_inj h h'

end BlockMatrix

/-! ### The matrix in its cells -/

namespace Workspace

variable {α : Type} [Scalar α] {m : BlockMatrix α} {ws : Workspace α}

/-- The workspace with the entries of some rows in their cells and nothing else in the others. -/
def loaded (env : Envelope) (rows : Array (Array (Entry α))) (ws : Workspace α) : Workspace α :=
  (List.range env.size).foldl (loadRow env rows) ws.reset

/-- A factorisation puts the entries into their cells and eliminates the rows there. -/
theorem factorise_eq (env : Envelope) (rows : Array (Array (Entry α))) (tolerance : α)
    (ws : Workspace α) :
    factorise env rows tolerance ws = factorRows env tolerance env.size 0 (ws.loaded env rows) :=
  rfl

/-- **No coefficient is dropped**: every cell holds the coefficient of its place. Where the pattern
has a gap both are zero, and beyond the envelope there is neither. -/
theorem cell_loaded (hm : m.WellFormed) (hws : ws.Fits m.envelope) {row column : Nat}
    (hrow : row < m.rowCount) (hcolumn : column < m.rowCount) :
    (ws.loaded m.envelope m.rows).factors.cell m.envelope row column =
      m.coefficient row column := by
  rw [← m.size_envelope] at hrow hcolumn
  by_cases hcell : m.envelope.HasCell row column
  · have hloaded := (loaded_foldl hm hws).cell row column hcell
    rwa [if_pos hrow] at hloaded
  · have hzero : m.coefficient row column = 0 := by
      apply BlockMatrix.coefficient_eq_zero
      intro hmem
      exact hcell (hasCell_of_mem hm hmem)
    rw [hzero]
    -- without a cell it is left of where its row starts, or above where its column does
    rcases lt_trichotomy column row with hlt | rfl | hlt
    · rw [Factors.cell_of_lt hlt, Factors.lowerAt_eq_entry]
      apply Envelope.entry_of_lt_start
      by_contra hstart
      exact hcell (Envelope.hasCell_left hrow (not_lt.1 hstart) hlt)
    · exact absurd (Envelope.hasCell_diagonal hrow) hcell
    · rw [Factors.cell_of_gt hlt, Factors.upperAt_eq_entry]
      apply Envelope.entry_of_lt_start
      by_contra hstart
      exact hcell (Envelope.hasCell_left hcolumn (not_lt.1 hstart) hlt).symm

end Workspace

/-! ### The product of the factors -/

namespace BlockMatrix

variable {α : Type} [FieldScalar α] {m : BlockMatrix α} {tolerance : α}

/-- The factors in the slots multiply to the matrix: the pivots are the diagonal of the lower one,
the diagonal of the upper one is one, and both are zero outside of the envelopes. -/
def Reproduces (F : Factors α) (m : BlockMatrix α) : Prop :=
  F.lowerMatrix m.envelope m.rowCount * F.upperMatrix m.envelope m.rowCount =
    leading m.coefficient m.rowCount

theorem SymmetricPattern.encloses (hm : m.SymmetricPattern) :
    Encloses m.envelope m.coefficient m.rowCount where
  start_le i _ := m.start_envelope_le i
  lower i _ j hj := by
    apply coefficient_eq_zero
    intro hmem
    exact absurd (hm.wellFormed.start_envelope_le_of_mem hmem) (not_le.2 hj)
  upper i _ j hj := by
    apply coefficient_eq_zero
    intro hmem
    exact absurd (hm.wellFormed.start_envelope_le_of_mem (hm.symm j i hmem)) (not_le.2 hj)

/-- Factors that are returned multiply to the matrix, since a pivot of zero is below the
tolerance. -/
theorem SymmetricPattern.reproduces (hm : m.SymmetricPattern)
    (htolerance : Scalar.abs (0 : α) < tolerance) {F : Factors α}
    (h : factorise m.envelope m.coefficient tolerance = .ok F) : m.Reproduces F := by
  have hlarge := not_small_of_factorise_eq_ok h
  -- the last pivot divides nothing
  have hpivot : ∀ i, i + 1 < m.rowCount → pivotMet m.envelope m.coefficient i ≠ 0 := by
    intro i hi hzero
    apply hlarge i (by rw [size_envelope]; omega)
    rw [hzero]
    exact htolerance
  have hF := (factorise_eq_ok hlarge).symm.trans h
  rw [size_envelope] at hF
  obtain rfl := Except.ok.inj hF
  exact (crout_eliminated hm.encloses hpivot).lowerMatrix_mul_upperMatrix

/-! ### A star with a tail -/

/-- A node joined with two others, one of which is joined with a fourth. The second and the third
unknown share no coefficient, but an envelope; the last one is beyond the envelopes of the first
two. -/
def tailedStar : BlockMatrix ℚ where
  layout := .ofSizes #[1, 1, 1, 1]
  rows := #[#[⟨0, 2⟩, ⟨1, 1⟩, ⟨2, 1⟩], #[⟨0, 1⟩, ⟨1, 3⟩], #[⟨0, 1⟩, ⟨2, 4⟩, ⟨3, 1⟩],
    #[⟨2, 1⟩, ⟨3, 2⟩]]
  rhs := #[0, 0, 0, 0]
  solution := #[0, 0, 0, 0]
  pivotTolerance := 1

theorem symmetricPattern_tailedStar : tailedStar.SymmetricPattern := by
  have hrows : ∀ row < 4, (tailedStar.columnsOf row).Pairwise (· < ·) ∧
      ∀ column ∈ tailedStar.columnsOf row,
        column < tailedStar.rowCount ∧ row ∈ tailedStar.columnsOf column := by
    decide +kernel
  have hbeyond : ∀ row, 4 ≤ row → tailedStar.columnsOf row = [] := fun _ h =>
    columnsOf_of_le _ h
  constructor
  case ascending =>
    intro row
    rcases Nat.lt_or_ge row 4 with hlt | hge
    · exact (hrows row hlt).1
    · rw [hbeyond row hge]
      exact List.Pairwise.nil
  case lt =>
    intro row column h
    rcases Nat.lt_or_ge row 4 with hlt | hge
    · exact ((hrows row hlt).2 column h).1
    · rw [hbeyond row hge] at h
      cases h
  case symm =>
    intro row column h
    rcases Nat.lt_or_ge row 4 with hlt | hge
    · exact ((hrows row hlt).2 column h).2
    · rw [hbeyond row hge] at h
      cases h

/-- The tailed star, factored in a new workspace; the gap of its pattern has been filled. -/
def factoredStar : { ws : Workspace ℚ //
    Workspace.factorise tailedStar.envelope tailedStar.rows 1 (.ofEnvelope tailedStar.envelope) =
      .ok () ws ∧
    ws.factors.lowerAt tailedStar.envelope 2 1 = -1 / 2 } :=
  have hfactored : (match Workspace.factorise tailedStar.envelope tailedStar.rows 1
      (.ofEnvelope tailedStar.envelope) with
    | .ok () ws => decide (ws.factors.lowerAt tailedStar.envelope 2 1 = -1 / 2)
    | .error _ _ => false) = true := by
    decide +kernel
  match h : Workspace.factorise tailedStar.envelope tailedStar.rows 1
      (.ofEnvelope tailedStar.envelope) with
  | .ok () ws => ⟨ws, rfl, by rw [h] at hfactored; exact of_decide_eq_true hfactored⟩
  | .error _ _ => by rw [h] at hfactored; cases hfactored

/-- **The factors reproduce the matrix.** In a square symmetric pattern every entry beside the
diagonal has a slot of its own, a factorisation starts with every coefficient in its cell, and
whenever it returns factors for a tolerance above zero, in a workspace or without one, their product
is the matrix: the coefficients where the pattern stores one, zero in its gaps and beyond the
envelopes. -/
theorem factors_reproduce (hm : m.SymmetricPattern) (htolerance : Scalar.abs (0 : α) < tolerance)
    {ws : Workspace α} (hws : ws.Fits m.envelope) :
    m.SlotsApart ∧
    (∃ start, Workspace.factorise m.envelope m.rows tolerance ws =
        Workspace.factorRows m.envelope tolerance m.envelope.size 0 start ∧
      ∀ row < m.rowCount, ∀ column < m.rowCount,
        start.factors.cell m.envelope row column = m.coefficient row column) ∧
    (∀ F, factorise m.envelope m.coefficient tolerance = .ok F → m.Reproduces F) ∧
    ∀ ws', Workspace.factorise m.envelope m.rows tolerance ws = .ok () ws' →
      m.Reproduces ws'.factors := by
  refine ⟨hm.slotsApart, ?_, fun F hF => hm.reproduces htolerance hF, ?_⟩
  · refine ⟨_, Workspace.factorise_eq m.envelope m.rows tolerance ws, ?_⟩
    intro row hrow column hcolumn
    exact Workspace.cell_loaded hm.wellFormed hws hrow hcolumn
  · intro ws' h
    -- what a workspace held before does not matter
    have houtcome := Workspace.outcome_factorise tolerance hm.wellFormed hws
    change Workspace.Factors.Outcome m.envelope (factorise m.envelope m.coefficient tolerance)
      (Workspace.factorise m.envelope m.rows tolerance ws) at houtcome
    cases hF : factorise m.envelope m.coefficient tolerance with
    | error pivot =>
      rw [hF] at houtcome
      obtain ⟨_, -, herror⟩ := houtcome
      cases h.symm.trans herror
    | ok F =>
      rw [hF] at houtcome
      obtain ⟨_, -, rfl, hok⟩ := houtcome
      cases h.symm.trans hok
      exact hm.reproduces htolerance hF

/-- The factors of the tailed star have an entry where the pattern has a gap, and multiply to zero
there, as they do where neither of them has a slot. -/
theorem factors_reproduce_tailedStar :
    tailedStar.SymmetricPattern ∧
      (Workspace.ofEnvelope tailedStar.envelope : Workspace ℚ).Fits tailedStar.envelope ∧
      tailedStar.SlotsApart ∧
      factoredStar.val.factors.lowerAt tailedStar.envelope 2 1 = -1 / 2 ∧
      ∃ L U : Matrix (Fin 4) (Fin 4) ℚ,
        L = factoredStar.val.factors.lowerMatrix tailedStar.envelope 4 ∧
        U = factoredStar.val.factors.upperMatrix tailedStar.envelope 4 ∧
        (L * U) 2 0 = 1 ∧ (L * U) 2 1 = 0 ∧ (L * U) 3 1 = 0 ∧ (L * U) 3 3 = 2 := by
  have hfits := Workspace.fits_ofEnvelope (α := ℚ) tailedStar.envelope
  have hzero : Scalar.abs (0 : ℚ) < 1 := by
    rw [ExactScalar.abs_eq_abs, abs_zero]
    exact one_pos
  obtain ⟨hfactored, hfilled⟩ := factoredStar.property
  obtain ⟨hslots, -, -, hproduct⟩ :=
    factors_reproduce symmetricPattern_tailedStar hzero hfits
  have hmatrix : factoredStar.val.factors.lowerMatrix tailedStar.envelope 4 *
      factoredStar.val.factors.upperMatrix tailedStar.envelope 4 =
        leading tailedStar.coefficient 4 := hproduct _ hfactored
  refine ⟨symmetricPattern_tailedStar, hfits, hslots, hfilled, _, _, rfl, rfl, ?_⟩
  rw [hmatrix]
  exact ⟨rfl, rfl, rfl, rfl⟩

end BlockMatrix

end CarrierTransport.LinearSystem
