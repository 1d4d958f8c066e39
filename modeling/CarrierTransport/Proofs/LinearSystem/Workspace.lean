import Mathlib
import CarrierTransport.LinearSystem.Solve
import CarrierTransport.Proofs.LinearSystem.Scaling
import CarrierTransport.Proofs.Loop
import CarrierTransport.Proofs.Transition

/-!
# What a workspace held before does not matter

A factorisation in a workspace starts from arrays that an earlier one left behind. The cells are
zeroed and the entries of the matrix put into them; the scratch rows are not, but they are read only
at marked columns, and a row finds its own mark only where it has just written (`Midway`). So row
after row the cells hold what elimination from the matrix alone gives (`Between`), and a solve in any
workspace of the right size has the outcome of a solve without one (`BlockMatrix.solveIn_eq`), over
every scalar type and also when a pivot is refused.
-/

namespace CarrierTransport.LinearSystem

/-! ### Tables with slots -/

section Slots

variable {β : Type} {env : Envelope} {table : Array (Array β)} {row column : Nat}

theorem getD_push (values : Array β) (v d : β) (j : Nat) :
    (values.push v).getD j d = if j = values.size then v else values.getD j d := by
  simp only [Array.getD_eq_getD_getElem?, Array.getElem?_push]
  split_ifs <;> rfl

theorem getD_setIfInBounds (values : Array β) {k : Nat} (hk : k < values.size) (v d : β) (j : Nat) :
    (values.setIfInBounds k v).getD j d = if j = k then v else values.getD j d := by
  simp only [Array.getD_eq_getD_getElem?, Array.getElem?_setIfInBounds, eq_comm (a := k), if_pos hk]
  split_ifs <;> rfl

/-- A table with a slot for every column of every envelope. -/
structure HasSlots (env : Envelope) (table : Array (Array β)) : Prop where
  size : table.size = env.size
  row_size : ∀ row < env.size, (table.getD row #[]).size = row - env.start row

namespace Factors

theorem getD_setSlot (h : HasSlots env table) (hrow : row < env.size)
    (hstart : env.start row ≤ column) (hcolumn : column < row) (v : β) (i : Nat) :
    (setSlot env table row column v).getD i #[] =
      if i = row then (table.getD row #[]).setIfInBounds (column - env.start row) v
      else table.getD i #[] := by
  have hsize := h.size
  rw [setSlot, Envelope.slot?, if_pos ⟨hstart, hcolumn⟩]
  simp only [Array.getD_eq_getD_getElem?, Array.getElem?_modify]
  by_cases hi : i = row
  · subst hi
    rw [if_pos rfl, if_pos rfl, Array.getElem?_eq_getElem (by omega)]
    rfl
  · rw [if_neg (Ne.symm hi), if_neg hi]

theorem hasSlots_setSlot (h : HasSlots env table) (row column : Nat) (v : β) :
    HasSlots env (setSlot env table row column v) := by
  rw [setSlot]
  split
  · next slot hslot =>
    have hsize := h.size
    refine ⟨by rw [Array.size_modify, h.size], fun i hi => ?_⟩
    rw [← h.row_size i hi]
    simp only [Array.getD_eq_getD_getElem?, Array.getElem?_modify]
    split_ifs
    · rw [Array.getElem?_eq_getElem (by omega)]
      simp
    · rfl
  · exact h

end Factors

end Slots

variable {α : Type} [Scalar α] {env : Envelope}

/-! ### Cells -/

namespace Envelope

/-- There is a cell for the entry at a row and column. -/
def HasCell (env : Envelope) (row column : Nat) : Prop :=
  max row column < env.size ∧ (row ≠ column → env.start (max row column) ≤ min row column)

theorem hasCell_left {row column : Nat} (hrow : row < env.size) (hstart : env.start row ≤ column)
    (hcolumn : column < row) : env.HasCell row column := by
  refine ⟨by omega, fun _ => ?_⟩
  rw [max_eq_left hcolumn.le, min_eq_right hcolumn.le]
  exact hstart

theorem HasCell.symm {row column : Nat} (h : env.HasCell row column) : env.HasCell column row := by
  refine ⟨?_, fun hne => ?_⟩
  · rw [max_comm]
    exact h.1
  · rw [max_comm, min_comm]
    exact h.2 (Ne.symm hne)

theorem hasCell_diagonal {row : Nat} (hrow : row < env.size) : env.HasCell row row :=
  ⟨by rwa [max_self], fun hne => absurd rfl hne⟩

theorem HasCell.start_le {row column : Nat} (h : env.HasCell row column) (hcolumn : column < row) :
    env.start row ≤ column := by
  have hle := h.2 (by omega)
  rwa [max_eq_left hcolumn.le, min_eq_right hcolumn.le] at hle

end Envelope

namespace Factors

/-- The tables have the shape of the envelope. -/
structure Fits (env : Envelope) (F : Factors α) : Prop where
  pivots : F.pivots.size = env.size
  lower : HasSlots env F.lower
  upper : HasSlots env F.upper

theorem entry_setSlot {table : Array (Array α)} (h : HasSlots env table) {row column : Nat}
    (hrow : row < env.size) (hstart : env.start row ≤ column) (hcolumn : column < row) (v : α)
    (i j : Nat) : env.entry ((setSlot env table row column v).getD i #[]) i j =
      if i = row ∧ j = column then v else env.entry (table.getD i #[]) i j := by
  have hslots := h.row_size row hrow
  rw [getD_setSlot h hrow hstart hcolumn]
  by_cases hi : i = row
  · subst hi
    rw [if_pos rfl, Envelope.entry_eq_ite, Envelope.entry_eq_ite]
    by_cases hj : env.start i ≤ j ∧ j < i
    · rw [if_pos hj, if_pos hj, getD_setIfInBounds _ (by omega)]
      by_cases hjc : j = column
      · rw [if_pos (by omega), if_pos ⟨rfl, hjc⟩]
      · rw [if_neg (by omega), if_neg (by simp [hjc])]
    · rw [if_neg hj, if_neg hj, if_neg (by omega)]
  · rw [if_neg hi, if_neg (by simp [hi])]

variable {F : Factors α}

theorem cell_of_lt {row column : Nat} (h : column < row) :
    F.cell env row column = F.lowerAt env row column :=
  if_pos h

theorem cell_of_gt {row column : Nat} (h : row < column) :
    F.cell env row column = F.upperAt env row column := by
  rw [cell, if_neg (by omega), if_pos h]

variable (env) in
theorem cell_self (row : Nat) : F.cell env row row = F.pivotAt row := by
  rw [cell, if_neg (lt_irrefl row), if_neg (lt_irrefl row)]

omit [Scalar α] in
theorem Fits.setCell (hF : F.Fits env) (row column : Nat) (v : α) :
    (F.setCell env row column v).Fits env := by
  obtain ⟨pivots, lower, upper⟩ := F
  simp only [Factors.setCell]
  split_ifs
  · exact ⟨hF.pivots, hasSlots_setSlot hF.lower _ _ _, hF.upper⟩
  · exact ⟨hF.pivots, hF.lower, hasSlots_setSlot hF.upper _ _ _⟩
  · exact ⟨by rw [Array.size_setIfInBounds]; exact hF.pivots, hF.lower, hF.upper⟩

/-- Setting a cell sets this cell and no other. -/
theorem Fits.cell_setCell (hF : F.Fits env) {row column : Nat} (h : env.HasCell row column) (v : α)
    (i j : Nat) : (F.setCell env row column v).cell env i j =
      if i = row ∧ j = column then v else F.cell env i j := by
  have hlt := h.1
  obtain ⟨pivots, lower, upper⟩ := F
  simp only [Factors.setCell]
  rcases lt_trichotomy column row with hc | rfl | hc
  · rw [if_pos hc]
    rcases lt_trichotomy j i with hj | rfl | hj
    · rw [cell_of_lt hj, cell_of_lt hj, lowerAt_eq_entry, lowerAt_eq_entry]
      exact entry_setSlot hF.lower (by omega) (h.start_le hc) hc v i j
    · rw [cell_self, cell_self, if_neg (by omega)]
      rfl
    · rw [cell_of_gt hj, cell_of_gt hj, if_neg (by omega)]
      rfl
  · rw [if_neg (lt_irrefl _), if_neg (lt_irrefl _)]
    rcases lt_trichotomy j i with hj | rfl | hj
    · rw [cell_of_lt hj, cell_of_lt hj, if_neg (by omega)]
      rfl
    · have hsize : pivots.size = env.size := hF.pivots
      rw [cell_self, cell_self, pivotAt, pivotAt, getD_setIfInBounds _ (by omega)]
      simp only [and_self]
    · rw [cell_of_gt hj, cell_of_gt hj, if_neg (by omega)]
      rfl
  · rw [if_neg (by omega), if_pos hc]
    rcases lt_trichotomy j i with hj | rfl | hj
    · rw [cell_of_lt hj, cell_of_lt hj, if_neg (by omega)]
      rfl
    · rw [cell_self, cell_self, if_neg (by omega)]
      rfl
    · rw [cell_of_gt hj, cell_of_gt hj, upperAt_eq_entry, upperAt_eq_entry]
      refine (entry_setSlot hF.upper (by omega) (h.symm.start_le hc) hc v j i).trans ?_
      simp only [and_comm]

/-- Factors of one shape are told apart by their cells. -/
theorem Fits.ext {F' : Factors α} (hF : F.Fits env) (hF' : F'.Fits env)
    (h : ∀ i j, env.HasCell i j → F.cell env i j = F'.cell env i j) : F = F' := by
  have htable : ∀ {table table' : Array (Array α)}, HasSlots env table → HasSlots env table' →
      (∀ i < env.size, ∀ j, env.start i ≤ j → j < i →
        env.entry (table.getD i #[]) i j = env.entry (table'.getD i #[]) i j) →
      table = table' := by
    intro table table' ht ht' hentry
    refine Array.ext (ht.size.trans ht'.size.symm) fun i hi hi' => ?_
    have hlt : i < env.size := by rw [← ht.size]; exact hi
    have hget : table.getD i #[] = table[i] := by simp [hi]
    have hget' : table'.getD i #[] = table'[i] := by simp [hi']
    have hrow := ht.row_size i hlt
    have hrow' := ht'.row_size i hlt
    rw [hget] at hrow
    rw [hget'] at hrow'
    refine Array.ext (hrow.trans hrow'.symm) fun k hk hk' => ?_
    have hslot := hentry i hlt (env.start i + k) (by omega) (by omega)
    rw [hget, hget', Envelope.entry_eq_ite, Envelope.entry_eq_ite, if_pos (by omega),
      if_pos (by omega), Nat.add_sub_cancel_left] at hslot
    simpa [hk, hk'] using hslot
  have hlower : F.lower = F'.lower := by
    refine htable hF.lower hF'.lower fun i hi j hstart hj => ?_
    have hcell := h i j (Envelope.hasCell_left hi hstart hj)
    rwa [cell_of_lt hj, cell_of_lt hj] at hcell
  have hupper : F.upper = F'.upper := by
    refine htable hF.upper hF'.upper fun i hi j hstart hj => ?_
    have hcell := h j i (Envelope.hasCell_left hi hstart hj).symm
    rwa [cell_of_gt hj, cell_of_gt hj] at hcell
  have hpivots : F.pivots = F'.pivots := by
    refine Array.ext (hF.pivots.trans hF'.pivots.symm) fun i hi hi' => ?_
    have hcell := h i i (Envelope.hasCell_diagonal (by rw [← hF.pivots]; exact hi))
    rw [cell_self, cell_self] at hcell
    simpa [pivotAt, hi, hi'] using hcell
  obtain ⟨pivots, lower, upper⟩ := F
  obtain ⟨pivots', lower', upper'⟩ := F'
  cases hlower
  cases hupper
  cases hpivots
  rfl

end Factors

/-! ### Workspaces of an envelope -/

namespace Workspace

/-- The arrays have the sizes of the envelope. -/
structure Fits (env : Envelope) (ws : Workspace α) : Prop where
  factors : ws.factors.Fits env
  marker : ws.marker.size = env.size
  rowLower : ws.rowLower.size = env.size
  columnUpper : ws.columnUpper.size = env.size

theorem hasSlots_replicate (env : Envelope) : HasSlots env
    ((Array.range env.size).map fun row => Array.replicate (row - env.start row) (0 : α)) := by
  refine ⟨by simp, fun row hrow => ?_⟩
  simp [hrow]

theorem fits_ofEnvelope (env : Envelope) : (ofEnvelope env : Workspace α).Fits env := by
  refine ⟨⟨?_, hasSlots_replicate env, hasSlots_replicate env⟩, ?_, ?_, ?_⟩
  · exact Array.size_replicate
  · exact Array.size_replicate
  · exact Array.size_replicate
  · exact Array.size_replicate

theorem hasSlots_map {table : Array (Array α)} (h : HasSlots env table) :
    HasSlots env (table.map fun slots => slots.map fun _ => (0 : α)) := by
  refine ⟨by rw [Array.size_map, h.size], fun row hrow => ?_⟩
  rw [← h.row_size row hrow, Array.getD_eq_getD_getElem?, Array.getD_eq_getD_getElem?,
    Array.getElem?_map]
  cases table[row]? <;> simp

variable {ws : Workspace α}

theorem Fits.clear (h : ws.Fits env) : ws.clear.Fits env := by
  refine ⟨⟨?_, hasSlots_map h.factors.lower, hasSlots_map h.factors.upper⟩, h.marker, h.rowLower,
    h.columnUpper⟩
  exact (Array.size_map ..).trans h.factors.pivots

theorem Fits.reset (h : ws.Fits env) : ws.reset.Fits env := by
  refine ⟨h.clear.factors, ?_, h.rowLower, h.columnUpper⟩
  exact (Array.size_map ..).trans h.marker

theorem cell_reset (ws : Workspace α) (i j : Nat) : ws.reset.factors.cell env i j = 0 := by
  have hslots : ∀ (table : Array (Array α)) (row column : Nat),
      env.entry ((table.map fun slots => slots.map fun _ => (0 : α)).getD row #[]) row column =
        0 := by
    intro table row column
    rw [Envelope.entry_eq_ite]
    split_ifs
    · simp only [Array.getD_eq_getD_getElem?, Array.getElem?_map]
      cases table[row]? with
      | none => rfl
      | some slots =>
        simp only [Option.map_some, Option.getD_some, Array.getElem?_map]
        cases slots[column - env.start row]? <;> rfl
    · rfl
  rcases lt_trichotomy j i with hj | rfl | hj
  · rw [Factors.cell_of_lt hj]
    exact hslots _ _ _
  · rw [Factors.cell_self, Factors.pivotAt, reset, clear, Array.getD_eq_getD_getElem?,
      Array.getElem?_map]
    cases ws.factors.pivots[j]? <;> rfl
  · rw [Factors.cell_of_gt hj]
    exact hslots _ _ _

theorem marker_reset (ws : Workspace α) (k : Nat) : ws.reset.marker.getD k none = none := by
  rw [reset, Array.getD_eq_getD_getElem?, Array.getElem?_map]
  cases ws.marker[k]? <;> rfl

/-! ### The entries of the matrix -/

/-- The entries of a row are put into their cells; the other cells stay as they are. -/
theorem cell_foldl_setCell {row : Nat} {entries : List (Entry α)} {F : Factors α}
    (hF : F.Fits env) (hcell : ∀ e ∈ entries, env.HasCell row e.column)
    (hasc : (entries.map Entry.column).Pairwise (· < ·)) :
    (entries.foldl (fun F e => F.setCell env row e.column e.value) F).Fits env ∧
      ∀ i j, (entries.foldl (fun F e => F.setCell env row e.column e.value) F).cell env i j =
        if i = row then (entries.find? fun e => e.column == j).elim (F.cell env i j) Entry.value
        else F.cell env i j := by
  induction entries generalizing F with
  | nil => exact ⟨hF, fun i j => by simp⟩
  | cons e entries ih =>
    rw [List.map_cons, List.pairwise_cons] at hasc
    obtain ⟨hfits, hcells⟩ := ih (hF.setCell row e.column e.value)
      (fun e' he' => hcell e' (List.mem_cons_of_mem e he')) hasc.2
    refine ⟨hfits, fun i j => ?_⟩
    rw [List.foldl_cons, hcells, hF.cell_setCell (hcell e List.mem_cons_self), List.find?_cons]
    by_cases hi : i = row
    · subst hi
      rw [if_pos rfl, if_pos rfl]
      by_cases hj : j = e.column
      · -- no later entry has the column of the first
        have hnone : (entries.find? fun e' => e'.column == j) = none := by
          rw [List.find?_eq_none]
          intro e' he' hcolumn
          have hlt := hasc.1 e'.column (List.mem_map_of_mem he')
          rw [beq_iff_eq.1 hcolumn, hj] at hlt
          exact lt_irrefl _ hlt
        rw [hnone, hj, beq_self_eq_true, if_pos ⟨rfl, rfl⟩]
        rfl
      · rw [if_neg (by simp [hj]), beq_eq_false_iff_ne.2 (Ne.symm hj)]
    · rw [if_neg hi, if_neg hi, if_neg (by simp [hi])]

omit [Scalar α] in
theorem hasCell_of_mem {m : BlockMatrix α} (hm : m.WellFormed) {row column : Nat}
    (h : column ∈ m.columnsOf row) : m.envelope.HasCell row column := by
  have hrow := hm.lt column row (hm.symm row column h)
  have hcolumn := hm.lt row column h
  rw [← m.size_envelope] at hrow hcolumn
  rcases lt_trichotomy column row with hlt | rfl | hlt
  · exact Envelope.hasCell_left hrow (hm.start_envelope_le_of_mem h) hlt
  · exact Envelope.hasCell_diagonal hrow
  · have hstart := hm.start_envelope_le_of_mem (hm.symm row column h)
    exact (Envelope.hasCell_left hcolumn hstart hlt).symm

/-- The workspace when the first rows of a matrix have been put into its cells. -/
structure Loaded (m : BlockMatrix α) (rows : Nat) (ws : Workspace α) : Prop where
  fits : ws.Fits m.envelope
  cell : ∀ i j, m.envelope.HasCell i j →
    ws.factors.cell m.envelope i j = if i < rows then m.coefficient i j else 0
  marker : ∀ k, ws.marker.getD k none = none

theorem Loaded.step {m : BlockMatrix α} (hm : m.WellFormed) {row : Nat} (h : Loaded m row ws) :
    Loaded m (row + 1) (loadRow m.envelope m.rows ws row) := by
  have hcolumns : ∀ e ∈ (m.rows.getD row #[]).toList, m.envelope.HasCell row e.column := by
    intro e he
    refine hasCell_of_mem hm ?_
    rw [m.columnsOf_eq_map]
    exact List.mem_map_of_mem he
  have hasc := hm.ascending row
  rw [m.columnsOf_eq_map] at hasc
  obtain ⟨hfits, hcells⟩ := cell_foldl_setCell h.fits.factors hcolumns hasc
  have hload : (loadRow m.envelope m.rows ws row).factors =
      (m.rows.getD row #[]).toList.foldl
        (fun F e => F.setCell m.envelope row e.column e.value) ws.factors := by
    rw [loadRow, Array.foldl_toList]
  constructor
  case fits =>
    refine ⟨?_, h.fits.marker, h.fits.rowLower, h.fits.columnUpper⟩
    rw [hload]
    exact hfits
  case cell =>
    intro i j hij
    rw [hload, hcells, h.cell i j hij]
    by_cases hi : i = row
    · subst hi
      rw [if_pos rfl, if_neg (lt_irrefl i), if_pos (by omega), m.coefficient_eq_elim]
    · rw [if_neg hi]
      by_cases hlt : i < row
      · rw [if_pos hlt, if_pos (by omega)]
      · rw [if_neg hlt, if_neg (by omega)]
  case marker => exact h.marker

theorem loaded_foldl {m : BlockMatrix α} (hm : m.WellFormed) (hws : ws.Fits m.envelope) :
    Loaded m m.envelope.size
      ((List.range m.envelope.size).foldl (loadRow m.envelope m.rows) ws.reset) := by
  refine Loop.foldl_range_invariant (Loaded m) ?_ fun row _ _ h => h.step hm
  exact ⟨hws.reset, fun i j _ => by rw [cell_reset, if_neg (by omega)], marker_reset ws⟩

/-! ### Elimination in place -/

/-- The workspace between two rows: the cells of the rows before hold the factors, the others the
matrix, and no row has been marked that is not done. -/
structure Between (env : Envelope) (A : Nat → Nat → α) (row : Nat) (ws : Workspace α) : Prop where
  fits : ws.Fits env
  done : ∀ i j, i < row → j < row → ws.factors.cell env i j = (eliminated env A row).cell env i j
  rest : ∀ i j, env.HasCell i j → row ≤ max i j → ws.factors.cell env i j = A i j
  marker : ∀ k i, ws.marker.getD k none = some i → i < row

/-- The workspace when the columns of a row before `column` are done. What is known of the row is in
its cells and, at the marked columns, in the scratch rows. -/
structure Midway (env : Envelope) (A : Nat → Nat → α) (F : Factors α) (row column : Nat)
    (known : PartialRow α) (ws : Workspace α) : Prop where
  fits : ws.Fits env
  done : ∀ i j, i < row → j < row → ws.factors.cell env i j = F.cell env i j
  rest : ∀ i j, env.HasCell i j → row < max i j → ws.factors.cell env i j = A i j
  ahead : ∀ j, env.start row ≤ j → column ≤ j → j < row →
    ws.factors.cell env row j = A row j ∧ ws.factors.cell env j row = A j row
  lower_size : known.lower.size = column - env.start row
  upper_size : known.upper.size = column - env.start row
  lower : ∀ j, env.start row ≤ j → j < column →
    ws.factors.cell env row j = known.lower.getD (j - env.start row) 0
  upper : ∀ j, env.start row ≤ j → j < column →
    ws.factors.cell env j row = known.upper.getD (j - env.start row) 0
  marker : ∀ k, ws.marker.getD k none = some row ↔ env.start row ≤ k ∧ k < column
  marker_le : ∀ k i, ws.marker.getD k none = some i → i ≤ row
  rowLower : ∀ k, env.start row ≤ k → k < column →
    ws.rowLower.getD k 0 = known.lower.getD (k - env.start row) 0
  columnUpper : ∀ k, env.start row ≤ k → k < column →
    ws.columnUpper.getD k 0 = known.upper.getD (k - env.start row) 0

variable {A : Nat → Nat → α} {F : Factors α} {row column : Nat} {known : PartialRow α}

/-- Where only marked columns contribute, the scratch rows hold what the row itself wrote. -/
theorem Midway.reduce_eq (h : Midway env A F row column known ws) (hstart : env.start row ≤ column)
    (hcolumn : column < row) :
    reduce env ws row column = reduceEntries env A F row column known := by
  obtain ⟨hlower, hupper⟩ := h.ahead column hstart le_rfl hcolumn
  rw [reduce, reduceEntries, hlower, hupper, Envelope.columns]
  refine Loop.foldl_range'_skip ?_ ?_
  · rintro k - hk ⟨l, u⟩
    have hunmarked : ¬ ws.marker.getD k none = some row := by
      intro hmarked
      have hrange := (h.marker k).1 hmarked
      omega
    exact if_neg hunmarked
  · rintro k hk hlt ⟨l, u⟩
    have hmarked := (h.marker k).2 ⟨by omega, by omega⟩
    have hcellUpper := h.done k column (by omega) hcolumn
    have hcellLower := h.done column k hcolumn (by omega)
    rw [Factors.cell_of_gt (by omega), Factors.cell_of_gt (by omega)] at hcellUpper
    rw [Factors.cell_of_lt (by omega), Factors.cell_of_lt (by omega)] at hcellLower
    dsimp only
    rw [if_pos hmarked, hcellUpper, hcellLower, h.rowLower k (by omega) (by omega),
      h.columnUpper k (by omega) (by omega)]

/-- A finished entry is pushed to what is known of its row and written to a scratch row. -/
theorem getD_scratch {values known : Array α} {start : Nat} (v : α) (hlt : column < values.size)
    (hknown : known.size = column - start) (hstart : start ≤ column)
    (h : ∀ k, start ≤ k → k < column → values.getD k 0 = known.getD (k - start) 0) :
    ∀ k, start ≤ k → k < column + 1 →
      (values.setIfInBounds column v).getD k 0 = (known.push v).getD (k - start) 0 := by
  intro k hk hkc
  rw [getD_setIfInBounds values hlt, getD_push known v, hknown]
  by_cases hkv : k = column
  · rw [if_pos hkv, if_pos (by omega)]
  · rw [if_neg hkv, if_neg (by omega), h k hk (by omega)]

/-- Writing the entries of a column, whatever they are, joins them to what is known of the row. -/
theorem Midway.write (h : Midway env A F row column known ws) (hrow : row < env.size)
    (hstart : env.start row ≤ column) (hcolumn : column < row) (l u pivot : α) :
    Midway env A F row (column + 1) ⟨known.lower.push l, known.upper.push u, pivot⟩
      ((ws.mark row column).write env row column l u) := by
  have hleft : env.HasCell row column := Envelope.hasCell_left hrow hstart hcolumn
  have hcells : ∀ i j, ((ws.mark row column).write env row column l u).factors.cell env i j =
      if i = column ∧ j = row then u else if i = row ∧ j = column then l
      else ws.factors.cell env i j := by
    intro i j
    refine ((h.fits.factors.setCell row column l).cell_setCell hleft.symm u i j).trans ?_
    rw [h.fits.factors.cell_setCell hleft]
  have hmarker : ∀ k, ((ws.mark row column).write env row column l u).marker.getD k none =
      if k = column then some row else ws.marker.getD k none :=
    getD_setIfInBounds ws.marker (by rw [h.fits.marker]; omega) (some row) none
  have hrowLower : column < ws.rowLower.size := by
    rw [h.fits.rowLower]
    omega
  have hcolumnUpper : column < ws.columnUpper.size := by
    rw [h.fits.columnUpper]
    omega
  constructor
  case fits =>
    refine ⟨(h.fits.factors.setCell row column l).setCell column row u, ?_, ?_, ?_⟩
    · exact (Array.size_setIfInBounds ..).trans h.fits.marker
    · exact (Array.size_setIfInBounds ..).trans h.fits.rowLower
    · exact (Array.size_setIfInBounds ..).trans h.fits.columnUpper
  case done =>
    intro i j hi hj
    rw [hcells, if_neg (by omega), if_neg (by omega), h.done i j hi hj]
  case rest =>
    intro i j hij hlt
    rw [hcells, if_neg (by omega), if_neg (by omega), h.rest i j hij hlt]
  case ahead =>
    intro j hj hcj hlt
    rw [hcells, hcells, if_neg (by omega), if_neg (by omega), if_neg (by omega),
      if_neg (by omega)]
    exact h.ahead j hj (by omega) hlt
  case lower_size => rw [Array.size_push, h.lower_size]; omega
  case upper_size => rw [Array.size_push, h.upper_size]; omega
  case lower =>
    intro j hj hlt
    rw [hcells, if_neg (by omega), getD_push known.lower l, h.lower_size]
    by_cases hjc : j = column
    · rw [if_pos ⟨rfl, hjc⟩, if_pos (by omega)]
    · rw [if_neg (by omega), if_neg (by omega), h.lower j hj (by omega)]
  case upper =>
    intro j hj hlt
    rw [hcells, getD_push known.upper u, h.upper_size]
    by_cases hjc : j = column
    · rw [if_pos ⟨hjc, rfl⟩, if_pos (by omega)]
    · rw [if_neg (by omega), if_neg (by omega), if_neg (by omega), h.upper j hj (by omega)]
  case marker =>
    intro k
    rw [hmarker]
    by_cases hkc : k = column
    · rw [if_pos hkc]
      exact iff_of_true rfl (by omega)
    · rw [if_neg hkc, h.marker]
      omega
  case marker_le =>
    intro k i hmarked
    rw [hmarker] at hmarked
    by_cases hkc : k = column
    · rw [if_pos hkc] at hmarked
      cases hmarked
      exact le_rfl
    · rw [if_neg hkc] at hmarked
      exact h.marker_le k i hmarked
  case rowLower =>
    exact getD_scratch l hrowLower h.lower_size hstart h.rowLower
  case columnUpper =>
    exact getD_scratch u hcolumnUpper h.upper_size hstart h.columnUpper

/-- The mark at a column is not read while the column is reduced. -/
theorem reduce_mark (hws : ws.Fits env) (hcolumn : column < env.size) :
    reduce env (ws.mark row column) row column = reduce env ws row column := by
  refine List.foldl_ext _ _ _ fun (l, u) k hk => ?_
  have hlt : k < column := by
    have hrange := List.mem_range'_1.1 hk
    omega
  have hmarker := getD_setIfInBounds ws.marker (by rwa [hws.marker]) (some row) none k
  rw [if_neg (by omega)] at hmarker
  simp only [mark, hmarker]

theorem Midway.step (h : Midway env A F row column known ws) (hrow : row < env.size)
    (hstart : env.start row ≤ column) (hcolumn : column < row) :
    eliminateColumn env row (ws, known.pivot) column =
        ((eliminateColumn env row (ws, known.pivot) column).1,
          (LinearSystem.eliminateColumn env A F row known column).pivot) ∧
      Midway env A F row (column + 1) (LinearSystem.eliminateColumn env A F row known column)
        (eliminateColumn env row (ws, known.pivot) column).1 := by
  have hpivot : (ws.mark row column).factors.pivotAt column = F.pivotAt column := by
    have hcell := h.done column column hcolumn hcolumn
    rwa [Factors.cell_self, Factors.cell_self] at hcell
  have hreduce := (reduce_mark h.fits (by omega)).trans (h.reduce_eq hstart hcolumn)
  rw [eliminateColumn, LinearSystem.eliminateColumn]
  simp only [hreduce, hpivot]
  exact ⟨trivial, h.write hrow hstart hcolumn _ _ _⟩

/-- A row starts with its entries in their cells and no column marked by it. -/
theorem Between.midway (h : Between env A row ws) (hrow : row < env.size) :
    Midway env A (eliminated env A row) row (env.start row) ⟨#[], #[], A row row⟩ ws where
  fits := h.fits
  done := h.done
  rest i j hij hlt := h.rest i j hij hlt.le
  ahead j hj _ hlt := by
    have hleft := Envelope.hasCell_left hrow hj hlt
    exact ⟨h.rest row j hleft (le_max_left _ _), h.rest j row hleft.symm (le_max_right _ _)⟩
  lower_size := by simp
  upper_size := by simp
  lower j hj hlt := by omega
  upper j hj hlt := by omega
  marker k := by
    refine iff_of_false (fun hmarked => ?_) (by omega)
    exact lt_irrefl row (h.marker k row hmarked)
  marker_le k i hmarked := (h.marker k i hmarked).le
  rowLower k hk hlt := by omega
  columnUpper k hk hlt := by omega

/-- A row eliminated where it stands, before its pivot is put into its cell. -/
theorem Between.midway_columns (h : Between env A row ws) (hrow : row < env.size)
    (hstart : env.start row ≤ row) :
    ∃ done, (env.columns row).foldl (eliminateColumn env row) (ws, ws.factors.pivotAt row) =
        (done, pivotMet env A row) ∧
      Midway env A (eliminated env A row) row row
        (LinearSystem.eliminateRow env A (eliminated env A row) row) done := by
  have hpivot : ws.factors.pivotAt row = A row row := by
    rw [← h.rest row row (Envelope.hasCell_diagonal hrow) (le_max_left _ _), Factors.cell_self]
  have hstep : ∀ column (state : Workspace α × α) (known : PartialRow α),
      env.start row ≤ column → column < env.start row + (row - env.start row) →
      state.2 = known.pivot ∧ Midway env A (eliminated env A row) row column known state.1 →
      (eliminateColumn env row state column).2 =
          (LinearSystem.eliminateColumn env A (eliminated env A row) row known column).pivot ∧
        Midway env A (eliminated env A row) row (column + 1)
          (LinearSystem.eliminateColumn env A (eliminated env A row) row known column)
          (eliminateColumn env row state column).1 := by
    rintro column ⟨before, pivot⟩ known hcolumn hlt ⟨rfl, hmid⟩
    obtain ⟨hnext, hmid'⟩ := hmid.step hrow hcolumn (by omega)
    exact ⟨congrArg Prod.snd hnext, hmid'⟩
  have hloop := Loop.foldl_range'_pair (fun column (state : Workspace α × α) known =>
    state.2 = known.pivot ∧ Midway env A (eliminated env A row) row column known state.1)
    (b := (ws, ws.factors.pivotAt row)) (c := ⟨#[], #[], A row row⟩)
    ⟨hpivot, h.midway hrow⟩ hstep
  rw [Nat.add_sub_cancel' hstart] at hloop
  exact ⟨_, Prod.ext rfl hloop.1, hloop.2⟩

theorem Midway.cell_lower (h : Midway env A F row row known ws) {j : Nat} (hj : j < row) :
    ws.factors.cell env row j = env.entry known.lower row j := by
  rw [Envelope.entry_eq_ite]
  by_cases hstart : env.start row ≤ j
  · rw [if_pos ⟨hstart, hj⟩, h.lower j hstart hj]
  · rw [if_neg (by omega), Factors.cell_of_lt hj, Factors.lowerAt_eq_entry,
      Envelope.entry_of_lt_start (by omega)]

theorem Midway.cell_upper (h : Midway env A F row row known ws) {j : Nat} (hj : j < row) :
    ws.factors.cell env j row = env.entry known.upper row j := by
  rw [Envelope.entry_eq_ite]
  by_cases hstart : env.start row ≤ j
  · rw [if_pos ⟨hstart, hj⟩, h.upper j hstart hj]
  · rw [if_neg (by omega), Factors.cell_of_gt hj, Factors.upperAt_eq_entry,
      Envelope.entry_of_lt_start (by omega)]

/-- A row eliminated where it stands is the next row of the factors. -/
theorem Between.step (h : Between env A row ws) (hrow : row < env.size)
    (hstart : env.start row ≤ row) :
    Between env A (row + 1) (eliminateRow env ws row) ∧
      (eliminateRow env ws row).factors.pivotAt row = pivotMet env A row := by
  obtain ⟨done, hcolumns, hmid⟩ := h.midway_columns hrow hstart
  have hrows := hasRows_eliminated env A row
  have hcells : ∀ i j, (eliminateRow env ws row).factors.cell env i j =
      if i = row ∧ j = row then pivotMet env A row else done.factors.cell env i j := by
    intro i j
    rw [eliminateRow, hcolumns]
    exact hmid.fits.factors.cell_setCell (Envelope.hasCell_diagonal hrow) _ i j
  have hpivot : (eliminateRow env ws row).factors.pivotAt row = pivotMet env A row := by
    rw [← Factors.cell_self env, hcells, if_pos ⟨rfl, rfl⟩]
  refine ⟨?_, hpivot⟩
  constructor
  case fits =>
    rw [eliminateRow, hcolumns]
    exact ⟨hmid.fits.factors.setCell row row _, hmid.fits.marker, hmid.fits.rowLower,
      hmid.fits.columnUpper⟩
  case done =>
    intro i j hi hj
    rw [hcells, eliminated]
    rcases lt_trichotomy j i with hlt | rfl | hlt
    · rw [if_neg (by omega), Factors.cell_of_lt (F := Factors.extend _ _) hlt,
        Factors.lowerAt_extend hrows]
      by_cases hir : i = row
      · rw [if_pos hir, hir, hmid.cell_lower (by omega)]
      · rw [if_neg hir, hmid.done i j (by omega) (by omega), Factors.cell_of_lt hlt]
    · rw [Factors.cell_self (F := Factors.extend _ _), Factors.pivotAt_extend hrows]
      by_cases hjr : j = row
      · rw [if_pos ⟨hjr, hjr⟩, if_pos hjr, pivotMet]
      · rw [if_neg (by omega), if_neg hjr, hmid.done j j (by omega) (by omega), Factors.cell_self]
    · rw [if_neg (by omega), Factors.cell_of_gt (F := Factors.extend _ _) hlt,
        Factors.upperAt_extend hrows]
      by_cases hjr : j = row
      · rw [if_pos hjr, hjr, hmid.cell_upper (by omega)]
      · rw [if_neg hjr, hmid.done i j (by omega) (by omega), Factors.cell_of_gt hlt]
  case rest =>
    intro i j hij hle
    rw [hcells, if_neg (by omega), hmid.rest i j hij (by omega)]
  case marker =>
    intro k i hmarked
    rw [eliminateRow, hcolumns] at hmarked
    exact Nat.lt_succ_of_le (hmid.marker_le k i hmarked)

/-! ### The whole factorisation -/

theorem size_eliminateRow (A : Nat → Nat → α) (F : Factors α) (hstart : env.start row ≤ row) :
    (LinearSystem.eliminateRow env A F row).lower.size = row - env.start row ∧
      (LinearSystem.eliminateRow env A F row).upper.size = row - env.start row := by
  have hstep : ∀ k (known : PartialRow α), env.start row ≤ k →
      k < env.start row + (row - env.start row) →
      known.lower.size = k - env.start row ∧ known.upper.size = k - env.start row →
      (LinearSystem.eliminateColumn env A F row known k).lower.size = k + 1 - env.start row ∧
        (LinearSystem.eliminateColumn env A F row known k).upper.size = k + 1 - env.start row := by
    rintro k known hk - ⟨hlower, hupper⟩
    simp only [LinearSystem.eliminateColumn, Array.size_push]
    omega
  have hloop := Loop.foldl_range'_invariant (fun k (known : PartialRow α) =>
    known.lower.size = k - env.start row ∧ known.upper.size = k - env.start row)
    (b := ⟨#[], #[], A row row⟩) (by simp) hstep
  rwa [Nat.add_sub_cancel' hstart] at hloop

theorem size_rows_eliminated (A : Nat → Nat → α) (hstart : ∀ i, env.start i ≤ i) (rows : Nat) :
    ∀ i < rows, ((eliminated env A rows).lower.getD i #[]).size = i - env.start i ∧
      ((eliminated env A rows).upper.getD i #[]).size = i - env.start i := by
  induction rows with
  | zero => omega
  | succ rows ih =>
    intro i hi
    have hrows := hasRows_eliminated env A rows
    rw [eliminated, Factors.extend, getD_push, getD_push, hrows.lower, hrows.upper]
    by_cases hir : i = rows
    · rw [if_pos hir, if_pos hir, hir]
      exact size_eliminateRow A _ (hstart rows)
    · rw [if_neg hir, if_neg hir]
      exact ih i (by omega)

theorem fits_eliminated (A : Nat → Nat → α) (hstart : ∀ i, env.start i ≤ i) :
    (eliminated env A env.size).Fits env := by
  have hrows := hasRows_eliminated env A env.size
  have hsizes := size_rows_eliminated A hstart env.size
  exact ⟨hrows.pivots, ⟨hrows.lower, fun i hi => (hsizes i hi).1⟩,
    ⟨hrows.upper, fun i hi => (hsizes i hi).2⟩⟩

/-- When all rows are done, the cells hold the factors. -/
theorem Between.factors_eq (h : Between env A env.size ws) (hstart : ∀ i, env.start i ≤ i) :
    ws.factors = eliminated env A env.size := by
  refine h.fits.factors.ext (fits_eliminated A hstart) fun i j hij => ?_
  have hlt := hij.1
  exact h.done i j (by omega) (by omega)

variable (tolerance : α)

/-- What a factorisation in place has in common with the one that keeps no workspace: it ends in the
same factors or at the same pivot. -/
def Factors.Outcome (env : Envelope) (expected : Except (SmallPivot α) (Factors α))
    (found : EStateM.Result (SmallPivot α) (Workspace α) Unit) : Prop :=
  match expected with
  | .ok F => ∃ ws : Workspace α, ws.Fits env ∧ ws.factors = F ∧ found = .ok () ws
  | .error pivot => ∃ ws : Workspace α, ws.Fits env ∧ found = .error pivot ws

theorem outcome_factorRows {count : Nat} (h : Between env A row ws)
    (hcount : row + count = env.size) (hstart : ∀ i, env.start i ≤ i) :
    Factors.Outcome env
      ((List.range' row count).foldlM (LinearSystem.factorRow env A tolerance)
        (eliminated env A row))
      (factorRows env tolerance count row ws) := by
  induction count generalizing row ws with
  | zero =>
    obtain rfl : row = env.size := hcount
    exact ⟨ws, h.fits, h.factors_eq hstart, rfl⟩
  | succ count ih =>
    obtain ⟨hnext, hpivot⟩ := h.step (by omega) (hstart row)
    rw [List.range'_succ, List.foldlM_cons, factorRow_eliminated, factorRows]
    change Factors.Outcome env _ (EStateM.bind (factorRow env tolerance row) _ ws)
    rw [EStateM.bind, factorRow, hpivot]
    by_cases hsmall : Scalar.abs (pivotMet env A row) < tolerance
    · rw [if_pos hsmall, if_pos hsmall]
      exact ⟨_, hnext.fits, rfl⟩
    · rw [if_neg hsmall, if_neg hsmall]
      exact ih hnext (by omega)

theorem Loaded.between {m : BlockMatrix α} (h : Loaded m m.envelope.size ws) :
    Between m.envelope m.coefficient 0 ws where
  fits := h.fits
  done i j hi _ := by omega
  rest i j hij _ := by
    have hlt := hij.1
    rw [h.cell i j hij, if_pos (by omega)]
  marker k i hmarked := by
    rw [h.marker] at hmarked
    cases hmarked

/-- **A factorisation ignores what its workspace held before.** -/
theorem outcome_factorise {m : BlockMatrix α} (hm : m.WellFormed) (hws : ws.Fits m.envelope) :
    Factors.Outcome m.envelope (LinearSystem.factorise m.envelope m.coefficient tolerance)
      (factorise m.envelope m.rows tolerance ws) := by
  have hrows := outcome_factorRows tolerance (loaded_foldl hm hws).between
    (Nat.zero_add _) m.start_envelope_le
  rw [← List.range_eq_range'] at hrows
  exact hrows

/-! ### Substitution in place -/

/-- One more row in the place of what was there and behind what is known. -/
theorem forwardRow_step (F : Factors α) (b : Array α) {y z : Array α} (hrow : row < env.size)
    (h : y.size = env.size ∧ z.size = row ∧ ∀ j < row, y.getD j 0 = z.getD j 0) :
    (forwardRow env F b y row).size = env.size ∧
      (LinearSystem.forwardRow env F b z row).size = row + 1 ∧
      ∀ j < row + 1, (forwardRow env F b y row).getD j 0 =
        (LinearSystem.forwardRow env F b z row).getD j 0 := by
  obtain ⟨hy, hz, hentries⟩ := h
  have hvalue : (env.columns row).foldl
      (fun acc k => acc - F.lowerAt env row k * y.getD k 0) (b.getD row 0) =
      (env.columns row).foldl
        (fun acc k => acc - F.lowerAt env row k * z.getD k 0) (b.getD row 0) := by
    refine List.foldl_ext _ _ _ fun acc k hk => ?_
    have hrange := List.mem_range'_1.1 hk
    rw [hentries k (by omega)]
  refine ⟨?_, ?_, fun j hj => ?_⟩
  · rw [forwardRow, Array.size_setIfInBounds, hy]
  · rw [LinearSystem.forwardRow, Array.size_push, hz]
  · rw [forwardRow, LinearSystem.forwardRow, hvalue, getD_setIfInBounds y (by omega), getD_push,
      hz]
    by_cases hjr : j = row
    · rw [if_pos hjr, if_pos hjr]
    · rw [if_neg hjr, if_neg hjr, hentries j (by omega)]

/-- The solution of an earlier solve makes room for the new one. -/
theorem substitute_eq (F : Factors α) (b : Array α) {x : Array α} (hx : x.size = env.size) :
    substitute env F b x = LinearSystem.substitute env F b := by
  obtain ⟨hy, hz, hentries⟩ := Loop.foldl_range_pair (fun k (y z : Array α) =>
    y.size = env.size ∧ z.size = k ∧ ∀ j < k, y.getD j 0 = z.getD j 0) (b := x) (c := #[])
    ⟨hx, rfl, by omega⟩ fun row y z hrow h => forwardRow_step F b hrow h
  rw [substitute, LinearSystem.substitute]
  congr 1
  refine Array.ext (hy.trans hz.symm) fun i hi hi' => ?_
  have hentry := hentries i (by rwa [hz] at hi')
  simpa [hi, hi'] using hentry

end Workspace

/-! ### The solve -/

namespace BlockMatrix

variable {m : BlockMatrix α} {ws : Workspace α}

theorem envelope_scaled (m : BlockMatrix α) : m.scaled.envelope = m.envelope := by
  rw [scaled, scaleColumns, envelope, pattern_mapEntries, envelope]

theorem solveIn_of_error {ws' : Workspace α} {pivot : SmallPivot α}
    (h : Workspace.factorise m.envelope m.scaled.rows m.pivotTolerance ws = .error pivot ws') :
    solveIn (m, ws) =
      .error (.singularPivot pivot.row pivot.magnitude) (m.restored, ws') := by
  rw [← m.envelope_scaled] at h
  rw [solveIn]
  split
  · next hfound =>
    cases hfound.symm.trans h
    rfl
  · next hfound => cases hfound.symm.trans h

theorem solveIn_of_ok {ws' : Workspace α}
    (h : Workspace.factorise m.envelope m.scaled.rows m.pivotTolerance ws = .ok () ws') :
    solveIn (m, ws) =
      .ok () ({ m.restored with
        solution := (Workspace.substitute m.envelope ws'.factors m.rhs m.solution).zipWith
          (· / ·) m.diagonalScale }, ws') := by
  rw [← m.envelope_scaled] at h ⊢
  rw [solveIn]
  split
  · next hfound => cases hfound.symm.trans h
  · next hfound =>
    cases hfound.symm.trans h
    rfl

/-- **A solve ignores what its workspace held before.** It ends as the solve without a workspace
does, and leaves a workspace of the same size behind. -/
theorem solveIn_eq (hm : m.WellFormed) (hws : ws.Fits m.envelope) :
    ∃ ws' : Workspace α, ws'.Fits m.envelope ∧
      solveIn (m, ws) = match solve m with
        | .ok u s => .ok u (s, ws')
        | .error e s => .error e (s, ws') := by
  have hscaled : m.scaled.WellFormed := by
    rw [scaled, scaleColumns]
    exact hm.of_samePlaces (m.samePlaces_mapEntries _)
  have houtcome := Workspace.outcome_factorise m.pivotTolerance hscaled
    (by rwa [m.envelope_scaled])
  rw [solve_eq_factorise]
  rw [m.envelope_scaled] at houtcome
  cases hfactorise : factorise m.envelope m.scaled.coefficient m.pivotTolerance with
  | error pivot =>
    rw [hfactorise] at houtcome
    obtain ⟨ws', hfits, hfound⟩ := houtcome
    exact ⟨ws', hfits, solveIn_of_error hfound⟩
  | ok F =>
    rw [hfactorise] at houtcome
    obtain ⟨ws', hfits, rfl, hfound⟩ := houtcome
    refine ⟨ws', hfits, ?_⟩
    rw [solveIn_of_ok hfound]
    dsimp only
    rw [Workspace.substitute_eq _ _ (hm.solution_size.trans m.size_envelope.symm)]

end BlockMatrix

end CarrierTransport.LinearSystem
