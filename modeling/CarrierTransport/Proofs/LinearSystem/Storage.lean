import Mathlib
import CarrierTransport.Proofs.LinearSystem.RoundTrip

/-!
# All rows in one array

The coefficients of a system can be kept in one array, row after row, with the number of
coefficients before each row as its offset. A coefficient then stands at the offset of its row and
its position in the row. Every number of the array belongs to a coefficient
(`BlockMatrix.WellFormed.exists_slot`), and to one only (`BlockMatrix.WellFormed.slot_inj`), so the
array and the rows say the same (`BlockMatrix.KeptApart`).

The columns of a row ascend. So there is one position at most where a column can be found, however
it is searched for (`BlockMatrix.WellFormed.position_iff`).
-/

namespace CarrierTransport.LinearSystem

open Transition

namespace BlockMatrix

section Storage

variable {α : Type} {m m' : BlockMatrix α}

/-- The coefficients of all rows, one row after the other. -/
def storage (m : BlockMatrix α) : Array α :=
  m.rows.flatMap fun entries => entries.map Entry.value

/-- The number of a coefficient among those of all rows. -/
def slot (m : BlockMatrix α) (row column : Nat) : Except (MatrixError α) Nat := do
  return m.rowOffsets.getD row 0 + (← m.position row column)

/-- The rows as the blocks of a layout. -/
def rowLayout (m : BlockMatrix α) : Layout :=
  .ofSizes (m.rows.map Array.size)

theorem size_rowLayout (m : BlockMatrix α) (row : Nat) :
    m.rowLayout.sizes.getD row 0 = (m.rows.getD row #[]).size := by
  rw [rowLayout, Layout.ofSizes, Array.getD_eq_getD_getElem?, Array.getD_eq_getD_getElem?,
    Array.getElem?_map]
  cases m.rows[row]? <;> rfl

theorem nodeCount_rowLayout (m : BlockMatrix α) : m.rowLayout.nodeCount = m.rowCount :=
  Array.size_map

/-- A row stands in the storage behind as many coefficients as its offset says. -/
theorem exists_storage (m : BlockMatrix α) {row : Nat} (h : row < m.rowCount) :
    ∃ before after, m.storage.toList =
        before ++ ((m.rows.getD row #[]).map Entry.value).toList ++ after ∧
      before.length = m.rowLayout.offset row := by
  let values (entries : Array (Entry α)) : List α := (entries.map Entry.value).toList
  have hsplit : m.rows.toList =
      m.rows.toList.take row ++ m.rows.getD row #[] :: m.rows.toList.drop (row + 1) := by
    have hlt : row < m.rows.size := h
    rw [getD_rows hlt, ← Array.getElem_toList, List.cons_getElem_drop_succ, List.take_append_drop]
  refine ⟨(m.rows.toList.take row).flatMap values, (m.rows.toList.drop (row + 1)).flatMap values,
    ?_, ?_⟩
  · have hvalues := congrArg (List.flatMap values) hsplit
    rw [List.flatMap_append, List.flatMap_cons, ← List.append_assoc] at hvalues
    rw [storage, Array.toList_flatMap]
    exact hvalues
  · rw [Layout.offset_eq_sum_take _ (by rw [nodeCount_rowLayout]; exact h.le), List.length_flatMap,
      rowLayout, Layout.ofSizes, Array.toList_map, ← List.map_take]
    simp [values]

theorem size_storage (m : BlockMatrix α) : m.storage.size = m.rowLayout.total := by
  rw [Layout.total, Layout.offset_eq_sum_take _ le_rfl, storage, ← Array.length_toList,
    Array.toList_flatMap, List.length_flatMap, nodeCount_rowLayout, rowLayout, Layout.ofSizes,
    Array.toList_map, List.take_of_length_le (by simp [rowCount])]
  simp

theorem getElem?_storage (m : BlockMatrix α) {row k : Nat}
    (hk : k < (m.rows.getD row #[]).size) :
    m.storage[m.rowLayout.offset row + k]? = ((m.rows.getD row #[])[k]?).map Entry.value := by
  have hrow : row < m.rowCount := by
    by_contra hge
    rw [Array.getD_eq_getD_getElem?, Array.getElem?_eq_none (not_lt.1 hge)] at hk
    exact Nat.not_lt_zero _ hk
  obtain ⟨before, after, hstorage, hlength⟩ := m.exists_storage hrow
  rw [← Array.getElem?_toList, hstorage, ← hlength, List.append_assoc,
    List.getElem?_append_right (Nat.le_add_right _ _), Nat.add_sub_cancel_left,
    List.getElem?_append_left (by simpa using hk), Array.getElem?_toList, Array.getElem?_map]

theorem extract_storage (m : BlockMatrix α) {row : Nat} (h : row < m.rowCount) :
    m.storage.extract (m.rowLayout.offset row) (m.rowLayout.offset (row + 1)) =
      (m.rows.getD row #[]).map Entry.value := by
  obtain ⟨before, after, hstorage, hlength⟩ := m.exists_storage h
  have hrow : row < m.rowLayout.nodeCount := by rwa [nodeCount_rowLayout]
  rw [m.rowLayout.offset_succ hrow, size_rowLayout, ← Array.toList_inj, Array.toList_extract,
    hstorage, ← hlength, List.append_assoc]
  simp

/-- In an ascending row the position of a column is the only one where it stands. -/
theorem WellFormed.position_iff (hm : m.WellFormed) {row column k : Nat} :
    m.position row column = .ok k ↔
      ((m.rows.getD row #[])[k]?).map Entry.column = some column := by
  have hcolumns : ∀ i : Nat, (m.columnsOf row)[i]? = ((m.rows.getD row #[])[i]?).map Entry.column := by
    intro i
    rw [columnsOf_eq_map, List.getElem?_map, Array.getElem?_toList]
  have hfound : ∀ i, m.position row column = .ok i → (m.columnsOf row)[i]? = some column := by
    intro i hi
    obtain ⟨hlt, hcolumn, -⟩ := Array.findIdx?_eq_some_iff_getElem.1 (position_eq_ok.1 hi)
    rw [columnsOf, Array.getElem?_toList, Array.getElem?_eq_getElem hlt, beq_iff_eq.1 hcolumn]
  rw [← hcolumns]
  constructor
  · exact hfound k
  · intro hk
    obtain ⟨i, hi⟩ := exists_position (m := m) (List.mem_of_getElem? hk)
    have hnodup := (hm.ascending row).imp fun h => h.ne
    have hlt := (List.getElem?_eq_some_iff.1 (hfound i hi)).1
    rwa [← (List.getElem?_inj hlt hnodup).1 ((hfound i hi).trans hk.symm)]

theorem slot_eq_ok {row column n : Nat} :
    m.slot row column = .ok n ↔
      ∃ k, m.position row column = .ok k ∧ n = m.rowLayout.offset row + k := by
  refine except_bind_eq_ok.trans (exists_congr fun k => and_congr_right fun _ => ?_)
  exact ⟨fun h => by cases h; rfl, fun h => by rw [h]; rfl⟩

theorem SamePlaces.position_eq (h : m.SamePlaces m') (row column : Nat) :
    m'.position row column = m.position row column := by
  by_cases hplace : column ∈ m.columnsOf row
  · obtain ⟨k, hk⟩ := exists_position hplace
    rw [hk, position_eq_ok, h.pattern]
    exact position_eq_ok.1 hk
  · rw [position_of_notMem hplace, position_of_notMem (h.columnsOf ▸ hplace)]

theorem SamePlaces.rowLayout_eq (h : m.SamePlaces m') :
    m'.rowLayout = m.rowLayout := by
  have hsizes : ∀ m : BlockMatrix α, m.rows.map Array.size = m.pattern.map Array.size := by
    intro m
    simp [BlockMatrix.pattern, Function.comp_def]
  rw [rowLayout, rowLayout, hsizes m, hsizes m', h.pattern]

theorem SamePlaces.slot_eq_ok_iff (h : m.SamePlaces m') {row column n : Nat} :
    m'.slot row column = .ok n ↔ m.slot row column = .ok n := by
  rw [slot_eq_ok, slot_eq_ok, h.rowLayout_eq, h.position_eq]

theorem mem_columnsOf_of_slot {row column n : Nat} (h : m.slot row column = .ok n) :
    column ∈ m.columnsOf row := by
  obtain ⟨k, hk, -⟩ := slot_eq_ok.1 h
  exact mem_columnsOf_of_position hk

theorem WellFormed.mem_block_of_slot (hm : m.WellFormed) {row column n : Nat}
    (h : m.slot row column = .ok n) : n ∈ m.rowLayout.block row := by
  obtain ⟨k, hk, rfl⟩ := slot_eq_ok.1 h
  obtain ⟨e, he, -⟩ := Option.map_eq_some_iff.1 (hm.position_iff.1 hk)
  have hlt := (Array.getElem?_eq_some_iff.1 he).1
  rw [← size_rowLayout] at hlt
  exact Layout.offset_add_mem_block hlt

/-- No two coefficients have the same number. -/
theorem WellFormed.slot_inj (hm : m.WellFormed) {row row' column column' n : Nat}
    (h : m.slot row column = .ok n) (h' : m.slot row' column' = .ok n) :
    row = row' ∧ column = column' := by
  have hblock := hm.mem_block_of_slot h
  have hblock' := hm.mem_block_of_slot h'
  -- the blocks of two rows have no number in common
  obtain rfl : row = row' := by
    rcases lt_trichotomy row row' with hlt | heq | hgt
    · exact absurd (m.rowLayout.lt_of_mem_block hlt hblock hblock') (lt_irrefl n)
    · exact heq
    · exact absurd (m.rowLayout.lt_of_mem_block hgt hblock' hblock) (lt_irrefl n)
  obtain ⟨k, hk, rfl⟩ := slot_eq_ok.1 h
  obtain ⟨k', hk', heq⟩ := slot_eq_ok.1 h'
  obtain rfl := Nat.add_left_cancel heq
  refine ⟨rfl, Option.some.inj ?_⟩
  rw [← hm.position_iff.1 hk, hm.position_iff.1 hk']

theorem WellFormed.exists_slot (hm : m.WellFormed) {n : Nat} (h : n < m.storage.size) :
    ∃ row column, m.slot row column = .ok n := by
  rw [size_storage] at h
  obtain ⟨row, -, hblock⟩ := m.rowLayout.exists_block h
  obtain ⟨hle, hlt⟩ := m.rowLayout.mem_block.1 hblock
  obtain ⟨k, rfl⟩ := Nat.exists_eq_add_of_le hle
  rw [size_rowLayout] at hlt
  have hk : k < (m.rows.getD row #[]).size := by omega
  refine ⟨row, (m.rows.getD row #[])[k].column, slot_eq_ok.2 ⟨k, ?_, rfl⟩⟩
  rw [hm.position_iff, Array.getElem?_eq_getElem hk]
  rfl

variable [Scalar α]

theorem WellFormed.getElem?_storage_of_slot (hm : m.WellFormed) {row column n : Nat}
    (h : m.slot row column = .ok n) : m.storage[n]? = some (m.coefficient row column) := by
  obtain ⟨k, hk, rfl⟩ := slot_eq_ok.1 h
  obtain ⟨e, he, rfl⟩ := Option.map_eq_some_iff.1 (hm.position_iff.1 hk)
  have hmem : e ∈ (m.rows.getD row #[]).toList := Array.mem_toList_iff.2 (Array.mem_of_getElem? he)
  rw [m.getElem?_storage (Array.getElem?_eq_some_iff.1 he).1, he, hm.coefficient_eq_value hmem]
  rfl

theorem WellFormed.entry_eq_storage (hm : m.WellFormed) (row column : Nat) :
    m.entry row column = (m.slot row column).map fun n => m.storage.getD n 0 := by
  cases hk : m.position row column with
  | error e =>
    rw [entry, slot, hk]
    rfl
  | ok k =>
    have hslot := slot_eq_ok.2 ⟨k, hk, rfl⟩
    rw [entry_of_mem (mem_columnsOf_of_position hk), hslot]
    refine congrArg Except.ok (Eq.symm ?_)
    change m.storage.getD (m.rowLayout.offset row + k) 0 = _
    rw [Array.getD_eq_getD_getElem?, hm.getElem?_storage_of_slot hslot, Option.getD_some]

/-- The coefficients can be kept in one array, row after row, each at a number of its own. -/
structure KeptApart (m : BlockMatrix α) : Prop where
  /-- However a row is searched for a column, this is what is found. -/
  position_iff : ∀ row column k, m.position row column = .ok k ↔
    ((m.rows.getD row #[])[k]?).map Entry.column = some column
  /-- A row is a slice of the array. -/
  row : ∀ row < m.rowCount,
    m.storage.extract (m.rowOffsets.getD row 0) (m.rowOffsets.getD (row + 1) 0) =
      (m.rows.getD row #[]).map Entry.value
  entry : ∀ row column, m.entry row column = (m.slot row column).map fun n => m.storage.getD n 0
  slot_inj : ∀ row row' column column' n, m.slot row column = .ok n →
    m.slot row' column' = .ok n → row = row' ∧ column = column'

theorem WellFormed.keptApart (hm : m.WellFormed) : m.KeptApart where
  position_iff _ _ _ := hm.position_iff
  row _ h := m.extract_storage h
  entry := hm.entry_eq_storage
  slot_inj _ _ _ _ _ h h' := hm.slot_inj h h'

end Storage

end BlockMatrix

end CarrierTransport.LinearSystem
