import Mathlib
import CarrierTransport.LinearSystem.Coordinate
import CarrierTransport.Proofs.LinearSystem.Blocks
import CarrierTransport.Proofs.Loop
import CarrierTransport.Proofs.Scalar.Exact

/-!
# The places of a system

A system is built from a mesh or from a coordinate file; afterwards its coefficients, right hand
side, solution and tolerance may take any values, while its places stay (`BlockMatrix.Built`).
However it was built, its pattern is symmetric, the columns of a row ascend and name rows, and both
vectors have an entry for each row (`BlockMatrix.Built.wellFormed`).

The coefficients are then a square matrix: what runs over the stored coefficients of a row runs
over all columns (`BlockMatrix.WellFormed.foldl_row`).
-/

namespace CarrierTransport.LinearSystem

open Finset (range)
open Mesh (Topology)

/-! ### Systems with the same places -/

namespace BlockMatrix

variable {α : Type}

/-- Two systems that differ in their numbers only. -/
structure SamePlaces (m m' : BlockMatrix α) : Prop where
  layout : m'.layout = m.layout
  pattern : m'.pattern = m.pattern
  rhs_size : m'.rhs.size = m.rhs.size
  solution_size : m'.solution.size = m.solution.size

theorem SamePlaces.rfl {m : BlockMatrix α} : m.SamePlaces m :=
  ⟨Eq.refl _, Eq.refl _, Eq.refl _, Eq.refl _⟩

theorem SamePlaces.trans {m m' m'' : BlockMatrix α} (h : m.SamePlaces m')
    (h' : m'.SamePlaces m'') : m.SamePlaces m'' where
  layout := h'.layout.trans h.layout
  pattern := h'.pattern.trans h.pattern
  rhs_size := h'.rhs_size.trans h.rhs_size
  solution_size := h'.solution_size.trans h.solution_size

theorem samePlaces_of_modifyEntry {m m' : BlockMatrix α} {row column : Nat} {f : α → α}
    (h : m.modifyEntry row column f = .ok m') : m.SamePlaces m' := by
  rw [modifyEntry] at h
  cases hk : m.position row column with
  | error e => rw [hk] at h; cases h
  | ok k =>
    rw [hk] at h
    cases h
    refine ⟨Eq.refl _, ?_, Eq.refl _, Eq.refl _⟩
    refine Array.ext (by simp [pattern]) fun i hi hi' => ?_
    simp only [pattern, Array.getElem_map, Array.getElem_modify]
    split_ifs
    · refine Array.ext (by simp) fun j hj hj' => ?_
      simp only [Array.getElem_map, Array.getElem_modify]
      split_ifs <;> rfl
    · rfl

/-! ### Well-formed systems -/

/-- The columns stored in a row. -/
def columnsOf (m : BlockMatrix α) (row : Nat) : List Nat :=
  (m.pattern.getD row #[]).toList

/-- What the places of every system are like. -/
structure WellFormed (m : BlockMatrix α) : Prop where
  rhs_size : m.rhs.size = m.rowCount
  solution_size : m.solution.size = m.rowCount
  ascending : ∀ row, (m.columnsOf row).Pairwise (· < ·)
  lt : ∀ row, ∀ column ∈ m.columnsOf row, column < m.rowCount
  symm : ∀ row, ∀ column ∈ m.columnsOf row, row ∈ m.columnsOf column

theorem size_pattern (m : BlockMatrix α) : m.pattern.size = m.rowCount :=
  Array.size_map

theorem columnsOf_eq_map (m : BlockMatrix α) (row : Nat) :
    m.columnsOf row = (m.rows.getD row #[]).toList.map Entry.column := by
  rw [columnsOf, pattern, Array.getD_eq_getD_getElem?, Array.getD_eq_getD_getElem?,
    Array.getElem?_map]
  cases m.rows[row]? <;> simp

theorem columnsOf_of_le (m : BlockMatrix α) {row : Nat} (h : m.rowCount ≤ row) :
    m.columnsOf row = [] := by
  rw [columnsOf, Array.getD_eq_getD_getElem?,
    Array.getElem?_eq_none (by rwa [size_pattern]), Option.getD_none]

theorem SamePlaces.rowCount {m m' : BlockMatrix α} (h : m.SamePlaces m') :
    m'.rowCount = m.rowCount := by
  rw [← size_pattern, ← size_pattern, h.pattern]

theorem SamePlaces.columnsOf {m m' : BlockMatrix α} (h : m.SamePlaces m') :
    m'.columnsOf = m.columnsOf := by
  funext row
  rw [BlockMatrix.columnsOf, BlockMatrix.columnsOf, h.pattern]

theorem WellFormed.of_samePlaces {m m' : BlockMatrix α} (hm : m.WellFormed)
    (h : m.SamePlaces m') : m'.WellFormed := by
  have hcolumns := h.columnsOf
  constructor
  case rhs_size => rw [h.rhs_size, h.rowCount, hm.rhs_size]
  case solution_size => rw [h.solution_size, h.rowCount, hm.solution_size]
  case ascending => rw [hcolumns]; exact hm.ascending
  case lt => rw [hcolumns, h.rowCount]; exact hm.lt
  case symm => rw [hcolumns]; exact hm.symm

/-! ### Systems of couplings -/

variable [Scalar α] (layout : Layout) (c : Couplings)

theorem toList_rows_ofCouplings :
    (ofCouplings (α := α) layout c).rows.toList =
      layout.perUnknown
        (fun node => ((c.columns layout node).map fun column => ⟨column, 0⟩).toArray)
        layout.nodeCount := by
  simp only [ofCouplings, Layout.perUnknown, Array.toList_flatMap, Array.toList_replicate]

theorem rowCount_ofCouplings : (ofCouplings (α := α) layout c).rowCount = layout.total := by
  rw [rowCount, ← Array.length_toList, toList_rows_ofCouplings,
    layout.length_perUnknown _ le_rfl, Layout.total]

theorem getD_rows_ofCouplings {node row : Nat} (hrow : row ∈ layout.block node) :
    (ofCouplings (α := α) layout c).rows.getD row #[] =
      ((c.columns layout node).map fun column => ⟨column, 0⟩).toArray := by
  rw [Array.getD_eq_getD_getElem?, ← Array.getElem?_toList, toList_rows_ofCouplings,
    layout.getElem?_perUnknown _ le_rfl (layout.lt_nodeCount_of_mem_block hrow) hrow,
    Option.getD_some]

theorem columnsOf_ofCouplings {node row : Nat} (hrow : row ∈ layout.block node) :
    (ofCouplings (α := α) layout c).columnsOf row = c.columns layout node := by
  rw [columnsOf_eq_map, getD_rows_ofCouplings layout c hrow]
  simp [Function.comp_def]

/-- The row of a stored column belongs to a node that is coupled to the node of the column. -/
theorem exists_of_mem_columnsOf_ofCouplings {row column : Nat}
    (h : column ∈ (ofCouplings (α := α) layout c).columnsOf row) :
    ∃ node, row ∈ layout.block node ∧ ∃ other ∈ c.getD node [], column ∈ layout.block other := by
  rcases Nat.lt_or_ge row layout.total with hlt | hge
  · obtain ⟨node, -, hrow⟩ := layout.exists_block hlt
    rw [columnsOf_ofCouplings layout c hrow, Couplings.mem_columns] at h
    exact ⟨node, hrow, h⟩
  · rw [columnsOf_of_le _ (by rwa [rowCount_ofCouplings])] at h
    simp at h

variable {layout c}

theorem wellFormed_ofCouplings (hc : c.Proper layout.nodeCount) :
    (ofCouplings (α := α) layout c).WellFormed := by
  constructor
  case rhs_size => rw [rowCount_ofCouplings, ofCouplings, Array.size_replicate]
  case solution_size => rw [rowCount_ofCouplings, ofCouplings, Array.size_replicate]
  case ascending =>
    intro row
    rcases Nat.lt_or_ge row layout.total with hlt | hge
    · obtain ⟨node, -, hrow⟩ := layout.exists_block hlt
      rw [columnsOf_ofCouplings layout c hrow]
      exact hc.pairwise_columns node
    · rw [columnsOf_of_le _ (by rwa [rowCount_ofCouplings])]
      exact List.Pairwise.nil
  case lt =>
    intro row column h
    obtain ⟨node, -, other, -, hcolumn⟩ := exists_of_mem_columnsOf_ofCouplings layout c h
    rw [rowCount_ofCouplings]
    exact layout.lt_total_of_mem_block hcolumn
  case symm =>
    intro row column h
    obtain ⟨node, hrow, other, hother, hcolumn⟩ := exists_of_mem_columnsOf_ofCouplings layout c h
    rw [columnsOf_ofCouplings layout c hcolumn, Couplings.mem_columns]
    exact ⟨node, hc.symm node other hother, hrow⟩

end BlockMatrix

/-! ### Systems of a mesh -/

namespace Couplings

theorem proper_ofTopology {α : Type} {mesh : Topology α} {c : Couplings}
    (h : ofTopology? mesh = some c) : c.Proper mesh.nodes.size := by
  rw [ofTopology?] at h
  simp only [Option.ite_none_right_eq_some, Option.some.injEq] at h
  obtain ⟨hall, rfl⟩ := h
  refine proper_ofPairs fun p hp => ?_
  simpa using List.all_eq_true.1 hall p hp

end Couplings

namespace BlockMatrix

variable {α : Type} [Scalar α]

variable {mesh : Topology α} {sizes : Array Nat} {m : BlockMatrix α}

/-- The empty system of a mesh is that of its couplings. -/
theorem ofTopology_eq_ok :
    ofTopology mesh sizes = .ok m ↔
      sizes.size = mesh.nodes.size ∧ (∀ size ∈ sizes, 0 < size) ∧
        ∃ c, Couplings.ofTopology? mesh = some c ∧ m = ofCouplings (.ofSizes sizes) c := by
  have hpos : sizes.findIdx? (· == 0) = none ↔ ∀ size ∈ sizes, 0 < size := by
    simp [Array.findIdx?_eq_none_iff, Nat.pos_iff_ne_zero]
  rw [ofTopology]
  split_ifs with hcount
  · exact ⟨nofun, fun h => absurd h.1 hcount⟩
  · rw [← hpos, not_not.1 hcount]
    cases sizes.findIdx? (· == 0) with
    | some node => simp
    | none => cases Couplings.ofTopology? mesh <;> simp [eq_comm]

theorem wellFormed_ofTopology (h : ofTopology mesh sizes = .ok m) : m.WellFormed := by
  obtain ⟨hcount, -, c, hc, rfl⟩ := ofTopology_eq_ok.1 h
  have hnodes : (Layout.ofSizes sizes).nodeCount = mesh.nodes.size := hcount
  exact wellFormed_ofCouplings (hnodes ▸ Couplings.proper_ofTopology hc)

end BlockMatrix

/-! ### Systems of a coordinate file -/

section Coordinate

variable {α : Type} {number? : List Char → Option α}

/-- Coefficients inside of a matrix of `n` rows. -/
def Inside (n : Nat) (triplets : List (Triplet α)) : Prop :=
  ∀ t ∈ triplets, t.row < n ∧ t.column < n

theorem readTriplet_inside {n : Nat} {words : List (List Char)} {t : Triplet α}
    (h : readTriplet number? n words = .ok t) : t.row < n ∧ t.column < n := by
  unfold readTriplet at h
  split at h
  · split at h
    · cases h
    · split at h
      · cases h
      · split at h
        · cases h
        · split_ifs at h with hbounds
          cases h
          exact ⟨by dsimp only; omega, by dsimp only; omega⟩
  · cases h

theorem readLine_inside {state state' : CoordinateState α} {number : Nat} {line : String}
    (h : readLine number? state number line = .ok state')
    (hstate : ∀ n ts, state = some (n, ts) → Inside n ts) :
    ∀ n ts, state' = some (n, ts) → Inside n ts := by
  unfold readLine at h
  split at h
  · cases h
    exact hstate
  · split at h
    · split at h
      · cases h
        rintro n ts ⟨⟩ t ht
        simp at ht
      · cases h
    · next n triplets =>
      split at h
      · next t ht =>
        cases h
        rintro n' ts ⟨⟩ t' ht'
        rcases List.mem_cons.1 ht' with rfl | ht'
        · exact readTriplet_inside ht
        · exact hstate _ _ rfl t' ht'
      · cases h

theorem readLines_inside {lines : List (Except StorageError String)}
    {state state' : CoordinateState α} {number : Nat}
    (h : readLines number? state number lines = .ok state')
    (hstate : ∀ n ts, state = some (n, ts) → Inside n ts) :
    ∀ n ts, state' = some (n, ts) → Inside n ts := by
  induction lines generalizing state number with
  | nil =>
    cases h
    exact hstate
  | cons line lines ih =>
    cases line with
    | error e => cases h
    | ok line =>
      rw [readLines] at h
      cases hread : readLine number? state number line with
      | error e => rw [hread] at h; cases h
      | ok next =>
        rw [hread] at h
        exact ih h (readLine_inside hread hstate)

namespace BlockMatrix

theorem samePlaces_of_foldlM_modifyEntry {triplets : List (Triplet α)} {m m' : BlockMatrix α}
    (h : triplets.foldlM (fun m t => m.modifyEntry t.row t.column fun _ => t.value) m = .ok m') :
    m.SamePlaces m' := by
  induction triplets generalizing m with
  | nil =>
    cases h
    exact .rfl
  | cons t triplets ih =>
    rw [List.foldlM_cons] at h
    cases hstep : m.modifyEntry t.row t.column fun _ => t.value with
    | error e => rw [hstep] at h; cases h
    | ok next =>
      rw [hstep] at h
      exact (samePlaces_of_modifyEntry hstep).trans (ih h)

variable [Scalar α]

theorem wellFormed_ofTriplets {n : Nat} {triplets : List (Triplet α)} {m : BlockMatrix α}
    (hinside : Inside n triplets) (h : ofTriplets n triplets = .ok m) : m.WellFormed := by
  have hcount : (Layout.ofSizes (Array.replicate n 1)).nodeCount = n := Array.size_replicate
  have hproper : (Couplings.ofPairs n (triplets.map fun t => (t.row, t.column))).Proper n := by
    refine Couplings.proper_ofPairs fun p hp => ?_
    obtain ⟨t, ht, rfl⟩ := List.mem_map.1 hp
    exact hinside t ht
  exact (wellFormed_ofCouplings (by rwa [hcount])).of_samePlaces
    (samePlaces_of_foldlM_modifyEntry h)

/-- Lines that give a matrix list coefficients inside of it. -/
theorem exists_ofTriplets {lines : List (Except StorageError String)} {m : BlockMatrix α}
    (h : ofCoordinateLines number? lines = .ok m) :
    ∃ n triplets, Inside n triplets ∧ ofTriplets n triplets = .ok m := by
  rw [ofCoordinateLines] at h
  cases hread : readLines number? none 1 lines with
  | error e => rw [hread] at h; cases h
  | ok state =>
    rw [hread] at h
    cases state with
    | none => cases h
    | some state =>
      have hinside := readLines_inside hread (by rintro n ts ⟨⟩) _ _ rfl
      exact ⟨_, _, fun t ht => hinside t (List.mem_reverse.1 ht), h⟩

theorem wellFormed_ofCoordinateLines {lines : List (Except StorageError String)}
    {m : BlockMatrix α} (h : ofCoordinateLines number? lines = .ok m) : m.WellFormed := by
  obtain ⟨n, triplets, hinside, hm⟩ := exists_ofTriplets h
  exact wellFormed_ofTriplets hinside hm

end BlockMatrix

end Coordinate

/-! ### Every system -/

namespace BlockMatrix

variable {α : Type} [Scalar α]

/-- A system with the places of a mesh or of a coordinate file, and any numbers in them. -/
inductive Built : BlockMatrix α → Prop where
  | ofTopology {mesh : Topology α} {sizes : Array Nat} {base m : BlockMatrix α}
      (hbase : BlockMatrix.ofTopology mesh sizes = .ok base) (hm : base.SamePlaces m) : Built m
  | ofCoordinateLines {number? : List Char → Option α} {lines : List (Except StorageError String)}
      {base m : BlockMatrix α} (hbase : BlockMatrix.ofCoordinateLines number? lines = .ok base)
      (hm : base.SamePlaces m) : Built m

/-- **The places of every system are well formed.** -/
theorem Built.wellFormed {m : BlockMatrix α} (h : m.Built) : m.WellFormed := by
  cases h with
  | ofTopology hbase hm => exact (wellFormed_ofTopology hbase).of_samePlaces hm
  | ofCoordinateLines hbase hm => exact (wellFormed_ofCoordinateLines hbase).of_samePlaces hm

/-! ### The coefficients as a matrix -/

theorem coefficient_eq_elim (m : BlockMatrix α) (row column : Nat) :
    m.coefficient row column =
      ((m.rows.getD row #[]).toList.find? fun e => e.column == column).elim 0 Entry.value := by
  rw [coefficient, Array.find?_toList]
  cases (m.rows.getD row #[]).find? fun e => e.column == column <;> rfl

theorem coefficient_eq_zero {m : BlockMatrix α} {row column : Nat}
    (h : column ∉ m.columnsOf row) : m.coefficient row column = 0 := by
  rw [coefficient_eq_elim, List.find?_eq_none.2 fun e he hcolumn => ?_, Option.elim_none]
  rw [columnsOf_eq_map] at h
  exact h (List.mem_map.2 ⟨e, he, beq_iff_eq.1 hcolumn⟩)

end BlockMatrix

section Sums

variable {α : Type} [ExactScalar α]

/-- What stored coefficients contribute is what a row of `n` coefficients contributes. -/
theorem sum_find_eq_sum_map (x : Nat → α) {n : Nat} {entries : List (Entry α)}
    (hlt : ∀ e ∈ entries, e.column < n) (hasc : (entries.map Entry.column).Pairwise (· < ·)) :
    ∑ c ∈ range n, (entries.find? fun e => e.column == c).elim 0 Entry.value * x c =
      (entries.map fun e => e.value * x e.column).sum := by
  induction entries with
  | nil => simp
  | cons e entries ih =>
    rw [List.map_cons, List.pairwise_cons] at hasc
    -- no later coefficient has the column of the first
    have hnone : (entries.find? fun e' => e'.column == e.column) = none := by
      rw [List.find?_eq_none]
      intro e' he' hcolumn
      have hlt' := hasc.1 e'.column (List.mem_map_of_mem he')
      rw [beq_iff_eq.1 hcolumn] at hlt'
      exact lt_irrefl _ hlt'
    have hterm : ∀ c ∈ range n,
        ((e :: entries).find? fun e => e.column == c).elim 0 Entry.value * x c =
          (if c = e.column then e.value * x c else 0) +
            (entries.find? fun e => e.column == c).elim 0 Entry.value * x c := by
      intro c _
      rw [List.find?_cons]
      by_cases hc : c = e.column
      · rw [if_pos hc, hc, hnone, beq_self_eq_true]
        simp
      · rw [if_neg hc, beq_eq_false_iff_ne.2 (Ne.symm hc), zero_add]
    rw [Finset.sum_congr rfl hterm, Finset.sum_add_distrib, Finset.sum_ite_eq',
      if_pos (Finset.mem_range.2 (hlt e List.mem_cons_self)), List.map_cons, List.sum_cons,
      ih (fun e' he' => hlt e' (List.mem_cons_of_mem e he')) hasc.2]

/-- Taking the terms of the stored coefficients of a row off a number takes off those of the whole
row. -/
theorem BlockMatrix.WellFormed.foldl_row {m : BlockMatrix α} (hm : m.WellFormed) (x : Nat → α)
    (b : α) (row : Nat) :
    (m.rows.getD row #[]).foldl (fun acc e => acc - e.value * x e.column) b =
      b - ∑ c ∈ range m.rowCount, m.coefficient row c * x c := by
  have hlt : ∀ e ∈ (m.rows.getD row #[]).toList, e.column < m.rowCount := by
    intro e he
    refine hm.lt row e.column ?_
    rw [columnsOf_eq_map]
    exact List.mem_map_of_mem he
  have hasc := hm.ascending row
  rw [columnsOf_eq_map] at hasc
  rw [← Array.foldl_toList, Loop.foldl_sub, ← sum_find_eq_sum_map x hlt hasc]
  simp only [coefficient_eq_elim]

end Sums

end CarrierTransport.LinearSystem
