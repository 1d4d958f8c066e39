import Mathlib
import CarrierTransport.LinearSystem.Solve
import CarrierTransport.Proofs.LinearSystem.Scaling
import CarrierTransport.Proofs.LinearSystem.Substitution
import CarrierTransport.Proofs.Loop

/-!
# What the operations of a system change

Every operation on a system keeps its places and its pivot tolerance (`BlockMatrix.SameSystem`), so
two systems with the same places are equal as soon as they are cleared (`SameSystem.clear_eq`). A
write at an address changes the coefficient or the right hand side there and nothing else, and the
equations of a node that are replaced by `diagonal * x = 0` are read back as such.

An address of two coupled nodes has a place, so a write there cannot fail.
-/

namespace CarrierTransport

/-! ### Joined nodes -/

/-- Some element joins the two nodes, in either direction. -/
def Mesh.Topology.Joins {α : Type} (mesh : Mesh.Topology α) (i j : Nat) : Prop :=
  ∃ e ∈ mesh.elements, e.left = i ∧ e.right = j ∨ e.left = j ∧ e.right = i

namespace LinearSystem

open Mesh (Topology)

/-! ### Addresses -/

namespace Layout

variable {α : Type} {layout : Layout}

theorem index_eq_ok {node sub row : Nat} :
    (layout.index node sub : Except (MatrixError α) Nat) = .ok row ↔
      sub < layout.sizes.getD node 0 ∧ row = layout.offset node + sub := by
  rw [index, Array.getD_eq_getD_getElem?]
  cases layout.sizes[node]? with
  | none => simp
  | some size =>
    by_cases h : sub < size
    · simp [h, eq_comm]
    · simp [h]

theorem index_of_lt {node sub : Nat} (h : sub < layout.sizes.getD node 0) :
    (layout.index node sub : Except (MatrixError α) Nat) = .ok (layout.offset node + sub) :=
  index_eq_ok.2 ⟨h, rfl⟩

theorem offset_add_mem_block {node sub : Nat} (h : sub < layout.sizes.getD node 0) :
    layout.offset node + sub ∈ layout.block node :=
  layout.mem_block.2 ⟨by omega, by omega⟩

theorem lt_nodeCount_of_lt_size {node sub : Nat} (h : sub < layout.sizes.getD node 0) :
    node < layout.nodeCount :=
  layout.lt_nodeCount_of_mem_block (offset_add_mem_block h)

end Layout

/-! ### Coupled nodes -/

/-- A mesh has couplings only if its elements end at nodes. -/
theorem Couplings.ends_lt {α : Type} {mesh : Topology α} {c : Couplings}
    (h : ofTopology? mesh = some c) {e : Mesh.Element α} (he : e ∈ mesh.elements) :
    e.left < mesh.nodes.size ∧ e.right < mesh.nodes.size := by
  rw [ofTopology?] at h
  simp only [Option.ite_none_right_eq_some] at h
  simpa using List.all_eq_true.1 h.1 _ (List.mem_map.2 ⟨e, Array.mem_toList_iff.2 he, rfl⟩)

/-- A mesh whose elements end at nodes has couplings. -/
theorem Couplings.exists_ofTopology {α : Type} {mesh : Topology α}
    (hends : ∀ e ∈ mesh.elements, e.left < mesh.nodes.size ∧ e.right < mesh.nodes.size) :
    ∃ c, ofTopology? mesh = some c := by
  refine ⟨_, if_pos (List.all_eq_true.2 fun q hq => ?_)⟩
  obtain ⟨e, he, rfl⟩ := List.mem_map.1 hq
  simpa using hends e (Array.mem_toList_iff.1 he)

/-- The couplings of a mesh are its elements, and every node with itself. -/
theorem Couplings.mem_getD_ofTopology {α : Type} {mesh : Topology α} {c : Couplings}
    (h : ofTopology? mesh = some c) {i j : Nat} :
    j ∈ c.getD i [] ↔ i < mesh.nodes.size ∧ j = i ∨ mesh.Joins i j := by
  rw [ofTopology?] at h
  simp only [Option.ite_none_right_eq_some, Option.some.injEq] at h
  obtain ⟨hall, rfl⟩ := h
  rw [mem_getD_ofPairs fun q hq => by simpa using List.all_eq_true.1 hall q hq]
  simp only [Topology.Joins, List.mem_map, Array.mem_toList_iff, Prod.mk.injEq]
  refine or_congr_right ⟨?_, ?_⟩
  · rintro (⟨e, he, hends⟩ | ⟨e, he, hends⟩)
    · exact ⟨e, he, .inl hends⟩
    · exact ⟨e, he, .inr hends⟩
  · rintro ⟨e, he, hends | hends⟩
    · exact .inl ⟨e, he, hends⟩
    · exact .inr ⟨e, he, hends⟩

namespace BlockMatrix

/-- The unknowns of two nodes have a place in common if and only if the nodes are coupled. -/
theorem mem_columnsOf_ofCouplings {α : Type} [Scalar α] (layout : Layout) (c : Couplings)
    {i j k l : Nat} (hk : k < layout.sizes.getD i 0) (hl : l < layout.sizes.getD j 0) :
    layout.offset j + l ∈ (ofCouplings (α := α) layout c).columnsOf (layout.offset i + k) ↔
      j ∈ c.getD i [] := by
  have hj := Layout.offset_add_mem_block hl
  rw [columnsOf_ofCouplings layout c (Layout.offset_add_mem_block hk), Couplings.mem_columns]
  constructor
  · rintro ⟨other, hother, hblock⟩
    rcases lt_trichotomy other j with hlt | rfl | hlt
    · exact absurd (layout.lt_of_mem_block hlt hblock hj) (lt_irrefl _)
    · exact hother
    · exact absurd (layout.lt_of_mem_block hlt hj hblock) (lt_irrefl _)
  · exact fun hcoupled => ⟨j, hcoupled, hj⟩

/-- In the system of a mesh these are the nodes that are the same or joined. -/
theorem mem_columnsOf_ofTopology {α : Type} [Scalar α] {mesh : Topology α} {sizes : Array Nat}
    {m : BlockMatrix α} (h : ofTopology mesh sizes = .ok m) {i j k l : Nat}
    (hk : k < sizes.getD i 0) (hl : l < sizes.getD j 0) :
    m.layout.offset j + l ∈ m.columnsOf (m.layout.offset i + k) ↔ i = j ∨ mesh.Joins i j := by
  obtain ⟨hcount, -, c, hc, rfl⟩ := ofTopology_eq_ok.1 h
  have hi : i < mesh.nodes.size := by
    have hlt : i < (Layout.ofSizes sizes).nodeCount := Layout.lt_nodeCount_of_lt_size hk
    exact lt_of_lt_of_eq hlt hcount
  refine (mem_columnsOf_ofCouplings (.ofSizes sizes) c hk hl).trans
    ((Couplings.mem_getD_ofTopology hc).trans ?_)
  simp only [hi, true_and, eq_comm (a := j)]

/-! ### Positions -/

section Positions

variable {α : Type} {m m' : BlockMatrix α} {row column : Nat}

theorem position_eq_ok {k : Nat} :
    m.position row column = .ok k ↔
      (m.pattern.getD row #[]).findIdx? (· == column) = some k := by
  rw [position, pattern, Array.getD_eq_getD_getElem?, Array.getElem?_map]
  cases m.rows[row]? with
  | none => simp
  | some entries =>
    simp only [Option.bind_some, Option.map_some, Option.getD_some, Array.findIdx?_map,
      Function.comp_def]
    cases entries.findIdx? fun e => e.column == column <;> simp

theorem exists_position (h : column ∈ m.columnsOf row) : ∃ k, m.position row column = .ok k := by
  cases hk : (m.pattern.getD row #[]).findIdx? (· == column) with
  | some k => exact ⟨k, position_eq_ok.2 hk⟩
  | none =>
    rw [Array.findIdx?_eq_none_iff] at hk
    have hne := hk column (Array.mem_toList_iff.1 h)
    simp at hne

theorem mem_columnsOf_of_position {k : Nat} (h : m.position row column = .ok k) :
    column ∈ m.columnsOf row := by
  obtain ⟨hlt, hcolumn, -⟩ := Array.findIdx?_eq_some_iff_getElem.1 (position_eq_ok.1 h)
  have hmem := Array.getElem_mem hlt
  rw [beq_iff_eq.1 hcolumn] at hmem
  exact Array.mem_toList_iff.2 hmem

theorem exists_modifyEntry (h : column ∈ m.columnsOf row) (f : α → α) :
    ∃ m', m.modifyEntry row column f = .ok m' := by
  obtain ⟨k, hk⟩ := exists_position h
  exact ⟨_, Transition.except_bind_eq_ok.2 ⟨k, hk, rfl⟩⟩

theorem pattern_getD (m : BlockMatrix α) (row : Nat) :
    m.pattern.getD row #[] = (m.rows.getD row #[]).map Entry.column := by
  rw [pattern, Array.getD_eq_getD_getElem?, Array.getD_eq_getD_getElem?, Array.getElem?_map]
  cases m.rows[row]? <;> simp

variable [Scalar α]

theorem coefficient_eq_bind (m : BlockMatrix α) (row column : Nat) :
    m.coefficient row column =
      (((m.pattern.getD row #[]).findIdx? (· == column)).bind
        fun k => (m.rows.getD row #[])[k]?).elim 0 Entry.value := by
  rw [pattern_getD, Array.findIdx?_map, coefficient, Array.find?_eq_bind_findIdx?_getElem?]
  simp only [Function.comp_def]
  cases ((m.rows.getD row #[]).findIdx? fun e => e.column == column).bind
    fun k => (m.rows.getD row #[])[k]? <;> rfl

/-- A write changes one coefficient. -/
theorem coefficient_modifyEntry {f : α → α} (h : m.modifyEntry row column f = .ok m') (i j : Nat) :
    m'.coefficient i j =
      if i = row ∧ j = column then f (m.coefficient i j) else m.coefficient i j := by
  have hpattern := (samePlaces_of_modifyEntry h).pattern
  obtain ⟨k, hk, hm'⟩ := Transition.except_bind_eq_ok.1 h
  rw [position_eq_ok] at hk
  obtain ⟨_, hcolumn, -⟩ := Array.findIdx?_eq_some_iff_getElem.1 hk
  cases hm'
  rw [coefficient_eq_bind, coefficient_eq_bind, hpattern]
  cases hk' : (m.pattern.getD i #[]).findIdx? (· == j) with
  | none =>
    have hne : ¬ (i = row ∧ j = column) := by
      rintro ⟨rfl, rfl⟩
      rw [hk] at hk'
      cases hk'
    rw [if_neg hne]
    rfl
  | some k' =>
    obtain ⟨hlt', hcolumn', -⟩ := Array.findIdx?_eq_some_iff_getElem.1 hk'
    rw [pattern_getD, Array.size_map] at hlt'
    have hi : i < m.rows.size := by
      by_contra hge
      rw [Array.getD_eq_getD_getElem?, Array.getElem?_eq_none (by omega)] at hlt'
      simp at hlt'
    simp only [Option.bind_some, getD_modify m.rows row _ #[] hi]
    by_cases hrow : row = i
    · subst hrow
      rw [if_pos rfl, Array.getElem?_modify]
      by_cases hj : j = column
      · subst hj
        obtain rfl : k = k' := Option.some.inj (hk.symm.trans hk')
        rw [if_pos rfl, if_pos ⟨rfl, rfl⟩, Array.getElem?_eq_getElem hlt']
        rfl
      · have hne : k ≠ k' := by
          rintro rfl
          exact hj ((beq_iff_eq.1 hcolumn').symm.trans (beq_iff_eq.1 hcolumn))
        rw [if_neg hne, if_neg (by simp [hj])]
    · rw [if_neg hrow, if_neg (by simp [Ne.symm hrow])]

end Positions

/-! ### Systems that differ in their numbers -/

section SameSystem

variable {α : Type} {m m' m'' : BlockMatrix α}

/-- Two systems with the same places and the same pivot tolerance. -/
structure SameSystem (m m' : BlockMatrix α) : Prop extends m.SamePlaces m' where
  pivotTolerance : m'.pivotTolerance = m.pivotTolerance

theorem SameSystem.rfl : m.SameSystem m :=
  ⟨SamePlaces.rfl, Eq.refl _⟩

theorem SameSystem.trans (h : m.SameSystem m') (h' : m'.SameSystem m'') : m.SameSystem m'' :=
  ⟨h.toSamePlaces.trans h'.toSamePlaces, h'.pivotTolerance.trans h.pivotTolerance⟩

theorem SameSystem.envelope (h : m.SameSystem m') : m'.envelope = m.envelope := by
  rw [BlockMatrix.envelope, BlockMatrix.envelope, h.pattern]

theorem sameSystem_mapEntries (m : BlockMatrix α) (f : Nat → Nat → α → α) :
    m.SameSystem (m.mapEntries f) :=
  ⟨m.samePlaces_mapEntries f, Eq.refl _⟩

theorem sameSystem_of_modifyEntry {row column : Nat} {f : α → α}
    (h : m.modifyEntry row column f = .ok m') : m.SameSystem m' := by
  refine ⟨samePlaces_of_modifyEntry h, ?_⟩
  obtain ⟨k, -, hm'⟩ := Transition.except_bind_eq_ok.1 h
  cases hm'
  exact Eq.refl _

theorem modifyBlockEntry_eq_ok {rowNode columnNode rowSub columnSub : Nat} {f : α → α}
    (h : m.modifyBlockEntry rowNode columnNode rowSub columnSub f = .ok m') :
    m.modifyEntry (m.layout.offset rowNode + rowSub) (m.layout.offset columnNode + columnSub) f =
      .ok m' := by
  obtain ⟨⟨row, column⟩, haddress, h⟩ := Transition.except_bind_eq_ok.1 h
  obtain ⟨i, hi, haddress⟩ := Transition.except_bind_eq_ok.1 haddress
  obtain ⟨j, hj, haddress⟩ := Transition.except_bind_eq_ok.1 haddress
  cases haddress
  obtain ⟨-, rfl⟩ := Layout.index_eq_ok.1 hi
  obtain ⟨-, rfl⟩ := Layout.index_eq_ok.1 hj
  exact h

theorem lt_of_modifyBlockEntry {i j k l : Nat} {f : α → α}
    (h : m.modifyBlockEntry i j k l f = .ok m') :
    k < m.layout.sizes.getD i 0 ∧ l < m.layout.sizes.getD j 0 := by
  obtain ⟨_, haddress, -⟩ := Transition.except_bind_eq_ok.1 h
  obtain ⟨row, hrow, haddress⟩ := Transition.except_bind_eq_ok.1 haddress
  obtain ⟨column, hcolumn, -⟩ := Transition.except_bind_eq_ok.1 haddress
  exact ⟨(Layout.index_eq_ok.1 hrow).1, (Layout.index_eq_ok.1 hcolumn).1⟩

theorem lt_of_modifyBlockRhs {i k : Nat} {f : α → α} (h : m.modifyBlockRhs i k f = .ok m') :
    k < m.layout.sizes.getD i 0 := by
  obtain ⟨row, hrow, -⟩ := Transition.except_bind_eq_ok.1 h
  exact (Layout.index_eq_ok.1 hrow).1

theorem modifyBlockRhs_eq_ok {node sub : Nat} {f : α → α}
    (h : m.modifyBlockRhs node sub f = .ok m') :
    m' = { m with rhs := m.rhs.modify (m.layout.offset node + sub) f } := by
  obtain ⟨row, hrow, h⟩ := Transition.except_bind_eq_ok.1 h
  obtain ⟨-, rfl⟩ := Layout.index_eq_ok.1 hrow
  cases h
  exact Eq.refl _

theorem address_of_lt {i j k l : Nat} (hk : k < m.layout.sizes.getD i 0)
    (hl : l < m.layout.sizes.getD j 0) :
    m.address i j k l = .ok (m.layout.offset i + k, m.layout.offset j + l) := by
  rw [address, Layout.index_of_lt hk, Layout.index_of_lt hl]
  rfl

/-- A write at an address that has a place succeeds. -/
theorem exists_modifyBlockEntry {i j k l : Nat} (hk : k < m.layout.sizes.getD i 0)
    (hl : l < m.layout.sizes.getD j 0)
    (hplace : m.layout.offset j + l ∈ m.columnsOf (m.layout.offset i + k)) (f : α → α) :
    ∃ m', m.modifyBlockEntry i j k l f = .ok m' := by
  obtain ⟨m', hm'⟩ := exists_modifyEntry hplace f
  exact ⟨m', Transition.except_bind_eq_ok.2 ⟨_, address_of_lt hk hl, hm'⟩⟩

theorem modifyBlockRhs_of_lt {i k : Nat} (hk : k < m.layout.sizes.getD i 0) (f : α → α) :
    m.modifyBlockRhs i k f = .ok { m with rhs := m.rhs.modify (m.layout.offset i + k) f } := by
  rw [modifyBlockRhs, Layout.index_of_lt hk]
  rfl

theorem sameSystem_of_modifyBlockRhs {node sub : Nat} {f : α → α}
    (h : m.modifyBlockRhs node sub f = .ok m') : m.SameSystem m' := by
  rw [modifyBlockRhs_eq_ok h]
  exact ⟨⟨Eq.refl _, Eq.refl _, Array.size_modify, Eq.refl _⟩, Eq.refl _⟩

variable [Scalar α]

theorem blockEntry_of_mem {i j k l : Nat} (hk : k < m.layout.sizes.getD i 0)
    (hl : l < m.layout.sizes.getD j 0)
    (hplace : m.layout.offset j + l ∈ m.columnsOf (m.layout.offset i + k)) :
    m.blockEntry i j k l =
      .ok (m.coefficient (m.layout.offset i + k) (m.layout.offset j + l)) := by
  obtain ⟨position, hposition⟩ := exists_position hplace
  exact Transition.except_bind_eq_ok.2 ⟨_, address_of_lt hk hl,
    Transition.except_bind_eq_ok.2 ⟨position, hposition, rfl⟩⟩

/-- What can be read has a place. -/
theorem place_of_blockEntry {i j k l : Nat} {v : α} (h : m.blockEntry i j k l = .ok v) :
    k < m.layout.sizes.getD i 0 ∧ l < m.layout.sizes.getD j 0 ∧
      m.layout.offset j + l ∈ m.columnsOf (m.layout.offset i + k) := by
  obtain ⟨⟨row, column⟩, haddress, h⟩ := Transition.except_bind_eq_ok.1 h
  obtain ⟨row', hrow, haddress⟩ := Transition.except_bind_eq_ok.1 haddress
  obtain ⟨column', hcolumn, haddress⟩ := Transition.except_bind_eq_ok.1 haddress
  cases haddress
  obtain ⟨position, hposition, -⟩ := Transition.except_bind_eq_ok.1 h
  obtain ⟨hk, rfl⟩ := Layout.index_eq_ok.1 hrow
  obtain ⟨hl, rfl⟩ := Layout.index_eq_ok.1 hcolumn
  exact ⟨hk, hl, mem_columnsOf_of_position hposition⟩

/-- There is nothing to read at an address without a place. -/
theorem exists_error_blockEntry {i j k l : Nat}
    (hplace : m.layout.offset j + l ∉ m.columnsOf (m.layout.offset i + k)) :
    ∃ e, m.blockEntry i j k l = .error e := by
  cases hentry : m.blockEntry i j k l with
  | error e => exact ⟨e, rfl⟩
  | ok v => exact absurd (place_of_blockEntry hentry).2.2 hplace

theorem blockRhs_eq_ok {i k : Nat} {v : α} :
    m.blockRhs i k = .ok v ↔
      k < m.layout.sizes.getD i 0 ∧ v = m.rhs.getD (m.layout.offset i + k) 0 := by
  rw [blockRhs, Transition.except_bind_eq_ok]
  constructor
  · rintro ⟨row, hrow, h⟩
    obtain ⟨hk, rfl⟩ := Layout.index_eq_ok.1 hrow
    cases h
    exact ⟨hk, Eq.refl _⟩
  · rintro ⟨hk, rfl⟩
    exact ⟨_, Layout.index_of_lt hk, Eq.refl _⟩

theorem blockRhs_of_lt {i k : Nat} (hk : k < m.layout.sizes.getD i 0) :
    m.blockRhs i k = .ok (m.rhs.getD (m.layout.offset i + k) 0) :=
  blockRhs_eq_ok.2 ⟨hk, Eq.refl _⟩

theorem blockSolution_eq_ok {i k : Nat} {v : α} :
    m.blockSolution i k = .ok v ↔
      k < m.layout.sizes.getD i 0 ∧ v = m.solution.getD (m.layout.offset i + k) 0 := by
  rw [blockSolution, Transition.except_bind_eq_ok]
  constructor
  · rintro ⟨row, hrow, h⟩
    obtain ⟨hk, rfl⟩ := Layout.index_eq_ok.1 hrow
    cases h
    exact ⟨hk, Eq.refl _⟩
  · rintro ⟨hk, rfl⟩
    exact ⟨_, Layout.index_of_lt hk, Eq.refl _⟩

theorem blockSolution_of_lt {i k : Nat} (hk : k < m.layout.sizes.getD i 0) :
    m.blockSolution i k = .ok (m.solution.getD (m.layout.offset i + k) 0) :=
  blockSolution_eq_ok.2 ⟨hk, Eq.refl _⟩

theorem sameSystem_clear (m : BlockMatrix α) : m.SameSystem m.clear := by
  refine ⟨⟨Eq.refl _, m.pattern_mapEntries fun _ _ _ => 0, ?_, ?_⟩, Eq.refl _⟩
  · exact Array.size_map
  · exact Array.size_map

/-- A cleared system is given by its places and its tolerance. -/
theorem clear_eq (m : BlockMatrix α) :
    m.clear = { layout := m.layout
                rows := m.pattern.map fun columns => columns.map fun column => ⟨column, 0⟩
                rhs := Array.replicate m.rhs.size 0
                solution := Array.replicate m.solution.size 0
                pivotTolerance := m.pivotTolerance } := by
  have hrows : m.clear.rows = m.pattern.map fun columns => columns.map fun column => ⟨column, 0⟩ :=
    Array.ext (by simp [clear, mapEntries, pattern]) fun i hi hi' => by
      simp [clear, mapEntries, pattern, Function.comp_def]
  rw [← hrows, ← Array.map_const', ← Array.map_const']
  rfl

/-- **Systems that differ in their numbers are cleared to the same system.** -/
theorem SameSystem.clear_eq (h : m.SameSystem m') : m'.clear = m.clear := by
  rw [BlockMatrix.clear_eq, BlockMatrix.clear_eq, h.layout, h.pattern, h.rhs_size, h.solution_size,
    h.pivotTolerance]

end SameSystem

/-! ### Equations of contacts -/

section Dirichlet

variable {α : Type} [Scalar α] {m m' : BlockMatrix α} {diagonal : α} {node : Nat}

/-- The equation of a row replaced by `diagonal * x = 0`. -/
def dirichletRow (diagonal : α) (m : BlockMatrix α) (row : Nat) : BlockMatrix α :=
  { m with
    rows := m.rows.modify row fun entries => entries.map fun e =>
      { e with value := if e.column = row then diagonal else 0 }
    rhs := m.rhs.modify row fun _ => 0 }

theorem applyDirichlet_of_lt (h : node < m.layout.nodeCount) :
    m.applyDirichlet node diagonal = .ok ((m.layout.block node).foldl (dirichletRow diagonal) m) := by
  rw [applyDirichlet, if_pos h]
  rfl

theorem sameSystem_dirichletRow (diagonal : α) (m : BlockMatrix α) (row : Nat) :
    m.SameSystem (m.dirichletRow diagonal row) := by
  refine ⟨⟨rfl, ?_, Array.size_modify, rfl⟩, rfl⟩
  refine Array.ext (by simp [pattern, dirichletRow]) fun i hi hi' => ?_
  simp only [pattern, dirichletRow, Array.getElem_map, Array.getElem_modify]
  split_ifs
  · simp [Function.comp_def]
  · rfl

/-- A row and the equation in it, its coefficients and its right hand side. -/
def SameEquation (m m' : BlockMatrix α) (row : Nat) : Prop :=
  (∀ column, m'.coefficient row column = m.coefficient row column) ∧
    m'.rhs.getD row 0 = m.rhs.getD row 0

/-- The equation of a row is `diagonal * x = 0`. -/
def IsDirichlet (m : BlockMatrix α) (diagonal : α) (row : Nat) : Prop :=
  (∀ column ∈ m.columnsOf row, m.coefficient row column = if column = row then diagonal else 0) ∧
    m.rhs.getD row 0 = 0

/-- A replaced equation has nothing beside its diagonal. -/
theorem IsDirichlet.coefficient_eq {row : Nat} (h : m.IsDirichlet diagonal row)
    (hplace : row ∈ m.columnsOf row) (column : Nat) :
    m.coefficient row column = if column = row then diagonal else 0 := by
  by_cases hcolumn : column ∈ m.columnsOf row
  · exact h.1 column hcolumn
  · have hne : column ≠ row := fun heq => hcolumn (heq ▸ hplace)
    rw [coefficient_eq_zero hcolumn, if_neg hne]

theorem sameEquation_dirichletRow {row i : Nat} (h : i ≠ row) :
    m.SameEquation (m.dirichletRow diagonal row) i := by
  constructor
  · intro column
    rw [coefficient, coefficient, dirichletRow, Array.getD_eq_getD_getElem?,
      Array.getD_eq_getD_getElem?, Array.getElem?_modify, if_neg (Ne.symm h)]
  · rw [dirichletRow, Array.getD_eq_getD_getElem?, Array.getD_eq_getD_getElem?,
      Array.getElem?_modify, if_neg (Ne.symm h)]

theorem isDirichlet_dirichletRow (row : Nat) :
    (m.dirichletRow diagonal row).IsDirichlet diagonal row := by
  have hrow : (m.dirichletRow diagonal row).rows.getD row #[] =
      (m.rows.getD row #[]).map fun e =>
        { e with value := if e.column = row then diagonal else 0 } := by
    rw [dirichletRow, Array.getD_eq_getD_getElem?, Array.getD_eq_getD_getElem?,
      Array.getElem?_modify, if_pos rfl]
    cases m.rows[row]? <;> simp
  constructor
  · intro column hcolumn
    rw [columnsOf_eq_map, hrow, Array.toList_map, List.map_map] at hcolumn
    obtain ⟨e, he, hcolumn⟩ := List.mem_map.1 hcolumn
    rw [coefficient_eq_elim, hrow, Array.toList_map, List.find?_map]
    simp only [Function.comp_def] at hcolumn ⊢
    cases hfind : (m.rows.getD row #[]).toList.find? fun e => e.column == column with
    | none =>
      rw [List.find?_eq_none] at hfind
      exact absurd (beq_iff_eq.2 hcolumn) (hfind e he)
    | some e' =>
      have hcolumn' : e'.column = column := by simpa using List.find?_some hfind
      simp [hcolumn']
  · rw [dirichletRow, Array.getD_eq_getD_getElem?, Array.getElem?_modify, if_pos rfl]
    cases m.rhs[row]? <;> rfl

theorem SameEquation.trans {m'' : BlockMatrix α} {row : Nat} (h : m.SameEquation m' row)
    (h' : m'.SameEquation m'' row) : m.SameEquation m'' row :=
  ⟨fun column => (h'.1 column).trans (h.1 column), h'.2.trans h.2⟩

theorem IsDirichlet.of_sameEquation {row : Nat} (h : m.IsDirichlet diagonal row)
    (hsame : m.SameSystem m') (hequation : m.SameEquation m' row) :
    m'.IsDirichlet diagonal row := by
  refine ⟨fun column hcolumn => ?_, hequation.2.trans h.2⟩
  rw [hsame.columnsOf] at hcolumn
  rw [hequation.1, h.1 column hcolumn]

/-- The equations of a node are replaced, those of the other nodes are kept. -/
theorem of_applyDirichlet (h : m.applyDirichlet node diagonal = .ok m') :
    m.SameSystem m' ∧ (∀ row ∈ m.layout.block node, m'.IsDirichlet diagonal row) ∧
      ∀ row ∉ m.layout.block node, m.SameEquation m' row := by
  by_cases hnode : node < m.layout.nodeCount
  · rw [applyDirichlet_of_lt hnode] at h
    cases h
    refine Loop.foldl_invariant (fun done m' => m.SameSystem m' ∧
      (∀ row ∈ done, m'.IsDirichlet diagonal row) ∧ ∀ row ∉ done, m.SameEquation m' row)
      ⟨.rfl, by simp, fun row _ => ⟨fun _ => rfl, rfl⟩⟩ ?_
    rintro done i m' ⟨hsame, hdone, hrest⟩
    have hstep := sameSystem_dirichletRow diagonal m' i
    refine ⟨hsame.trans hstep, fun row hrow => ?_, fun row hrow => ?_⟩
    · by_cases hi : row = i
      · rw [hi]
        exact isDirichlet_dirichletRow i
      · have hmem : row ∈ done := by simpa [hi] using hrow
        exact (hdone row hmem).of_sameEquation hstep (sameEquation_dirichletRow hi)
    · rw [List.mem_append, List.mem_singleton, not_or] at hrow
      exact (hrest row hrow.1).trans (sameEquation_dirichletRow hrow.2)
  · rw [applyDirichlet, if_neg hnode] at h
    cases h

end Dirichlet

/-! ### Solutions -/

section Solve

variable {α : Type} [Scalar α] {m : BlockMatrix α}

theorem size_substitute (env : Envelope) (F : Factors α) (b : Array α) :
    (substitute env F b).size = env.size := by
  have hforward : ((List.range env.size).foldl (forwardRow env F b) #[]).size = env.size := by
    refine Loop.foldl_range_invariant (fun k (y : Array α) => y.size = k) rfl ?_
    intro k y _ hy
    rw [forwardRow, Array.size_push, hy]
  refine Loop.foldl_invariant (fun _ (x : Array α) => x.size = env.size) hforward ?_
  intro _ row x hx
  refine Loop.foldl_invariant (fun _ (x : Array α) => x.size = env.size) hx ?_
  intro _ k x hx
  rw [Array.size_modify, hx]

theorem sameSystem_restored (m : BlockMatrix α) : m.SameSystem m.restored := by
  rw [restored, scaled, scaleColumns, scaleColumns]
  exact (m.sameSystem_mapEntries _).trans (sameSystem_mapEntries _ _)

/-- A solve keeps the places, whether it succeeds or not. -/
theorem sameSystem_solve (hm : m.WellFormed) : m.SameSystem (Transition.left (solve m)) := by
  rw [solve_eq_factorise]
  cases factorise m.envelope m.scaled.coefficient m.pivotTolerance with
  | error pivot => exact m.sameSystem_restored
  | ok F =>
    obtain ⟨⟨hlayout, hpattern, hrhs, -⟩, htolerance⟩ := m.sameSystem_restored
    refine ⟨⟨hlayout, hpattern, hrhs, ?_⟩, htolerance⟩
    rw [Transition.left, Array.size_zipWith, size_substitute, size_diagonalScale, size_envelope,
      min_self, hm.solution_size]

end Solve

end BlockMatrix

end LinearSystem

end CarrierTransport
