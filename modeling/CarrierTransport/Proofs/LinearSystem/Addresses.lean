import Mathlib
import CarrierTransport.Proofs.LinearSystem.Places

/-!
# The addresses of a mesh

The unknowns of a system are numbered node by node, those of a node in a row, without gap
(`Layout.index_lt_index_iff`, `Layout.exists_index_iff`). A system that is built from a mesh stores
a coefficient for two unknowns exactly if their nodes are the same or joined by an element; any
other address is refused, and the refusal names what is wrong with it (`BlockMatrix.CouplesBlocks`).
Whether a mesh and a list of block sizes give a system is a matter of the sizes alone
(`BlockMatrix.ofTopology_fixes_places`).

Nothing is asked of the scalar type: the places of a system are fixed before there are numbers in
them.
-/

namespace CarrierTransport

namespace LinearSystem

open Mesh (Topology)

/-! ### Numbering -/

namespace Layout

variable {α : Type} {layout : Layout}

theorem index_of_le {node sub : Nat} (h : layout.sizes.getD node 0 ≤ sub) :
    (layout.index node sub : Except (MatrixError α) Nat) =
      .error (.subIndex node sub (layout.sizes.getD node 0)) := by
  rw [Array.getD_eq_getD_getElem?] at h ⊢
  rw [index]
  cases hsize : layout.sizes[node]? with
  | none => rfl
  | some size =>
    rw [hsize, Option.getD_some] at h
    exact if_neg (not_lt.2 h)

/-- The numbers of the unknowns are those below their total. -/
theorem exists_index_iff {row : Nat} :
    (∃ node sub, (layout.index node sub : Except (MatrixError α) Nat) = .ok row) ↔
      row < layout.total := by
  constructor
  · rintro ⟨node, sub, h⟩
    obtain ⟨hsub, rfl⟩ := index_eq_ok.1 h
    exact layout.lt_total_of_mem_block (offset_add_mem_block hsub)
  · intro h
    obtain ⟨node, -, hrow⟩ := layout.exists_block h
    obtain ⟨hle, hlt⟩ := layout.mem_block.1 hrow
    obtain ⟨sub, rfl⟩ := Nat.exists_eq_add_of_le hle
    exact ⟨node, sub, index_of_lt (by omega)⟩

/-- The unknowns are numbered in the lexicographic order of node and number within the block. -/
theorem index_lt_index_iff {node node' sub sub' row row' : Nat}
    (h : (layout.index node sub : Except (MatrixError α) Nat) = .ok row)
    (h' : (layout.index node' sub' : Except (MatrixError α) Nat) = .ok row') :
    row < row' ↔ node < node' ∨ node = node' ∧ sub < sub' := by
  obtain ⟨hsub, rfl⟩ := index_eq_ok.1 h
  obtain ⟨hsub', rfl⟩ := index_eq_ok.1 h'
  have hmem := offset_add_mem_block hsub
  have hmem' := offset_add_mem_block hsub'
  rcases lt_trichotomy node node' with hlt | rfl | hgt
  · exact iff_of_true (layout.lt_of_mem_block hlt hmem hmem') (.inl hlt)
  · simp
  · have hrow := layout.lt_of_mem_block hgt hmem' hmem
    exact iff_of_false (by omega) (by omega)

end Layout

/-! ### Places and addresses -/

namespace BlockMatrix

section Reading

variable {α : Type} {m : BlockMatrix α} {i j k l : Nat}

theorem position_of_notMem {row column : Nat} (h : column ∉ m.columnsOf row) :
    m.position row column = .error (.outOfPattern row column) := by
  rw [position]
  split
  · next k hk =>
    exact absurd (mem_columnsOf_of_position (k := k) (by rw [position, hk])) h
  · rfl

theorem address_of_row_le (h : m.layout.sizes.getD i 0 ≤ k) :
    m.address i j k l = .error (.subIndex i k (m.layout.sizes.getD i 0)) := by
  rw [address, Layout.index_of_le h]
  rfl

theorem address_of_column_le (hk : k < m.layout.sizes.getD i 0)
    (h : m.layout.sizes.getD j 0 ≤ l) :
    m.address i j k l = .error (.subIndex j l (m.layout.sizes.getD j 0)) := by
  rw [address, Layout.index_of_lt hk, Layout.index_of_le h]
  rfl

variable [Scalar α]

theorem blockEntry_of_address_error {e : MatrixError α} (h : m.address i j k l = .error e) :
    m.blockEntry i j k l = .error e := by
  rw [blockEntry, h]
  rfl

theorem blockEntry_of_notMem (hk : k < m.layout.sizes.getD i 0)
    (hl : l < m.layout.sizes.getD j 0)
    (hplace : m.layout.offset j + l ∉ m.columnsOf (m.layout.offset i + k)) :
    m.blockEntry i j k l =
      .error (.outOfPattern (m.layout.offset i + k) (m.layout.offset j + l)) := by
  rw [blockEntry, address_of_lt hk hl]
  change m.entry _ _ = _
  rw [entry, position_of_notMem hplace]
  rfl

end Reading

/-! ### Systems of a mesh -/

variable {α : Type} [Scalar α] {mesh : Topology α} {sizes : Array Nat} {m : BlockMatrix α}

/-- The unknown of a node has a number in the whole system. -/
def Numbers (m : BlockMatrix α) (node sub row : Nat) : Prop :=
  (m.layout.index node sub : Except (MatrixError α) Nat) = .ok row

/-- The places of a system are the couplings of the blocks of a mesh. -/
structure CouplesBlocks (mesh : Topology α) (sizes : Array Nat) (m : BlockMatrix α) : Prop where
  ascending : ∀ row, (m.columnsOf row).Pairwise (· < ·)
  lt : ∀ row, ∀ column ∈ m.columnsOf row, row < m.rowCount ∧ column < m.rowCount
  symm : ∀ row, ∀ column ∈ m.columnsOf row, row ∈ m.columnsOf column
  diagonal : ∀ row < m.rowCount, row ∈ m.columnsOf row
  /-- An unknown has a number if and only if it lies in the block of its node. -/
  numbers_iff : ∀ node sub, (∃ row, m.Numbers node sub row) ↔ sub < sizes.getD node 0
  /-- The numbers are those of the rows. -/
  row_iff : ∀ row, row < m.rowCount ↔ ∃ node sub, m.Numbers node sub row
  /-- They are given in lexicographic order, so no two unknowns share one. -/
  numbers_lt : ∀ {node node' sub sub' row row'}, m.Numbers node sub row →
    m.Numbers node' sub' row' → (row < row' ↔ node < node' ∨ node = node' ∧ sub < sub')
  entry_iff : ∀ i j k l, (∃ v, m.blockEntry i j k l = .ok v) ↔
    (k < sizes.getD i 0 ∧ l < sizes.getD j 0) ∧ (i = j ∨ mesh.Joins i j)
  /-- A wrong number within a block is reported, that of the row first. -/
  row_refused : ∀ i j k l, ¬ k < sizes.getD i 0 →
    m.blockEntry i j k l = .error (.subIndex i k (sizes.getD i 0))
  column_refused : ∀ i j k l, k < sizes.getD i 0 → ¬ l < sizes.getD j 0 →
    m.blockEntry i j k l = .error (.subIndex j l (sizes.getD j 0))
  /-- Unknowns whose nodes are not coupled have no place in common. -/
  place_refused : ∀ i j k l, k < sizes.getD i 0 → l < sizes.getD j 0 →
    ¬ (i = j ∨ mesh.Joins i j) →
      ∃ row column, m.Numbers i k row ∧ m.Numbers j l column ∧
        m.blockEntry i j k l = .error (.outOfPattern row column)

/-- **A system of a mesh couples the blocks of joined nodes.** -/
theorem couplesBlocks_ofTopology (h : ofTopology mesh sizes = .ok m) :
    m.CouplesBlocks mesh sizes := by
  have hwell := wellFormed_ofTopology h
  have hsizes : m.layout.sizes = sizes := by
    obtain ⟨-, -, c, -, rfl⟩ := ofTopology_eq_ok.1 h
    rfl
  have hcount : m.rowCount = m.layout.total := by
    obtain ⟨-, -, c, -, rfl⟩ := ofTopology_eq_ok.1 h
    exact rowCount_ofCouplings _ c
  constructor
  case ascending => exact hwell.ascending
  case lt =>
    intro row column hcolumn
    exact ⟨hwell.lt column row (hwell.symm row column hcolumn), hwell.lt row column hcolumn⟩
  case symm => exact hwell.symm
  case diagonal =>
    intro row hrow
    rw [hcount] at hrow
    obtain ⟨node, sub, hindex⟩ := (Layout.exists_index_iff (α := α)).2 hrow
    obtain ⟨hsub, rfl⟩ := Layout.index_eq_ok.1 hindex
    rw [hsizes] at hsub
    exact (mem_columnsOf_ofTopology h hsub hsub).2 (.inl rfl)
  case numbers_iff =>
    intro node sub
    simp only [Numbers, Layout.index_eq_ok, hsizes, exists_and_left, exists_eq, and_true]
  case row_iff =>
    intro row
    rw [hcount]
    exact Layout.exists_index_iff.symm
  case numbers_lt => exact Layout.index_lt_index_iff
  case entry_iff =>
    intro i j k l
    constructor
    · rintro ⟨v, hv⟩
      obtain ⟨hk, hl, hplace⟩ := place_of_blockEntry hv
      rw [hsizes] at hk hl
      exact ⟨⟨hk, hl⟩, (mem_columnsOf_ofTopology h hk hl).1 hplace⟩
    · rintro ⟨⟨hk, hl⟩, hcoupled⟩
      have hplace := (mem_columnsOf_ofTopology h hk hl).2 hcoupled
      rw [← hsizes] at hk hl
      exact ⟨_, blockEntry_of_mem hk hl hplace⟩
  case row_refused =>
    intro i j k l hk
    rw [← hsizes, not_lt] at hk
    rw [← hsizes]
    exact blockEntry_of_address_error (address_of_row_le hk)
  case column_refused =>
    intro i j k l hk hl
    rw [← hsizes] at hk
    rw [← hsizes, not_lt] at hl
    rw [← hsizes]
    exact blockEntry_of_address_error (address_of_column_le hk hl)
  case place_refused =>
    intro i j k l hk hl hcoupled
    have hplace := fun hmem => hcoupled ((mem_columnsOf_ofTopology h hk hl).1 hmem)
    rw [← hsizes] at hk hl
    exact ⟨_, _, Layout.index_of_lt hk, Layout.index_of_lt hl, blockEntry_of_notMem hk hl hplace⟩

/-! ### When there is a system -/

/-- What comes of a mesh whose elements end at nodes, by the block sizes. -/
theorem ofTopology_cases
    (hends : ∀ e ∈ mesh.elements, e.left < mesh.nodes.size ∧ e.right < mesh.nodes.size) :
    (sizes.size ≠ mesh.nodes.size ∧
      ofTopology mesh sizes = .error (.blockCount mesh.nodes.size sizes.size)) ∨
    sizes.size = mesh.nodes.size ∧
      ((∃ node, sizes.findIdx? (· == 0) = some node ∧
        ofTopology mesh sizes = .error (.emptyBlock node)) ∨
      sizes.findIdx? (· == 0) = none ∧ ∃ m, ofTopology mesh sizes = .ok m) := by
  obtain ⟨c, hc⟩ := Couplings.exists_ofTopology hends
  by_cases hcount : sizes.size = mesh.nodes.size
  · refine .inr ⟨hcount, ?_⟩
    cases hzero : sizes.findIdx? (· == 0) with
    | some node => exact .inl ⟨node, rfl, by rw [ofTopology, if_neg (not_not.2 hcount), hzero]⟩
    | none =>
      refine .inr ⟨rfl, ofCouplings (.ofSizes sizes) c, ?_⟩
      rw [ofTopology, if_neg (not_not.2 hcount), hzero]
      dsimp only
      rw [hc]
  · exact .inl ⟨hcount, if_pos hcount⟩

/-- The first node without an unknown. -/
theorem findIdx_eq_some_iff {node : Nat} :
    sizes.findIdx? (· == 0) = some node ↔
      sizes[node]? = some 0 ∧ ∀ i < node, sizes[i]? ≠ some 0 := by
  rw [Array.findIdx?_eq_some_iff_getElem]
  constructor
  · rintro ⟨hlt, hzero, hfirst⟩
    refine ⟨by rw [Array.getElem?_eq_getElem hlt, beq_iff_eq.1 hzero], fun i hi hzero' => ?_⟩
    rw [Array.getElem?_eq_getElem (by omega)] at hzero'
    exact hfirst i hi (beq_iff_eq.2 (Option.some.inj hzero'))
  · rintro ⟨hzero, hfirst⟩
    obtain ⟨hlt, hzero⟩ := Array.getElem?_eq_some_iff.1 hzero
    refine ⟨hlt, beq_iff_eq.2 hzero, fun i hi hzero' => hfirst i hi ?_⟩
    rw [Array.getElem?_eq_getElem (by omega), beq_iff_eq.1 hzero']

/-- Three nodes, of which two are joined twice and the third with itself. -/
def loopMesh : Topology ℚ where
  nodes := #[⟨[0, 1], 0⟩, ⟨[0, 1], 0⟩, ⟨[2], 0⟩]
  elements := #[⟨0, 1, 1, 1, 0⟩, ⟨1, 0, 1, 1, 0⟩, ⟨2, 2, 1, 1, 0⟩]

/-- **The pattern is the block coupling of the mesh.** If the elements of a mesh end at nodes, then
a list of block sizes is refused if it has the wrong length, otherwise at its first zero, and
otherwise there is a system, which couples the blocks of nodes that are the same or joined. -/
theorem ofTopology_fixes_places (mesh : Topology α) (sizes : Array Nat)
    (hends : ∀ e ∈ mesh.elements, e.left < mesh.nodes.size ∧ e.right < mesh.nodes.size) :
    (∀ expected found, ofTopology mesh sizes = .error (.blockCount expected found) ↔
      sizes.size ≠ mesh.nodes.size ∧ expected = mesh.nodes.size ∧ found = sizes.size) ∧
    (∀ node, ofTopology mesh sizes = .error (.emptyBlock node) ↔
      sizes.size = mesh.nodes.size ∧ sizes[node]? = some 0 ∧ ∀ i < node, sizes[i]? ≠ some 0) ∧
    ((∃ m, ofTopology mesh sizes = .ok m) ↔
      sizes.size = mesh.nodes.size ∧ ∀ size ∈ sizes, size ≠ 0) ∧
    ∀ m, ofTopology mesh sizes = .ok m → m.CouplesBlocks mesh sizes := by
  refine and_assoc.1 (and_assoc.1 ⟨?_, fun m hm => couplesBlocks_ofTopology hm⟩)
  obtain ⟨hcount, h⟩ | ⟨hcount, ⟨node, hnode, h⟩ | ⟨hnone, m, h⟩⟩ :=
    ofTopology_cases (α := α) hends
  · rw [h]
    simp [hcount, eq_comm]
  · rw [h]
    refine ⟨⟨?_, ?_⟩, ?_⟩
    · simp [hcount]
    · intro node'
      rw [← findIdx_eq_some_iff, hnode]
      simp [hcount]
    · obtain ⟨hlt, hzero, -⟩ := Array.findIdx?_eq_some_iff_getElem.1 hnode
      refine iff_of_false (by simp) fun hall => ?_
      exact hall.2 _ (Array.getElem_mem hlt) (beq_iff_eq.1 hzero)
  · rw [h]
    refine ⟨⟨?_, ?_⟩, ?_⟩
    · simp [hcount]
    · intro node
      rw [← findIdx_eq_some_iff, hnone]
      simp
    · refine iff_of_true ⟨m, rfl⟩ ⟨hcount, fun size hsize => ?_⟩
      exact beq_eq_false_iff_ne.1 (Array.findIdx?_eq_none_iff.1 hnone size hsize)

/-- Sizes for two nodes, sizes with two zeros, and a system in which the blocks of the first two
nodes meet and that of the third is on its own. -/
theorem ofTopology_fixes_places_loopMesh :
    (∀ e ∈ loopMesh.elements, e.left < loopMesh.nodes.size ∧ e.right < loopMesh.nodes.size) ∧
    ofTopology loopMesh #[1, 2] = .error (.blockCount 3 2) ∧
    ofTopology loopMesh #[1, 0, 0] = .error (.emptyBlock 1) ∧
    ∃ m, ofTopology loopMesh #[1, 2, 1] = .ok m ∧ (∃ v, m.blockEntry 1 0 1 0 = .ok v) ∧
      m.blockEntry 1 2 2 1 = .error (.subIndex 1 2 2) ∧
      ∃ row column, m.blockEntry 0 2 0 0 = .error (.outOfPattern row column) := by
  have hends : ∀ e ∈ loopMesh.elements,
      e.left < loopMesh.nodes.size ∧ e.right < loopMesh.nodes.size := by
    simp [loopMesh]
  obtain ⟨hcount, -, -, -⟩ := ofTopology_fixes_places loopMesh #[1, 2] hends
  obtain ⟨-, hzero, -, -⟩ := ofTopology_fixes_places loopMesh #[1, 0, 0] hends
  obtain ⟨-, -, hok, hcouples⟩ := ofTopology_fixes_places loopMesh #[1, 2, 1] hends
  obtain ⟨m, hm⟩ := hok.2 ⟨rfl, by simp⟩
  have hplaces := hcouples m hm
  have hjoined : loopMesh.Joins 1 0 := ⟨⟨0, 1, 1, 1, 0⟩, by simp [loopMesh], by simp⟩
  have happart : ¬ (0 = 2 ∨ loopMesh.Joins 0 2) := by
    simp [Topology.Joins, loopMesh]
  obtain ⟨row, column, -, -, hplace⟩ :=
    hplaces.place_refused 0 2 0 0 (by decide) (by decide) happart
  refine ⟨hends, (hcount 3 2).2 ⟨by decide, rfl, rfl⟩, (hzero 1).2 ⟨rfl, rfl, ?_⟩, m, hm, ?_, ?_,
    ?_⟩
  · intro i hi
    obtain rfl : i = 0 := by omega
    simp
  · exact (hplaces.entry_iff 1 0 1 0).2 ⟨⟨by decide, by decide⟩, .inr hjoined⟩
  · exact hplaces.row_refused 1 2 2 1 (by decide)
  · exact ⟨row, column, hplace⟩

end BlockMatrix

end LinearSystem

end CarrierTransport
