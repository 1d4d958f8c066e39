import Mathlib
import CarrierTransport.Proofs.LinearSystem.Places

/-!
# Replaced equations

The equations of a node are replaced row by row. Which rows that are is all that matters: a row that
is replaced twice is the same as if it had been replaced once, and rows of different nodes are
different rows. So a replacement is written down at once for all rows (`replaceRows`), and what
follows from it, that a replacement can be repeated and that replacements at different nodes can
change places, follows row by row.

Nothing is asked of the numbers: the systems are the same, not only equal as far as their numbers
can be compared.
-/

namespace CarrierTransport.LinearSystem

namespace Layout

/-- A row belongs to one node. -/
theorem eq_of_mem_block {layout : Layout} {i j row : Nat} (hi : row ∈ layout.block i)
    (hj : row ∈ layout.block j) : i = j := by
  rcases lt_trichotomy i j with hlt | rfl | hlt
  · exact absurd (layout.lt_of_mem_block hlt hi hj) (lt_irrefl _)
  · rfl
  · exact absurd (layout.lt_of_mem_block hlt hj hi) (lt_irrefl _)

end Layout

namespace BlockMatrix

variable {α : Type} [Scalar α] {m m' : BlockMatrix α}

/-! ### Replacing rows -/

/-- The coefficients of the equation `diagonal * x = 0` in the places of a row. -/
def placeholder (diagonal : α) (row : Nat) (entries : Array (Entry α)) : Array (Entry α) :=
  entries.map fun e => { e with value := if e.column = row then diagonal else 0 }

/-- The equations of some rows replaced by `diagonal * x = 0`. -/
def replaceRows (m : BlockMatrix α) (diagonal : α) (replaced : List Nat) : BlockMatrix α :=
  { m with
    rows := m.rows.mapIdx fun row entries =>
      if row ∈ replaced then placeholder diagonal row entries else entries
    rhs := m.rhs.mapIdx fun row b => if row ∈ replaced then 0 else b }

section Rows

variable {diagonal diagonal' : α} {replaced replaced' : List Nat} {row : Nat}

theorem placeholder_placeholder (entries : Array (Entry α)) :
    placeholder diagonal' row (placeholder diagonal row entries) =
      placeholder diagonal' row entries := by
  simp only [placeholder, Array.map_map, Function.comp_def]

@[simp] theorem layout_replaceRows : (m.replaceRows diagonal replaced).layout = m.layout :=
  rfl

theorem getElem?_rows_replaceRows :
    (m.replaceRows diagonal replaced).rows[row]? =
      if row ∈ replaced then m.rows[row]?.map (placeholder diagonal row) else m.rows[row]? := by
  rw [replaceRows, Array.getElem?_mapIdx]
  split_ifs <;> simp

theorem getElem?_rhs_replaceRows :
    (m.replaceRows diagonal replaced).rhs[row]? =
      if row ∈ replaced then m.rhs[row]?.map fun _ => 0 else m.rhs[row]? := by
  rw [replaceRows, Array.getElem?_mapIdx]
  split_ifs <;> simp

omit [Scalar α] in
/-- Systems that are the same but for their numbers are equal if they are so row by row. -/
theorem eq_of_rows (hlayout : m'.layout = m.layout) (hsolution : m'.solution = m.solution)
    (htolerance : m'.pivotTolerance = m.pivotTolerance)
    (hrows : ∀ row : Nat, m'.rows[row]? = m.rows[row]?)
    (hrhs : ∀ row : Nat, m'.rhs[row]? = m.rhs[row]?) : m' = m := by
  cases m
  cases m'
  simp only [mk.injEq]
  exact ⟨hlayout, Array.ext_getElem? hrows, Array.ext_getElem? hrhs, hsolution, htolerance⟩

@[simp] theorem replaceRows_nil : m.replaceRows diagonal [] = m := by
  refine eq_of_rows rfl rfl rfl ?_ ?_
  · intro row
    simp [getElem?_rows_replaceRows]
  · intro row
    simp [getElem?_rhs_replaceRows]

theorem dirichletRow_eq : m.dirichletRow diagonal row = m.replaceRows diagonal [row] := by
  refine eq_of_rows rfl rfl rfl ?_ ?_
  · intro i
    rw [getElem?_rows_replaceRows, dirichletRow, Array.getElem?_modify]
    by_cases hi : row = i
    · subst hi
      rw [if_pos rfl, if_pos List.mem_cons_self]
      rfl
    · simp [hi, Ne.symm hi]
  · intro i
    rw [getElem?_rhs_replaceRows, dirichletRow, Array.getElem?_modify]
    by_cases hi : row = i
    · simp [hi]
    · simp [hi, Ne.symm hi]

/-- Rows replaced after others are all replaced at once. -/
theorem replaceRows_replaceRows :
    (m.replaceRows diagonal replaced).replaceRows diagonal replaced' =
      m.replaceRows diagonal (replaced ++ replaced') := by
  refine eq_of_rows rfl rfl rfl ?_ ?_
  · intro row
    simp only [getElem?_rows_replaceRows, List.mem_append]
    by_cases hrow : row ∈ replaced <;> by_cases hrow' : row ∈ replaced' <;>
      simp [hrow, hrow', Function.comp_def, placeholder_placeholder]
  · intro row
    simp only [getElem?_rhs_replaceRows, List.mem_append]
    by_cases hrow : row ∈ replaced <;> by_cases hrow' : row ∈ replaced' <;>
      simp [hrow, hrow', Function.comp_def]

/-- Only which rows are replaced matters, not how often or in which order. -/
theorem replaceRows_congr (h : ∀ row, row ∈ replaced ↔ row ∈ replaced') :
    m.replaceRows diagonal replaced = m.replaceRows diagonal replaced' := by
  simp only [replaceRows, h]

theorem replaceRows_comm (h : ∀ row ∈ replaced, row ∉ replaced') :
    (m.replaceRows diagonal replaced).replaceRows diagonal' replaced' =
      (m.replaceRows diagonal' replaced').replaceRows diagonal replaced := by
  refine eq_of_rows rfl rfl rfl ?_ ?_
  · intro row
    simp only [getElem?_rows_replaceRows]
    by_cases hrow : row ∈ replaced
    · simp [hrow, h row hrow]
    · simp [hrow]
  · intro row
    simp only [getElem?_rhs_replaceRows]
    by_cases hrow : row ∈ replaced
    · simp [hrow, h row hrow]
    · simp [hrow]

end Rows

/-! ### Replacing the equations of a node -/

section Nodes

variable {diagonal diagonal' : α} {node : Nat}

theorem foldl_dirichletRow (rows : List Nat) :
    rows.foldl (dirichletRow diagonal) m = m.replaceRows diagonal rows := by
  induction rows generalizing m with
  | nil => rw [List.foldl_nil, replaceRows_nil]
  | cons row rows ih =>
    rw [List.foldl_cons, ih, dirichletRow_eq, replaceRows_replaceRows]
    rfl

theorem applyDirichlet_eq :
    m.applyDirichlet node diagonal =
      if node < m.layout.nodeCount then .ok (m.replaceRows diagonal (m.layout.block node))
      else .error .unknownIndex := by
  by_cases hnode : node < m.layout.nodeCount
  · rw [applyDirichlet_of_lt hnode, foldl_dirichletRow, if_pos hnode]
  · rw [applyDirichlet, if_neg hnode, if_neg hnode]

theorem applyDirichlet_eq_ok :
    m.applyDirichlet node diagonal = .ok m' ↔
      node < m.layout.nodeCount ∧ m' = m.replaceRows diagonal (m.layout.block node) := by
  rw [applyDirichlet_eq]
  split_ifs with hnode
  · simp [hnode, eq_comm]
  · simp [hnode]

/-- A replacement that is repeated changes nothing more. -/
theorem applyDirichlet_again (h : m.applyDirichlet node diagonal = .ok m') :
    m'.applyDirichlet node diagonal = .ok m' := by
  obtain ⟨hnode, rfl⟩ := applyDirichlet_eq_ok.1 h
  apply applyDirichlet_eq_ok.2
  refine ⟨hnode, ?_⟩
  rw [layout_replaceRows, replaceRows_replaceRows]
  exact replaceRows_congr (by simp)

/-- Replacements at different nodes can change places, where both fail as well. -/
theorem applyDirichlet_swap {i j : Nat} (hij : i ≠ j) :
    (m.applyDirichlet i diagonal >>= fun m' => m'.applyDirichlet j diagonal') =
      (m.applyDirichlet j diagonal' >>= fun m' => m'.applyDirichlet i diagonal) := by
  have hdisjoint : ∀ row ∈ m.layout.block i, row ∉ m.layout.block j :=
    fun row hi hj => hij (Layout.eq_of_mem_block hi hj)
  by_cases hi : i < m.layout.nodeCount <;> by_cases hj : j < m.layout.nodeCount
  · have hfirst : m.applyDirichlet i diagonal = .ok _ := applyDirichlet_eq_ok.2 ⟨hi, rfl⟩
    have hsecond : m.applyDirichlet j diagonal' = .ok _ := applyDirichlet_eq_ok.2 ⟨hj, rfl⟩
    simp only [hfirst, hsecond, Except.bind, bind]
    rw [applyDirichlet_eq, applyDirichlet_eq, layout_replaceRows, layout_replaceRows, if_pos hi,
      if_pos hj, replaceRows_comm hdisjoint]
  · simp [applyDirichlet_eq, hi, hj, bind, Except.bind]
  · simp [applyDirichlet_eq, hi, hj, bind, Except.bind]
  · simp [applyDirichlet_eq, hi, hj, bind, Except.bind]

/-! ### What a system keeps -/

/-- What is left of a system when the equations of some rows are replaced: all but the numbers in
these rows. -/
structure KeepsRows (m m' : BlockMatrix α) (replaced : Nat → Prop) : Prop
    extends m.SameSystem m' where
  solution : m'.solution = m.solution
  rows : ∀ row : Nat, ¬ replaced row → m'.rows[row]? = m.rows[row]?
  rhs : ∀ row : Nat, ¬ replaced row → m'.rhs[row]? = m.rhs[row]?

/-- A row holds a placeholder: the diagonal and zeros, and zero on the right hand side. -/
structure IsPlaceholder (m : BlockMatrix α) (diagonal : α) (row : Nat) : Prop where
  coefficients : ∀ entries, m.rows[row]? = some entries → ∀ e ∈ entries,
    e.value = if e.column = row then diagonal else 0
  rhs : ∀ b, m.rhs[row]? = some b → b = 0

omit [Scalar α] in
theorem KeepsRows.trans {m'' : BlockMatrix α} {replaced replaced' : Nat → Prop}
    (h : m.KeepsRows m' replaced) (h' : m'.KeepsRows m'' replaced') :
    m.KeepsRows m'' fun row => replaced row ∨ replaced' row := by
  refine ⟨h.toSameSystem.trans h'.toSameSystem, h'.solution.trans h.solution, ?_, ?_⟩
  · intro row hrow
    rw [not_or] at hrow
    exact (h'.rows row hrow.2).trans (h.rows row hrow.1)
  · intro row hrow
    rw [not_or] at hrow
    exact (h'.rhs row hrow.2).trans (h.rhs row hrow.1)

theorem IsPlaceholder.of_keepsRows {replaced : Nat → Prop} {row : Nat}
    (h : m.IsPlaceholder diagonal row) (hkeeps : m.KeepsRows m' replaced) (hrow : ¬ replaced row) :
    m'.IsPlaceholder diagonal row := by
  constructor
  · rw [hkeeps.rows row hrow]
    exact h.coefficients
  · rw [hkeeps.rhs row hrow]
    exact h.rhs

theorem keepsRows_applyDirichlet (h : m.applyDirichlet node diagonal = .ok m') :
    m.KeepsRows m' (· ∈ m.layout.block node) := by
  obtain ⟨hsame, -, -⟩ := of_applyDirichlet h
  obtain ⟨-, rfl⟩ := applyDirichlet_eq_ok.1 h
  refine ⟨hsame, rfl, ?_, ?_⟩
  · intro row hrow
    rw [getElem?_rows_replaceRows, if_neg hrow]
  · intro row hrow
    rw [getElem?_rhs_replaceRows, if_neg hrow]

theorem isPlaceholder_applyDirichlet (h : m.applyDirichlet node diagonal = .ok m') {row : Nat}
    (hrow : row ∈ m.layout.block node) : m'.IsPlaceholder diagonal row := by
  obtain ⟨-, rfl⟩ := applyDirichlet_eq_ok.1 h
  constructor
  · intro entries hentries e he
    rw [getElem?_rows_replaceRows, if_pos hrow, Option.map_eq_some_iff] at hentries
    obtain ⟨before, -, rfl⟩ := hentries
    obtain ⟨e', -, rfl⟩ := Array.mem_map.1 he
    rfl
  · intro b hb
    rw [getElem?_rhs_replaceRows, if_pos hrow, Option.map_eq_some_iff] at hb
    obtain ⟨before, -, rfl⟩ := hb
    rfl

end Nodes

end BlockMatrix

end CarrierTransport.LinearSystem
