import Mathlib
import CarrierTransport.LinearSystem.Coupling

/-!
# Blocks and couplings

The offsets of a layout are the partial sums of its block sizes, so the blocks follow one another
without gap or overlap (`Layout.exists_block`, `Layout.lt_of_mem_block`). Couplings that are built
by joining pairs of nodes are a symmetric relation on the nodes, each list of them ascending
(`Couplings.proper_ofPairs`). Both together order the columns of a row.
-/

namespace CarrierTransport.LinearSystem

open Finset (range)
open Mesh (insertAscending mem_insertAscending pairwise_insertAscending)

/-! ### Offsets -/

/-- The offsets of a list of block sizes, as the program accumulates them, are its partial sums. -/
theorem foldl_offsets (sizes : List Nat) :
    (sizes.foldl (fun offsets size => offsets.push (offsets.back?.getD 0 + size)) #[0]).toList =
      (List.range (sizes.length + 1)).map fun node => (sizes.take node).sum := by
  induction sizes using List.reverseRecOn with
  | nil => rfl
  | append_singleton sizes size ih =>
    -- the last offset so far is the sum of all sizes so far
    have hback : (sizes.foldl (fun offsets size => offsets.push (offsets.back?.getD 0 + size))
        #[0]).back?.getD 0 = sizes.sum := by
      rw [← Array.getLast?_toList, ih, List.range_succ, List.map_append, List.map_singleton,
        List.getLast?_concat, Option.getD_some, List.take_length]
    rw [List.foldl_append, List.foldl_cons, List.foldl_nil, Array.toList_push, hback, ih,
      List.length_append, List.length_singleton, List.range_succ (n := sizes.length + 1),
      List.map_append, List.map_singleton]
    congr 1
    · refine List.map_congr_left fun node hnode => ?_
      rw [List.take_append_of_le_length (by rw [List.mem_range] at hnode; omega)]
    · rw [List.take_of_length_le (by simp), List.sum_append, List.sum_singleton]

namespace Layout

variable (layout : Layout)

theorem offset_eq_sum_take {node : Nat} (h : node ≤ layout.nodeCount) :
    layout.offset node = (layout.sizes.toList.take node).sum := by
  have hlt : node < layout.sizes.toList.length + 1 := by
    rw [Array.length_toList]
    exact Nat.lt_succ_of_le h
  rw [offset, layout.offsets_eq, offsetsOf, ← Array.foldl_toList, Array.getD_eq_getD_getElem?,
    ← Array.getElem?_toList, foldl_offsets, List.getElem?_map, List.getElem?_range hlt]
  rfl

@[simp] theorem offset_zero : layout.offset 0 = 0 := by
  rw [layout.offset_eq_sum_take (Nat.zero_le _), List.take_zero, List.sum_nil]

theorem offset_succ {node : Nat} (h : node < layout.nodeCount) :
    layout.offset (node + 1) = layout.offset node + layout.sizes.getD node 0 := by
  have hlt : node < layout.sizes.toList.length := by rwa [Array.length_toList]
  rw [layout.offset_eq_sum_take h, layout.offset_eq_sum_take h.le, List.sum_take_succ _ _ hlt,
    Array.getD_eq_getD_getElem?, ← Array.getElem?_toList, List.getElem?_eq_getElem hlt,
    Option.getD_some]

theorem offset_le_offset {node node' : Nat} (hle : node ≤ node') (h : node' ≤ layout.nodeCount) :
    layout.offset node ≤ layout.offset node' := by
  induction node', hle using Nat.le_induction with
  | base => exact le_rfl
  | succ node' hle ih =>
    rw [layout.offset_succ h]
    exact Nat.le_add_right_of_le (ih (by omega))

/-- Where every node has one unknown, the unknowns are numbered like the nodes. -/
theorem offset_ofSizes_replicate {count node : Nat} (h : node ≤ count) :
    (ofSizes (.replicate count 1)).offset node = node := by
  have hle : node ≤ (ofSizes (.replicate count 1)).nodeCount := by
    rw [nodeCount, ofSizes, Array.size_replicate]
    exact h
  rw [offset_eq_sum_take _ hle]
  simp [ofSizes, h]

/-! ### Blocks -/

theorem mem_block {node row : Nat} :
    row ∈ layout.block node ↔
      layout.offset node ≤ row ∧ row < layout.offset node + layout.sizes.getD node 0 :=
  List.mem_range'_1

theorem lt_nodeCount_of_mem_block {node row : Nat} (h : row ∈ layout.block node) :
    node < layout.nodeCount := by
  by_contra hge
  have hsize : layout.sizes.getD node 0 = 0 := by
    rw [Array.getD_eq_getD_getElem?, Array.getElem?_eq_none (not_lt.1 hge), Option.getD_none]
  rw [mem_block, hsize] at h
  omega

theorem lt_total_of_mem_block {node row : Nat} (h : row ∈ layout.block node) :
    row < layout.total := by
  have hnode := layout.lt_nodeCount_of_mem_block h
  have hle := layout.offset_le_offset hnode (le_refl layout.nodeCount)
  rw [mem_block, ← layout.offset_succ hnode] at h
  exact lt_of_lt_of_le h.2 hle

theorem lt_of_mem_block {node node' row row' : Nat} (hlt : node < node')
    (h : row ∈ layout.block node) (h' : row' ∈ layout.block node') : row < row' := by
  have hle := layout.offset_le_offset (Nat.succ_le_of_lt hlt)
    (layout.lt_nodeCount_of_mem_block h').le
  rw [layout.offset_succ (layout.lt_nodeCount_of_mem_block h)] at hle
  rw [mem_block] at h
  rw [mem_block] at h'
  omega

/-- The rows of a table that repeats an item once for every unknown of its node. -/
def perUnknown {β : Type} (f : Nat → β) (nodes : Nat) : List β :=
  (List.range nodes).flatMap fun node => List.replicate (layout.sizes.getD node 0) (f node)

theorem length_perUnknown {β : Type} (f : Nat → β) {nodes : Nat} (h : nodes ≤ layout.nodeCount) :
    (layout.perUnknown f nodes).length = layout.offset nodes := by
  induction nodes with
  | zero => rw [offset_zero]; rfl
  | succ nodes ih =>
    rw [perUnknown, List.range_succ, List.flatMap_append, List.length_append,
      List.flatMap_singleton, List.length_replicate, layout.offset_succ h, ← ih (by omega), perUnknown]

theorem getElem?_perUnknown {β : Type} (f : Nat → β) {nodes node row : Nat}
    (h : nodes ≤ layout.nodeCount) (hnode : node < nodes) (hrow : row ∈ layout.block node) :
    (layout.perUnknown f nodes)[row]? = some (f node) := by
  induction nodes with
  | zero => omega
  | succ nodes ih =>
    have hlength := layout.length_perUnknown f (Nat.le_of_succ_le h)
    rw [mem_block] at hrow
    rw [perUnknown, List.range_succ, List.flatMap_append, List.flatMap_singleton, ← perUnknown]
    rcases Nat.lt_or_eq_of_le (Nat.lt_succ_iff.1 hnode) with hlt | rfl
    · have hle := layout.offset_le_offset (Nat.succ_le_of_lt hlt) (Nat.le_of_succ_le h)
      rw [layout.offset_succ (by omega)] at hle
      rw [List.getElem?_append_left (by omega)]
      exact ih (by omega) hlt
    · rw [List.getElem?_append_right (by omega), List.getElem?_replicate, if_pos (by omega)]

theorem exists_block {row : Nat} (h : row < layout.total) :
    ∃ node < layout.nodeCount, row ∈ layout.block node := by
  suffices hall : ∀ nodes ≤ layout.nodeCount, row < layout.offset nodes →
      ∃ node < nodes, row ∈ layout.block node from hall _ le_rfl h
  intro nodes
  induction nodes with
  | zero => intro _ h; rw [offset_zero] at h; omega
  | succ nodes ih =>
    intro hnodes h
    rcases Nat.lt_or_ge row (layout.offset nodes) with hlt | hge
    · obtain ⟨node, hnode, hrow⟩ := ih (by omega) hlt
      exact ⟨node, by omega, hrow⟩
    · rw [layout.offset_succ hnodes] at h
      exact ⟨nodes, by omega, layout.mem_block.2 ⟨hge, h⟩⟩

end Layout

/-! ### Couplings -/

namespace Couplings

/-- A symmetric relation on the nodes, each list of related nodes ascending. -/
structure Proper (c : Couplings) (nodes : Nat) : Prop where
  size : c.size = nodes
  ascending : ∀ i, (c.getD i []).Pairwise (· < ·)
  lt : ∀ i, ∀ j ∈ c.getD i [], j < nodes
  symm : ∀ i, ∀ j ∈ c.getD i [], i ∈ c.getD j []

theorem getD_diagonal (nodes i : Nat) :
    (diagonal nodes).getD i [] = if i < nodes then [i] else [] := by
  rw [diagonal, Array.getD_eq_getD_getElem?, Array.getElem?_map]
  by_cases h : i < nodes
  · rw [if_pos h, Array.getElem?_eq_getElem (by rwa [Array.size_range]), Array.getElem_range]
    rfl
  · rw [if_neg h, Array.getElem?_eq_none (by rw [Array.size_range]; omega)]
    rfl

theorem proper_diagonal (nodes : Nat) : (diagonal nodes).Proper nodes where
  size := by simp [diagonal]
  ascending i := by
    rw [getD_diagonal]
    split_ifs
    · exact List.pairwise_singleton _ _
    · exact List.Pairwise.nil
  lt i j hj := by
    rw [getD_diagonal] at hj
    split_ifs at hj with h
    · rwa [List.mem_singleton.1 hj]
    · simp at hj
  symm i j hj := by
    rw [getD_diagonal] at hj ⊢
    split_ifs at hj with h
    · rw [List.mem_singleton.1 hj, if_pos h]
      exact List.mem_singleton_self i
    · simp at hj

theorem getD_modify_insert (c : Couplings) (i j k : Nat) (hi : i < c.size) :
    (c.modify i (insertAscending j)).getD k [] =
      if i = k then insertAscending j (c.getD k []) else c.getD k [] := by
  rw [Array.getD_eq_getD_getElem?, Array.getD_eq_getD_getElem?, Array.getElem?_modify]
  by_cases h : i = k
  · rw [if_pos h, if_pos h, Array.getElem?_eq_getElem (by omega)]
    rfl
  · rw [if_neg h, if_neg h]

theorem mem_getD_modify_insert (c : Couplings) {i j k l : Nat} (hi : i < c.size) :
    l ∈ (c.modify i (insertAscending j)).getD k [] ↔ l ∈ c.getD k [] ∨ k = i ∧ l = j := by
  rw [getD_modify_insert c i j k hi]
  split_ifs with h
  · rw [mem_insertAscending, or_comm, h]
    simp
  · constructor
    · exact Or.inl
    · rintro (hl | ⟨rfl, -⟩)
      · exact hl
      · exact absurd rfl h

theorem mem_getD_join (c : Couplings) {i j k l : Nat} (hi : i < c.size) (hj : j < c.size) :
    l ∈ (c.join i j).getD k [] ↔ l ∈ c.getD k [] ∨ k = i ∧ l = j ∨ k = j ∧ l = i := by
  rw [join, mem_getD_modify_insert _ (by rwa [Array.size_modify]), mem_getD_modify_insert _ hi,
    or_assoc]

theorem Proper.join {c : Couplings} {nodes i j : Nat} (hc : c.Proper nodes) (hi : i < nodes)
    (hj : j < nodes) : (c.join i j).Proper nodes := by
  have hi' : i < c.size := by rwa [hc.size]
  have hj' : j < c.size := by rwa [hc.size]
  constructor
  case size => rw [Couplings.join, Array.size_modify, Array.size_modify, hc.size]
  case ascending =>
    intro k
    have hfirst : ((c.modify i (insertAscending j)).getD k []).Pairwise (· < ·) := by
      rw [getD_modify_insert c i j k hi']
      split_ifs
      · exact pairwise_insertAscending j _ (hc.ascending k)
      · exact hc.ascending k
    rw [Couplings.join, getD_modify_insert _ j i k (by rwa [Array.size_modify])]
    split_ifs
    · exact pairwise_insertAscending i _ hfirst
    · exact hfirst
  case lt =>
    intro k l hl
    rcases (mem_getD_join c hi' hj').1 hl with hl | ⟨-, rfl⟩ | ⟨-, rfl⟩
    · exact hc.lt k l hl
    · exact hj
    · exact hi
  case symm =>
    intro k l hl
    rw [mem_getD_join c hi' hj'] at hl ⊢
    rcases hl with hl | ⟨rfl, rfl⟩ | ⟨rfl, rfl⟩
    · exact Or.inl (hc.symm k l hl)
    · exact Or.inr (Or.inr ⟨rfl, rfl⟩)
    · exact Or.inr (Or.inl ⟨rfl, rfl⟩)

/-- **Couplings by pairs of nodes are symmetric and ascending.** -/
theorem proper_ofPairs {nodes : Nat} {pairs : List (Nat × Nat)}
    (h : ∀ p ∈ pairs, p.1 < nodes ∧ p.2 < nodes) : (ofPairs nodes pairs).Proper nodes := by
  suffices hall : ∀ c : Couplings, c.Proper nodes →
      (pairs.foldl (fun c p => c.join p.1 p.2) c).Proper nodes from hall _ (proper_diagonal nodes)
  intro c hc
  induction pairs generalizing c with
  | nil => exact hc
  | cons p pairs ih =>
    have hp := h p List.mem_cons_self
    exact ih (fun q hq => h q (List.mem_cons_of_mem p hq)) _ (hc.join hp.1 hp.2)

/-- Joining pairs couples exactly their nodes. -/
theorem mem_getD_ofPairs {nodes : Nat} {pairs : List (Nat × Nat)}
    (h : ∀ p ∈ pairs, p.1 < nodes ∧ p.2 < nodes) {k l : Nat} :
    l ∈ (ofPairs nodes pairs).getD k [] ↔
      k < nodes ∧ l = k ∨ (k, l) ∈ pairs ∨ (l, k) ∈ pairs := by
  suffices hall : ∀ c : Couplings, c.Proper nodes →
      (l ∈ (pairs.foldl (fun c p => c.join p.1 p.2) c).getD k [] ↔
        l ∈ c.getD k [] ∨ (k, l) ∈ pairs ∨ (l, k) ∈ pairs) by
    refine (hall _ (proper_diagonal nodes)).trans (or_congr_left ?_)
    rw [getD_diagonal]
    split_ifs with hk <;> simp [hk]
  intro c hc
  induction pairs generalizing c with
  | nil => simp
  | cons p pairs ih =>
    obtain ⟨i, j⟩ := p
    obtain ⟨hi, hj⟩ := h (i, j) List.mem_cons_self
    rw [List.foldl_cons, ih (fun q hq => h q (List.mem_cons_of_mem _ hq)) _ (hc.join hi hj),
      mem_getD_join c (by rwa [hc.size]) (by rwa [hc.size])]
    simp only [List.mem_cons, Prod.mk.injEq]
    tauto

/-! ### The columns of a node -/

variable {c : Couplings} {layout : Layout}

theorem mem_columns {node column : Nat} :
    column ∈ c.columns layout node ↔ ∃ other ∈ c.getD node [], column ∈ layout.block other :=
  List.mem_flatMap

theorem Proper.pairwise_columns {nodes : Nat} (hc : c.Proper nodes) (node : Nat) :
    (c.columns layout node).Pairwise (· < ·) := by
  rw [columns, List.pairwise_flatMap]
  refine ⟨fun other _ => List.pairwise_lt_range', (hc.ascending node).imp ?_⟩
  intro other other' hlt column hcolumn column' hcolumn'
  exact layout.lt_of_mem_block hlt hcolumn hcolumn'

end Couplings

end CarrierTransport.LinearSystem
