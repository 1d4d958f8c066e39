/-!
# Ascending lists

Sets of numbers as strictly ascending lists.
-/

namespace CarrierTransport.Mesh

/-- An ascending list with a number put in its place, unless it is there already. -/
def insertAscending (n : Nat) : List Nat → List Nat
  | [] => [n]
  | m :: rest =>
    if n < m then n :: m :: rest else if n = m then m :: rest else m :: insertAscending n rest

/-- The distinct members of a list, ascending. -/
def ascending (ns : List Nat) : List Nat :=
  ns.foldr insertAscending []

theorem mem_insertAscending (n k : Nat) (ns : List Nat) :
    k ∈ insertAscending n ns ↔ k = n ∨ k ∈ ns := by
  induction ns with
  | nil => simp [insertAscending]
  | cons m rest ih =>
    unfold insertAscending
    split
    · simp
    · split
      · simp_all
      · simp [ih, or_left_comm]

theorem mem_ascending (k : Nat) (ns : List Nat) : k ∈ ascending ns ↔ k ∈ ns := by
  induction ns with
  | nil => simp [ascending]
  | cons n rest ih =>
    have step : ascending (n :: rest) = insertAscending n (ascending rest) := rfl
    rw [step, mem_insertAscending, ih, List.mem_cons]

theorem pairwise_insertAscending (n : Nat) (ns : List Nat) (h : ns.Pairwise (· < ·)) :
    (insertAscending n ns).Pairwise (· < ·) := by
  induction ns with
  | nil => simp [insertAscending]
  | cons m rest ih =>
    rw [List.pairwise_cons] at h
    unfold insertAscending
    split
    · next hlt =>
      refine List.pairwise_cons.2 ⟨fun k hk => ?_, List.pairwise_cons.2 h⟩
      rcases List.mem_cons.1 hk with rfl | hk
      · exact hlt
      · exact Nat.lt_trans hlt (h.1 k hk)
    · split
      · exact List.pairwise_cons.2 h
      · refine List.pairwise_cons.2 ⟨fun k hk => ?_, ih h.2⟩
        rcases (mem_insertAscending n k rest).1 hk with rfl | hk
        · omega
        · exact h.1 k hk

theorem pairwise_ascending (ns : List Nat) : (ascending ns).Pairwise (· < ·) := by
  induction ns with
  | nil => simp [ascending]
  | cons n rest ih => exact pairwise_insertAscending n (ascending rest) ih

end CarrierTransport.Mesh
