import Mathlib
import CarrierTransport.Proofs.LinearSystem.Scaling

/-!
# Chains between two held ends

The system of a chain: neighbouring unknowns are joined by conductances, an unknown may be joined to
the ground as well, and both ends are held (`BlockMatrix.IsChain`). It is tridiagonal, and not
symmetric, as the rows of the ends have nothing beside the diagonal.

In a tridiagonal system the pivot of a row is known from the one before it
(`BlockMatrix.WellFormed.pivotOf_succ`). In a chain it is the conductance from the unknown to ground
by way of the unknowns that are still to be eliminated, relative to the diagonal. That conductance
is at least the one to the next unknown, so no pivot of a chain is zero
(`BlockMatrix.IsChain.le_pivotOf`).
-/

namespace CarrierTransport.LinearSystem

open Finset (range)

variable {α : Type} [ExactScalar α]

/-! ### Tridiagonal systems -/

/-- Everything but the diagonal and the entries beside it is zero. -/
def Tridiagonal (A : Nat → Nat → α) : Prop :=
  ∀ i j, i + 1 < j ∨ j + 1 < i → A i j = 0

section Crout

variable {env : Envelope} {A : Nat → Nat → α} {F : Factors α} {rows : Nat}
  (h : Crout env A F rows) (hA : Tridiagonal A)

include h

theorem Crout.pivotAt_zero (hrows : 0 < rows) : F.pivotAt 0 = A 0 0 := by
  rw [h.pivot 0 hrows, Finset.range_zero, Finset.sum_empty, sub_zero]

include hA

theorem Crout.lowerAt_eq_zero {i j : Nat} (hi : i < rows) (hj : j + 1 < i) :
    F.lowerAt env i j = 0 := by
  induction j using Nat.strong_induction_on with
  | _ j ih =>
    rw [h.lower i hi j (by omega), hA i j (.inr hj), zero_sub, neg_eq_zero]
    refine Finset.sum_eq_zero fun k hk => ?_
    have hlt := Finset.mem_range.1 hk
    rw [ih k hlt (by omega), zero_mul]

theorem Crout.upperAt_eq_zero {i j : Nat} (hi : i < rows) (hj : j + 1 < i)
    (hpivot : ∀ k ≤ j, F.pivotAt k ≠ 0) : F.upperAt env j i = 0 := by
  induction j using Nat.strong_induction_on with
  | _ j ih =>
    have hsum : ∑ k ∈ range j, F.lowerAt env j k * F.upperAt env k i = 0 := by
      refine Finset.sum_eq_zero fun k hk => ?_
      have hlt := Finset.mem_range.1 hk
      rw [ih k hlt (by omega) fun l hl => hpivot l (by omega), mul_zero]
    have hupper := h.upper i hi j (by omega)
    rw [hA j i (.inl hj), hsum, sub_zero] at hupper
    exact (mul_eq_zero.1 hupper).resolve_right (hpivot j le_rfl)

/-- The pivot of a row of a tridiagonal system, from the one before it. -/
theorem Crout.pivotAt_succ {i : Nat} (hi : i + 1 < rows) (hpivot : ∀ k ≤ i, F.pivotAt k ≠ 0) :
    F.pivotAt (i + 1) = A (i + 1) (i + 1) - A (i + 1) i * A i (i + 1) / F.pivotAt i := by
  have hbefore : ∀ k ∈ range i, F.lowerAt env (i + 1) k = 0 ∧ F.upperAt env k (i + 1) = 0 := by
    intro k hk
    have hlt := Finset.mem_range.1 hk
    exact ⟨h.lowerAt_eq_zero hA hi (by omega),
      h.upperAt_eq_zero hA hi (by omega) fun l hl => hpivot l (by omega)⟩
  have hlower : F.lowerAt env (i + 1) i = A (i + 1) i := by
    rw [h.lower (i + 1) hi i (by omega), sub_eq_self]
    exact Finset.sum_eq_zero fun k hk => by rw [(hbefore k hk).1, zero_mul]
  have hupper : F.upperAt env i (i + 1) * F.pivotAt i = A i (i + 1) := by
    rw [h.upper (i + 1) hi i (by omega), sub_eq_self]
    exact Finset.sum_eq_zero fun k hk => by rw [(hbefore k hk).2, mul_zero]
  have hsum : ∑ k ∈ range i, F.lowerAt env (i + 1) k * F.upperAt env k (i + 1) = 0 :=
    Finset.sum_eq_zero fun k hk => by rw [(hbefore k hk).1, zero_mul]
  rw [h.pivot (i + 1) hi, Finset.sum_range_succ, hsum, zero_add, hlower, ← hupper, mul_div_assoc,
    mul_div_cancel_right₀ _ (hpivot i le_rfl)]

end Crout

namespace BlockMatrix

variable {m : BlockMatrix α}

theorem WellFormed.pivotOf_zero (hm : m.WellFormed) (hdiagonal : m.coefficient 0 0 ≠ 0) :
    m.pivotOf 0 = 1 := by
  have hcrout := crout_eliminated (hm.encloses 1) fun i hi => by omega
  have hpivot := hcrout.pivotAt_zero (by decide)
  rw [pivotAt_eliminated (by decide)] at hpivot
  rw [pivotOf, hpivot, hm.coefficient_scaled, scaledCoefficient, scaleOf, if_neg hdiagonal,
    div_self hdiagonal]

/-- The pivot that a solve meets in a row of a tridiagonal system. -/
theorem WellFormed.pivotOf_succ (hm : m.WellFormed) (htridiagonal : Tridiagonal m.coefficient)
    {i : Nat} (hdiagonal : m.coefficient i i ≠ 0)
    (hdiagonal' : m.coefficient (i + 1) (i + 1) ≠ 0) (hpivot : ∀ k ≤ i, m.pivotOf k ≠ 0) :
    m.pivotOf (i + 1) = 1 - m.coefficient (i + 1) i * m.coefficient i (i + 1) /
      (m.coefficient i i * m.coefficient (i + 1) (i + 1) * m.pivotOf i) := by
  have hcrout := crout_eliminated (hm.encloses (i + 2)) fun k hk => hpivot k (by omega)
  have hmet : ∀ k ≤ i + 1, (eliminated m.envelope m.scaled.coefficient (i + 2)).pivotAt k =
      m.pivotOf k := fun k hk => pivotAt_eliminated (by omega)
  have hscaled : Tridiagonal m.scaled.coefficient := by
    intro k l hkl
    rw [hm.coefficient_scaled, scaledCoefficient, htridiagonal k l hkl, zero_div]
  have hsucc := hcrout.pivotAt_succ hscaled (Nat.lt_succ_self _) fun k hk => by
    rw [hmet k (by omega)]
    exact hpivot k hk
  rw [hmet (i + 1) le_rfl, hmet i (by omega), hm.coefficient_scaled] at hsucc
  simp only [scaledCoefficient, scaleOf, if_neg hdiagonal, if_neg hdiagonal',
    div_self hdiagonal'] at hsucc
  have hne := hpivot i le_rfl
  rw [hsucc]
  field_simp

/-! ### Chains -/

/-- The system of a chain of so many joints, of the given conductances between neighbours and to
the ground, with both ends held. -/
structure IsChain (m : BlockMatrix α) (joints : Nat) (c g : Nat → α) : Prop where
  tridiagonal : Tridiagonal m.coefficient
  first : m.coefficient 0 0 ≠ 0
  first_right : m.coefficient 0 1 = 0
  last : m.coefficient joints joints ≠ 0
  last_left : m.coefficient joints (joints - 1) = 0
  diagonal : ∀ i, i + 1 < joints → m.coefficient (i + 1) (i + 1) = c i + c (i + 1) + g (i + 1)
  left : ∀ i, i + 1 < joints → m.coefficient (i + 1) i = -c i
  right : ∀ i, i + 1 < joints → m.coefficient (i + 1) (i + 2) = -c (i + 1)

namespace IsChain

variable {joints : Nat} {c g : Nat → α} (h : m.IsChain joints c g) (hm : m.WellFormed)
  (hc : ∀ e < joints, 0 < c e) (hg : ∀ i, 0 ≤ g i)

include h hc hg

theorem diagonal_pos {i : Nat} (hi : i + 1 < joints) : 0 < m.coefficient (i + 1) (i + 1) := by
  have hleft := hc i (by omega)
  have hright := hc (i + 1) hi
  have hground := hg (i + 1)
  rw [h.diagonal i hi]
  linarith

theorem diagonal_ne_zero {i : Nat} (hi : i < joints) : m.coefficient i i ≠ 0 := by
  cases i with
  | zero => exact h.first
  | succ i => exact (h.diagonal_pos hc hg hi).ne'

include hm

/-- The conductance from an unknown to the ground by way of those behind it is at least that to the
next unknown and that to the ground. -/
theorem le_pivotOf_mul {i : Nat} (hi : i < joints) :
    (∀ k ≤ i, m.pivotOf k ≠ 0) ∧
      (0 < i → c i + g i ≤ m.pivotOf i * m.coefficient i i) := by
  induction i with
  | zero =>
    have hone := hm.pivotOf_zero h.first
    refine ⟨fun k hk => ?_, fun hpos => by omega⟩
    rw [Nat.le_zero.1 hk, hone]
    exact one_ne_zero
  | succ i ih =>
    obtain ⟨hpivot, hbefore⟩ := ih (by omega)
    have hdiagonal := h.diagonal_ne_zero hc hg (show i < joints by omega)
    have hdiagonal' := h.diagonal_pos hc hg hi
    have hnext : c (i + 1) + g (i + 1) ≤ m.pivotOf (i + 1) * m.coefficient (i + 1) (i + 1) := by
      rw [hm.pivotOf_succ h.tridiagonal hdiagonal hdiagonal'.ne' hpivot, h.left i hi]
      cases i with
      | zero =>
        rw [h.first_right, mul_zero, zero_div, sub_zero, one_mul, h.diagonal 0 hi]
        linarith [hc 0 (by omega)]
      | succ i =>
        obtain ⟨q, hq⟩ : ∃ q, q = m.pivotOf (i + 1) * m.coefficient (i + 1) (i + 1) := ⟨_, rfl⟩
        have hle : c (i + 1) + g (i + 1) ≤ q := hq ▸ hbefore (Nat.succ_pos i)
        have hpos := hc (i + 1) (by omega)
        have hground := hg (i + 1)
        have hshare : c (i + 1) * c (i + 1) / q ≤ c (i + 1) := by
          rw [div_le_iff₀ (by linarith)]
          exact mul_le_mul_of_nonneg_left (by linarith) hpos.le
        have hreduced : (1 - -c (i + 1) * -c (i + 1) / (m.coefficient (i + 1) (i + 1) *
            m.coefficient (i + 2) (i + 2) * m.pivotOf (i + 1))) * m.coefficient (i + 2) (i + 2) =
            m.coefficient (i + 2) (i + 2) - c (i + 1) * c (i + 1) / q := by
          have hne := hpivot (i + 1) le_rfl
          rw [hq]
          field_simp
        rw [h.right i (by omega), hreduced, h.diagonal (i + 1) hi]
        linarith
    refine ⟨fun k hk => ?_, fun _ => hnext⟩
    rcases Nat.lt_or_eq_of_le hk with hlt | rfl
    · exact hpivot k (by omega)
    · intro hzero
      rw [hzero, zero_mul] at hnext
      linarith [hc (i + 1) hi, hg (i + 1)]

/-- **The pivots of a chain** are one at both ends, and between them at least the share of the
conductance to the next unknown in that to both neighbours. -/
theorem le_pivotOf (hjoints : 0 < joints) :
    m.pivotOf 0 = 1 ∧ m.pivotOf joints = 1 ∧
      ∀ i, i + 1 < joints → c (i + 1) / (c i + c (i + 1)) ≤ m.pivotOf (i + 1) := by
  refine ⟨hm.pivotOf_zero h.first, ?_, fun i hi => ?_⟩
  · obtain ⟨i, rfl⟩ := Nat.exists_eq_succ_of_ne_zero hjoints.ne'
    obtain ⟨hpivot, -⟩ := h.le_pivotOf_mul hm hc hg (Nat.lt_succ_self i)
    have hleft : m.coefficient (i + 1) i = 0 := h.last_left
    rw [hm.pivotOf_succ h.tridiagonal (h.diagonal_ne_zero hc hg (Nat.lt_succ_self i)) h.last hpivot,
      hleft, zero_mul, zero_div, sub_zero]
  · obtain ⟨-, hle⟩ := h.le_pivotOf_mul hm hc hg hi
    have hdiagonal := h.diagonal_pos hc hg hi
    have hleft := hc i (by omega)
    have hright := hc (i + 1) hi
    have hground := hg (i + 1)
    calc c (i + 1) / (c i + c (i + 1))
        ≤ (c (i + 1) + g (i + 1)) / m.coefficient (i + 1) (i + 1) := by
          rw [h.diagonal i hi, div_le_div_iff₀ (by linarith) (by linarith)]
          nlinarith [mul_nonneg hground hleft.le]
      _ ≤ m.pivotOf (i + 1) := by
          rw [div_le_iff₀ hdiagonal]
          exact hle (Nat.succ_pos i)

end IsChain

end BlockMatrix

end CarrierTransport.LinearSystem
