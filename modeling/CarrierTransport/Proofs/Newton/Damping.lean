import Mathlib
import CarrierTransport.Newton.Damping
import CarrierTransport.Proofs.Loop
import CarrierTransport.Proofs.Scalar.Exact

/-!
# The search for a damping factor

A sweep that halves nothing has compared every density with the floor at one and the same factor,
and a search that finds a factor ends with such a sweep. So the factor found keeps all densities
above the floor at once (`Damping.of_search`), although a single sweep with halvings does not.
-/

namespace CarrierTransport.Newton.Damping

variable {α : Type}

section Scalar

variable [Scalar α] {floor factor : α} {targets : List (α × α)} {d : Damping α}

/-- With this share of its increment no density falls below the floor. -/
def Admits (floor : α) (targets : List (α × α)) (factor : α) : Prop :=
  ∀ target ∈ targets, ¬ target.1 + factor * target.2 < floor

theorem halvings_le_sweep (floor : α) (targets : List (α × α)) (d : Damping α) :
    d.halvings ≤ (sweep floor targets d).halvings := by
  induction targets generalizing d with
  | nil => exact le_rfl
  | cons target targets ih =>
    refine le_trans ?_ (ih (visit floor d target))
    unfold visit
    split
    · exact Nat.le_succ _
    · exact le_rfl

theorem Admits.sweep_eq (h : Admits floor targets d.factor) : sweep floor targets d = d := by
  induction targets with
  | nil => rfl
  | cons target targets ih =>
    have hvisit : visit floor d target = d := if_neg (h target List.mem_cons_self)
    rw [sweep, List.foldl_cons, hvisit]
    exact ih fun target htarget => h target (List.mem_cons_of_mem _ htarget)

/-- A sweep that halves nothing has found all densities above the floor. -/
theorem halvings_sweep_eq_iff :
    (sweep floor targets d).halvings = d.halvings ↔ Admits floor targets d.factor := by
  constructor
  · intro h
    induction targets with
    | nil => simp [Admits]
    | cons target targets ih =>
      rw [sweep, List.foldl_cons, ← sweep] at h
      have hle := halvings_le_sweep floor targets (visit floor d target)
      rw [h] at hle
      unfold visit at h hle
      split at h
      · next hlt =>
        rw [if_pos hlt] at hle
        exact absurd hle (Nat.not_succ_le_self _)
      · next hlt =>
        intro other hother
        rcases List.mem_cons.1 hother with rfl | hother
        · exact hlt
        · exact ih h other hother
  · intro h
    rw [h.sweep_eq]

/-- **What a search finds.** What the visits keep holds of the factor found, and with it no density
falls below the floor. -/
theorem of_search {P : Damping α → Prop} (hvisit : ∀ d target, P d → P (visit floor d target))
    {sweeps : Nat} (hd : P d) (h : search floor targets sweeps d = .ok factor) :
    ∃ d', P d' ∧ d'.factor = factor ∧ Admits floor targets factor := by
  induction sweeps generalizing d with
  | zero => cases h
  | succ sweeps ih =>
    have hnext : P (sweep floor targets d) :=
      Loop.foldl_invariant (fun _ d => P d) hd fun _ target d hd => hvisit d target hd
    unfold search at h
    dsimp only at h
    split at h
    · next hhalvings =>
      have hadmits := halvings_sweep_eq_iff.1 hhalvings
      rw [hadmits.sweep_eq] at h
      cases h
      exact ⟨d, hd, rfl, hadmits⟩
    · split at h
      · cases h
      · exact ih hnext h

theorem Admits.find_eq_ok (h : Admits floor targets 1.0) : find floor targets = .ok 1.0 := by
  have hsweep := Admits.sweep_eq (d := ⟨1.0, 0⟩) h
  simp only [find, maximalHalvings, search, hsweep, if_true]

end Scalar

/-- A factor that is found is positive and keeps the densities above the floor. -/
theorem of_find [ExactScalar α] {floor factor : α} {targets : List (α × α)}
    (h : find floor targets = .ok factor) :
    0 < factor ∧ ∀ target ∈ targets, floor ≤ target.1 + factor * target.2 := by
  have hvisit : ∀ (d : Damping α) target, 0 < d.factor → 0 < (visit floor d target).factor := by
    intro d target hd
    unfold visit
    split
    · exact mul_pos hd (ExactScalar.ofDecimal_pos (by decide) _ _)
    · exact hd
  obtain ⟨d, hd, rfl, hadmits⟩ :=
    of_search hvisit (ExactScalar.ofDecimal_pos (by decide) _ _) h
  exact ⟨hd, fun target htarget => not_lt.1 (hadmits target htarget)⟩

/-- Where the whole increments are admissible they are not damped. -/
theorem find_eq_one [ExactScalar α] {floor : α} {targets : List (α × α)}
    (h : ∀ target ∈ targets, floor ≤ target.1 + target.2) : find floor targets = .ok 1 := by
  have hadmits : Admits floor targets (Scalar.ofDecimal 10 true 1) := by
    intro target htarget
    rw [ExactScalar.ofDecimal_one, one_mul, not_lt]
    exact h target htarget
  exact hadmits.find_eq_ok.trans (congrArg Except.ok ExactScalar.ofDecimal_one)

end CarrierTransport.Newton.Damping
