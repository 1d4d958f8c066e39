import Mathlib
import CarrierTransport.LinearSystem.Envelope

/-!
# Elimination and its tolerance

`factorise` eliminates row after row and stops at the first pivot below the tolerance. The
elimination itself does not look at the tolerance, so it is described on its own, as `eliminated`,
with the pivot it meets in each row. `factorise` is that elimination cut off at the first small
pivot: `factorise_eq_ok`, `factorise_eq_error`. All of this holds over every scalar type, whatever
its arithmetic rounds.

The second half says what the tables of the factors hold after one more row.
-/

namespace CarrierTransport.LinearSystem

/-! ### Elimination and the tolerance -/

section Elimination

variable {α : Type} [Scalar α]

/-- The factors with one more row. -/
def Factors.extend (F : Factors α) (done : PartialRow α) : Factors α :=
  ⟨F.pivots.push done.pivot, F.lower.push done.lower, F.upper.push done.upper⟩

/-- The factors of the first rows, whatever their pivots are. -/
def eliminated (env : Envelope) (A : Nat → Nat → α) : Nat → Factors α
  | 0 => .empty
  | row + 1 => (eliminated env A row).extend (eliminateRow env A (eliminated env A row) row)

/-- The pivot that the elimination meets in a row. -/
def pivotMet (env : Envelope) (A : Nat → Nat → α) (row : Nat) : α :=
  (eliminateRow env A (eliminated env A row) row).pivot

variable {env : Envelope} {A : Nat → Nat → α} {tolerance : α}

theorem factorRow_eliminated (row : Nat) :
    factorRow env A tolerance (eliminated env A row) row =
      if Scalar.abs (pivotMet env A row) < tolerance then
        .error ⟨row, Scalar.abs (pivotMet env A row)⟩
      else .ok (eliminated env A (row + 1)) :=
  rfl

/-- As long as no pivot is small, factoring is elimination. -/
theorem foldlM_factorRow_of_forall {rows : Nat}
    (h : ∀ row < rows, ¬ Scalar.abs (pivotMet env A row) < tolerance) :
    (List.range rows).foldlM (factorRow env A tolerance) Factors.empty =
      .ok (eliminated env A rows) := by
  induction rows with
  | zero => rfl
  | succ rows ih =>
    rw [List.range_succ, List.foldlM_append, ih fun row hrow => h row (by omega)]
    show ([rows].foldlM (factorRow env A tolerance) (eliminated env A rows)) = _
    rw [List.foldlM_cons, factorRow_eliminated, if_neg (h rows (by omega))]
    rfl

/-- The first small pivot ends the factorisation. -/
theorem foldlM_factorRow_of_small {rows row : Nat} (hrow : row < rows)
    (hsmall : Scalar.abs (pivotMet env A row) < tolerance)
    (h : ∀ i < row, ¬ Scalar.abs (pivotMet env A i) < tolerance) :
    (List.range rows).foldlM (factorRow env A tolerance) Factors.empty =
      .error ⟨row, Scalar.abs (pivotMet env A row)⟩ := by
  induction rows with
  | zero => omega
  | succ rows ih =>
    rw [List.range_succ, List.foldlM_append]
    rcases Nat.lt_or_eq_of_le (Nat.lt_succ_iff.1 hrow) with hlt | rfl
    · rw [ih hlt]
      rfl
    · rw [foldlM_factorRow_of_forall h]
      show ([row].foldlM (factorRow env A tolerance) (eliminated env A row)) = _
      rw [List.foldlM_cons, factorRow_eliminated, if_pos hsmall]
      rfl

theorem factorise_eq_ok
    (h : ∀ row < env.size, ¬ Scalar.abs (pivotMet env A row) < tolerance) :
    factorise env A tolerance = .ok (eliminated env A env.size) :=
  foldlM_factorRow_of_forall h

theorem factorise_eq_error {row : Nat} (hrow : row < env.size)
    (hsmall : Scalar.abs (pivotMet env A row) < tolerance)
    (h : ∀ i < row, ¬ Scalar.abs (pivotMet env A i) < tolerance) :
    factorise env A tolerance = .error ⟨row, Scalar.abs (pivotMet env A row)⟩ :=
  foldlM_factorRow_of_small hrow hsmall h

theorem not_small_of_factorise_eq_ok {F : Factors α} (h : factorise env A tolerance = .ok F) :
    ∀ row < env.size, ¬ Scalar.abs (pivotMet env A row) < tolerance := by
  intro row
  induction row using Nat.strong_induction_on with
  | _ row ih =>
    intro hrow hsmall
    rw [factorise_eq_error hrow hsmall fun i hi => ih i hi (by omega)] at h
    cases h

end Elimination

/-! ### Entries of the envelope -/

section Entries

variable {α : Type} [Scalar α] {env : Envelope}

namespace Envelope

/-- The entry of a column among values that fill the envelope of a row from its first column on;
zero outside of the envelope. -/
def entry (env : Envelope) (values : Array α) (row column : Nat) : α :=
  match env.slot? row column with
  | some slot => values.getD slot 0
  | none => 0

theorem entry_eq_ite (values : Array α) (row column : Nat) :
    env.entry values row column =
      if env.start row ≤ column ∧ column < row then values.getD (column - env.start row) 0
      else 0 := by
  unfold entry slot?
  split_ifs <;> rfl

theorem entry_of_lt_start {values : Array α} {row column : Nat} (h : column < env.start row) :
    env.entry values row column = 0 := by
  rw [entry_eq_ite, if_neg (by omega)]

theorem entry_of_le {values : Array α} {row column : Nat} (h : row ≤ column) :
    env.entry values row column = 0 := by
  rw [entry_eq_ite, if_neg (by omega)]

theorem entry_push {values : Array α} {row column : Nat} (hstart : env.start row ≤ column)
    (hrow : column < row) (hsize : values.size = column - env.start row) (value : α) (k : Nat) :
    env.entry (values.push value) row k = if k = column then value else env.entry values row k := by
  rw [entry_eq_ite, entry_eq_ite]
  by_cases hk : env.start row ≤ k ∧ k < row
  · rw [if_pos hk, if_pos hk, Array.getD_eq_getD_getElem?, Array.getD_eq_getD_getElem?,
      Array.getElem?_push, hsize]
    by_cases hkc : k = column
    · simp [hkc]
    · rw [if_neg (by omega), if_neg hkc]
  · rw [if_neg hk, if_neg hk, if_neg (by omega)]

end Envelope

namespace Factors

theorem lowerAt_eq_entry (F : Factors α) (i j : Nat) :
    F.lowerAt env i j = env.entry (F.lower.getD i #[]) i j :=
  rfl

theorem upperAt_eq_entry (F : Factors α) (j i : Nat) :
    F.upperAt env j i = env.entry (F.upper.getD i #[]) i j :=
  rfl

theorem lowerAt_of_le (F : Factors α) {i j : Nat} (h : i ≤ j) : F.lowerAt env i j = 0 :=
  env.entry_of_le h

theorem upperAt_of_le (F : Factors α) {j i : Nat} (h : i ≤ j) : F.upperAt env j i = 0 :=
  env.entry_of_le h

/-- The tables of factors have one row for each eliminated row. -/
structure HasRows (F : Factors α) (rows : Nat) : Prop where
  pivots : F.pivots.size = rows
  lower : F.lower.size = rows
  upper : F.upper.size = rows

section Extend

variable {F : Factors α} {rows : Nat} (hF : F.HasRows rows) (done : PartialRow α)

include hF

omit [Scalar α] in
theorem HasRows.extend : (F.extend done).HasRows (rows + 1) where
  pivots := by simp [Factors.extend, hF.pivots]
  lower := by simp [Factors.extend, hF.lower]
  upper := by simp [Factors.extend, hF.upper]

theorem pivotAt_extend (i : Nat) :
    (F.extend done).pivotAt i = if i = rows then done.pivot else F.pivotAt i := by
  simp only [pivotAt, Factors.extend, Array.getD_eq_getD_getElem?, Array.getElem?_push, hF.pivots]
  split_ifs <;> rfl

theorem lowerAt_extend (i j : Nat) :
    (F.extend done).lowerAt env i j =
      if i = rows then env.entry done.lower rows j else F.lowerAt env i j := by
  simp only [lowerAt_eq_entry, Factors.extend, Array.getD_eq_getD_getElem?, Array.getElem?_push,
    hF.lower]
  by_cases h : i = rows
  · simp [h]
  · simp [h]

theorem upperAt_extend (j i : Nat) :
    (F.extend done).upperAt env j i =
      if i = rows then env.entry done.upper rows j else F.upperAt env j i := by
  simp only [upperAt_eq_entry, Factors.extend, Array.getD_eq_getD_getElem?, Array.getElem?_push,
    hF.upper]
  by_cases h : i = rows
  · simp [h]
  · simp [h]

end Extend

end Factors

theorem hasRows_eliminated (env : Envelope) (A : Nat → Nat → α) (rows : Nat) :
    (eliminated env A rows).HasRows rows := by
  induction rows with
  | zero => exact ⟨rfl, rfl, rfl⟩
  | succ rows ih => exact ih.extend _

end Entries

end CarrierTransport.LinearSystem
