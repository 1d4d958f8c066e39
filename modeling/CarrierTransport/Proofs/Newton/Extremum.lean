import Mathlib
import CarrierTransport.Newton.Extremum
import CarrierTransport.Proofs.Scalar.Comparison

/-!
# What an extremum says of the values offered to it

A value is kept if a comparison of magnitudes is true, and a comparison with what is not a number
never is: such a value passes by unseen. Of all others the extremum is a bound (`Extremum.Of`), so
its magnitude is below a tolerance exactly if the tolerance is positive and every offered number is
below it (`Extremum.Of.magnitude_lt_iff`). Nothing is said of offered values that are not numbers.
-/

namespace CarrierTransport.Newton.Extremum

open IeeeScalar

variable {α : Type} [IeeeScalar α] {e : Extremum α} {S : Set α}

/-- The extremum of the values of a set: one of its numbers or zero, and not below any of them. -/
structure Of (e : Extremum α) (S : Set α) : Prop where
  mem : e.value = 0 ∨ e.value ∈ S ∧ IsNumber e.value
  not_lt : ∀ v ∈ S, ¬ e.magnitude < Scalar.abs v

theorem Of.of_eq {S' : Set α} (h : e.Of S) (hS : S' = S) : e.Of S' := by
  rwa [hS]

theorem of_none : (none : Extremum α).Of ∅ :=
  ⟨Or.inl rfl, fun _ hv => absurd hv (Set.notMem_empty _)⟩

/-- What is less or equal to a magnitude, or less, has a number on the other side. -/
theorem isNumber_of_le_abs {a v : α} (h : a ≤ Scalar.abs v) : IsNumber v := by
  obtain ⟨-, -, y, hy, -⟩ := (le_iff_rankOf _ _).1 h
  exact (isNumber_abs v).1 ((isNumber_iff_rankOf _).2 ⟨y, hy⟩)

/-- A value at least as large in magnitude takes the place of the extremum. -/
theorem Of.replace (h : e.Of S) {v : α} (hle : e.magnitude ≤ Scalar.abs v) (node : Nat) :
    (⟨some node, v⟩ : Extremum α).Of (insert v S) where
  mem := Or.inr ⟨Set.mem_insert v S, isNumber_of_le_abs hle⟩
  not_lt := by
    intro w hw hlt
    rcases Set.mem_insert_iff.1 hw with rfl | hw
    · exact not_lt_self _ hlt
    · exact h.not_lt w hw (lt_of_le_of_lt hle hlt)

/-- A value that is not larger in magnitude, or not a number, leaves the extremum alone. -/
theorem Of.keep (h : e.Of S) {v : α} (hlt : ¬ e.magnitude < Scalar.abs v) : e.Of (insert v S) where
  mem := h.mem.imp_right fun ⟨hmem, hnumber⟩ => ⟨Set.mem_insert_of_mem v hmem, hnumber⟩
  not_lt := by
    intro w hw
    rcases Set.mem_insert_iff.1 hw with rfl | hw
    · exact hlt
    · exact h.not_lt w hw

theorem Of.offer (h : e.Of S) (node : Nat) (v : α) : (e.offer node v).Of (insert v S) := by
  rw [Extremum.offer]
  split_ifs with hlt
  · exact h.replace (le_of_lt hlt) node
  · exact h.keep hlt

theorem Of.offerInclusive (h : e.Of S) (node : Nat) (v : α) :
    (e.offerInclusive node v).Of (insert v S) := by
  rw [Extremum.offerInclusive]
  split_ifs with hle
  · exact h.replace hle node
  · exact h.keep fun hlt => hle (le_of_lt hlt)

/-- **An extremum is below a tolerance if and only if every offered number is.** -/
theorem Of.magnitude_lt_iff (h : e.Of S) {tolerance : α} :
    e.magnitude < tolerance ↔
      0 < tolerance ∧ ∀ v ∈ S, IsNumber v → Scalar.abs v < tolerance := by
  constructor
  · intro hlt
    refine ⟨?_, fun v hv hnumber => ?_⟩
    · by_contra hpos
      exact not_abs_lt e.value hpos hlt
    · exact lt_of_not_lt_of_lt ((isNumber_abs v).2 hnumber) (h.not_lt v hv) hlt
  · rintro ⟨hpos, hall⟩
    rcases h.mem with hzero | ⟨hmem, hnumber⟩
    · rw [magnitude, hzero]
      exact abs_lt_of_beq_zero zero_beq_zero hpos
    · exact hall e.value hmem hnumber

/-! ### Values that may not be formed -/

/-- The values that are formed of some items. -/
def formed {ι : Type} (f : ι → Option α) (items : List ι) : Set α :=
  {v | ∃ i ∈ items, f i = some v}

section Formed

variable {ι : Type} {f : ι → Option α} {done : List ι} {i : ι} {v : α}

omit [IeeeScalar α] in
@[simp] theorem formed_nil (f : ι → Option α) : formed f [] = ∅ := by
  simp [formed]

omit [IeeeScalar α] in
theorem formed_append_of_some (h : f i = some v) :
    formed f (done ++ [i]) = insert v (formed f done) := by
  ext w
  simp [formed, or_and_right, exists_or, h, or_comm, eq_comm]

omit [IeeeScalar α] in
theorem formed_append_of_none (h : f i = Option.none) :
    formed f (done ++ [i]) = formed f done := by
  ext w
  simp [formed, or_and_right, exists_or, h]

/-- A formed value is offered, and what is not formed changes nothing. -/
theorem Of.offer_formed (h : e.Of (formed f done)) {v? : Option α} (hf : f i = v?) (node : Nat) :
    (match v? with
      | some v => e.offer node v
      | .none => e).Of (formed f (done ++ [i])) := by
  cases v? with
  | none => exact h.of_eq (formed_append_of_none hf)
  | some v => exact (h.offer node v).of_eq (formed_append_of_some hf)

theorem Of.offerInclusive_formed (h : e.Of (formed f done)) {v? : Option α} (hf : f i = v?)
    (node : Nat) :
    (match v? with
      | some v => e.offerInclusive node v
      | .none => e).Of (formed f (done ++ [i])) := by
  cases v? with
  | none => exact h.of_eq (formed_append_of_none hf)
  | some v => exact (h.offerInclusive node v).of_eq (formed_append_of_some hf)

end Formed

end CarrierTransport.Newton.Extremum
