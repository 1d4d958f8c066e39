import Mathlib
import CarrierTransport.Proofs.Newton.FixedPoint
import CarrierTransport.Proofs.Newton.Phases
import CarrierTransport.Proofs.Scalar.Exact

/-!
# Extrema are maxima

Over an exact scalar type all values can be compared, and an extremum is the value of largest
magnitude that was offered, with its node: of several the first, if it has to be beaten strictly, or
the last, if it can be matched (`Extremum.Maxima`). A value of zero beats nothing strictly, so with
the first rule an extremum of zeros is as if nothing had been offered.

Both iterations report extrema of what they offer node by node, the equilibrium iteration with the
first rule, the two-carrier iteration with the first rule for residuals and the last for increments.
So their flags say of every offered value that it is below the tolerance
(`extrema_decide_convergence`).
-/

namespace CarrierTransport.Newton

open LinearSystem (BlockMatrix MatrixError)
open LinearSystem.BlockMatrix (blockRhs_eq_ok blockSolution_eq_ok)
open Physics (MaterialModel)
open State (NodeField PerUnknown Unknown)
open Transition
open TwoCarrier (siliconBar evenField)

/-! ### Values that are offered -/

/-- A value that is offered to an extremum, and its node. -/
structure Offer (α : Type) where
  node : Nat
  value : α
deriving Repr

/-- Which of two values of the same magnitude an extremum keeps. -/
inductive Tie where
  | first
  | last
deriving DecidableEq, Repr

namespace Extremum

section Offers

variable {α : Type} [Scalar α]

/-- The extremum that sits on an offered value. -/
def ofOffer (o : Offer α) : Extremum α :=
  ⟨some o.node, o.value⟩

/-- The extremum after one more value. -/
def take : Tie → Extremum α → Offer α → Extremum α
  | .first, e, o => e.offer o.node o.value
  | .last, e, o => e.offerInclusive o.node o.value

/-- The extremum of some values that are offered one after the other. -/
def ofOffers (tie : Tie) (offers : List (Offer α)) : Extremum α :=
  offers.foldl (take tie) none

/-- One more item, which may have nothing to offer. -/
theorem ofOffers_filterMap_append {ι : Type} (tie : Tie) (f : ι → Option (Offer α))
    (done : List ι) (i : ι) :
    ofOffers tie ((done ++ [i]).filterMap f) =
      match f i with
      | some o => take tie (ofOffers tie (done.filterMap f)) o
      | .none => ofOffers tie (done.filterMap f) := by
  rw [ofOffers, List.filterMap_append, List.foldl_append]
  cases h : f i with
  | some o =>
    rw [List.filterMap_cons_some h]
    rfl
  | none =>
    rw [List.filterMap_cons_none h]
    rfl

end Offers

/-! ### The largest of them -/

section Largest

variable {α : Type} [ExactScalar α] {tie : Tie} {offers : List (Offer α)} {o : Offer α}

/-- A value takes the place of another. -/
def Beats : Tie → α → α → Prop
  | .first, a, b => |b| < |a|
  | .last, a, b => |b| ≤ |a|

theorem Beats.trans {a b c : α} (h : Beats tie a b) (h' : Beats tie b c) : Beats tie a c := by
  cases tie with
  | first => exact lt_trans h' h
  | last => exact le_trans h' h

theorem Beats.of_not {a b c : α} (h : Beats tie a b) (h' : ¬ Beats tie c b) : Beats tie a c := by
  cases tie with
  | first => exact lt_of_le_of_lt (not_lt.1 h') h
  | last => exact le_trans (not_le.1 h').le h

theorem Beats.abs_le {a b : α} (h : Beats tie a b) : |b| ≤ |a| := by
  cases tie with
  | first => exact le_of_lt h
  | last => exact h

theorem abs_le_of_not_beats {a b : α} (h : ¬ Beats tie b a) : |b| ≤ |a| := by
  cases tie with
  | first => exact not_lt.1 h
  | last => exact (not_le.1 h).le

theorem magnitude_eq_abs (e : Extremum α) : e.magnitude = |e.value| :=
  ExactScalar.abs_eq_abs e.value

theorem take_of_beats {e : Extremum α} (h : Beats tie o.value e.value) :
    take tie e o = ofOffer o := by
  cases tie with
  | first =>
    apply if_pos
    rw [magnitude_eq_abs, ExactScalar.abs_eq_abs]
    exact h
  | last =>
    apply if_pos
    rw [magnitude_eq_abs, ExactScalar.abs_eq_abs]
    exact h

theorem take_of_not_beats {e : Extremum α} (h : ¬ Beats tie o.value e.value) :
    take tie e o = e := by
  cases tie with
  | first =>
    apply if_neg
    rw [magnitude_eq_abs, ExactScalar.abs_eq_abs]
    exact h
  | last =>
    apply if_neg
    rw [magnitude_eq_abs, ExactScalar.abs_eq_abs]
    exact h

/-- This value beats all that were offered before it and is beaten by none behind it. -/
def IsLargest (tie : Tie) (offers : List (Offer α)) (o : Offer α) : Prop :=
  ∃ before after, offers = before ++ o :: after ∧
    (∀ b ∈ before, Beats tie o.value b.value) ∧ ∀ a ∈ after, ¬ Beats tie a.value o.value

theorem IsLargest.mem (h : IsLargest tie offers o) : o ∈ offers := by
  obtain ⟨before, after, rfl, -⟩ := h
  exact List.mem_append_right before List.mem_cons_self

theorem IsLargest.abs_le (h : IsLargest tie offers o) :
    ∀ b ∈ offers, |b.value| ≤ |o.value| := by
  obtain ⟨before, after, rfl, hbefore, hafter⟩ := h
  intro b hb
  rcases List.mem_append.1 hb with hb | hb
  · exact (hbefore b hb).abs_le
  · rcases List.mem_cons.1 hb with rfl | hb
    · exact le_rfl
    · exact abs_le_of_not_beats (hafter b hb)

theorem isLargest_append_self (h : ∀ b ∈ offers, Beats tie o.value b.value) :
    IsLargest tie (offers ++ [o]) o :=
  ⟨offers, [], rfl, h, by simp⟩

theorem IsLargest.append (h : IsLargest tie offers o) {a : Offer α}
    (ha : ¬ Beats tie a.value o.value) : IsLargest tie (offers ++ [a]) o := by
  obtain ⟨before, after, rfl, hbefore, hafter⟩ := h
  refine ⟨before, after ++ [a], by simp, hbefore, ?_⟩
  intro b hb
  rcases List.mem_append.1 hb with hb | hb
  · exact hafter b hb
  · rwa [List.mem_singleton.1 hb]

theorem IsLargest.beats (h : IsLargest tie offers o) {a : Offer α}
    (ha : Beats tie a.value o.value) : ∀ b ∈ offers, Beats tie a.value b.value := by
  obtain ⟨before, after, rfl, hbefore, hafter⟩ := h
  intro b hb
  rcases List.mem_append.1 hb with hb | hb
  · exact ha.trans (hbefore b hb)
  · rcases List.mem_cons.1 hb with rfl | hb
    · exact ha
    · exact ha.of_not (hafter b hb)

/-- **The extremum is the largest value that was offered**, if that beats zero, and otherwise there
is none. -/
theorem ofOffers_cases (tie : Tie) (offers : List (Offer α)) :
    (∀ o ∈ offers, ¬ Beats tie o.value 0) ∧ ofOffers tie offers = none ∨
      ∃ o, IsLargest tie offers o ∧ Beats tie o.value 0 ∧ ofOffers tie offers = ofOffer o := by
  -- as long as nothing has beaten zero the next value is up against zero, then against the largest
  refine Loop.foldl_invariant (fun done (e : Extremum α) =>
    (∀ o ∈ done, ¬ Beats tie o.value 0) ∧ e = none ∨
      ∃ o, IsLargest tie done o ∧ Beats tie o.value 0 ∧ e = ofOffer o) ?_ ?_
  · exact .inl ⟨by simp, rfl⟩
  · rintro done a e (⟨hnone, rfl⟩ | ⟨o, hlargest, hzero, rfl⟩)
    · by_cases ha : Beats tie a.value 0
      · refine .inr ⟨a, isLargest_append_self fun b hb => ha.of_not (hnone b hb), ha, ?_⟩
        exact take_of_beats ha
      · refine .inl ⟨?_, take_of_not_beats ha⟩
        intro b hb
        rcases List.mem_append.1 hb with hb | hb
        · exact hnone b hb
        · rwa [List.mem_singleton.1 hb]
    · by_cases ha : Beats tie a.value o.value
      · refine .inr ⟨a, isLargest_append_self (hlargest.beats ha), ha.trans hzero, ?_⟩
        exact take_of_beats ha
      · exact .inr ⟨o, hlargest.append ha, hzero, take_of_not_beats ha⟩

theorem magnitude_none : (none : Extremum α).magnitude = 0 := by
  rw [magnitude_eq_abs, none, abs_zero]

/-- The largest magnitude of the offered values, zero if there is none. -/
def largestMagnitude (offers : List (Offer α)) : α :=
  (offers.map fun o => |o.value|).max?.getD 0

theorem IsLargest.largestMagnitude_eq (h : IsLargest tie offers o) :
    largestMagnitude offers = |o.value| := by
  have hmax : (offers.map fun o => |o.value|).max? = some |o.value| := by
    rw [List.max?_eq_some_iff]
    refine ⟨List.mem_map_of_mem h.mem, ?_⟩
    intro a ha
    obtain ⟨b, hb, rfl⟩ := List.mem_map.1 ha
    exact h.abs_le b hb
  rw [largestMagnitude, hmax, Option.getD_some]

theorem largestMagnitude_eq_zero (h : ∀ o ∈ offers, ¬ Beats tie o.value 0) :
    largestMagnitude offers = 0 := by
  cases hmax : (offers.map fun o => |o.value|).max? with
  | none => rw [largestMagnitude, hmax, Option.getD_none]
  | some a =>
    rw [List.max?_eq_some_iff] at hmax
    obtain ⟨o, ho, rfl⟩ := List.mem_map.1 hmax.1
    rw [largestMagnitude, List.max?_eq_some_iff.2 hmax, Option.getD_some]
    have hle := abs_le_of_not_beats (h o ho)
    rw [abs_zero] at hle
    exact le_antisymm hle (abs_nonneg o.value)

theorem magnitude_ofOffers (tie : Tie) (offers : List (Offer α)) :
    (ofOffers tie offers).magnitude = largestMagnitude offers := by
  rcases ofOffers_cases tie offers with ⟨hnone, h⟩ | ⟨o, hlargest, -, h⟩
  · rw [h, magnitude_none, largestMagnitude_eq_zero hnone]
  · rw [h, magnitude_eq_abs, hlargest.largestMagnitude_eq]
    rfl

/-- The extremum is below a positive tolerance if and only if all offered values are. -/
theorem magnitude_ofOffers_lt_iff (tie : Tie) (offers : List (Offer α)) {tolerance : α}
    (htolerance : 0 < tolerance) :
    (ofOffers tie offers).magnitude < tolerance ↔ ∀ o ∈ offers, |o.value| < tolerance := by
  rcases ofOffers_cases tie offers with ⟨hnone, h⟩ | ⟨o, hlargest, -, h⟩
  · rw [h, magnitude_none]
    refine iff_of_true htolerance ?_
    intro o ho
    have hle := abs_le_of_not_beats (hnone o ho)
    rw [abs_zero] at hle
    exact lt_of_le_of_lt hle htolerance
  · rw [h, magnitude_eq_abs]
    constructor
    · intro hlt b hb
      exact lt_of_le_of_lt (hlargest.abs_le b hb) hlt
    · intro hall
      exact hall o hlargest.mem

/-! ### Both rules -/

/-- What the extrema of some offered values are, by either rule. -/
structure Maxima (offers : List (Offer α)) : Prop where
  magnitude : ∀ tie, (ofOffers tie offers).magnitude = largestMagnitude offers
  first : 0 < largestMagnitude offers →
    ∃ before o after, offers = before ++ o :: after ∧ ofOffers .first offers = ofOffer o ∧
      (∀ b ∈ before, |b.value| < |o.value|) ∧ ∀ a ∈ after, |a.value| ≤ |o.value|
  first_zero : ¬ 0 < largestMagnitude offers → ofOffers .first offers = none
  last : offers ≠ [] →
    ∃ before o after, offers = before ++ o :: after ∧ ofOffers .last offers = ofOffer o ∧
      (∀ b ∈ before, |b.value| ≤ |o.value|) ∧ ∀ a ∈ after, |a.value| < |o.value|
  last_nil : offers = [] → ofOffers .last offers = none

theorem maxima (offers : List (Offer α)) : Maxima offers := by
  constructor
  case magnitude => exact fun tie => magnitude_ofOffers tie offers
  case first =>
    intro hpos
    rcases ofOffers_cases .first offers with ⟨hnone, -⟩ | ⟨o, hlargest, -, h⟩
    · exact absurd (largestMagnitude_eq_zero hnone) hpos.ne'
    · obtain ⟨before, after, hoffers, hbefore, hafter⟩ := hlargest
      exact ⟨before, o, after, hoffers, h, hbefore, fun a ha => not_lt.1 (hafter a ha)⟩
  case first_zero =>
    intro hzero
    rcases ofOffers_cases .first offers with ⟨-, h⟩ | ⟨o, hlargest, hbeats, -⟩
    · exact h
    · rw [hlargest.largestMagnitude_eq] at hzero
      exact absurd (lt_of_le_of_lt (abs_nonneg 0) hbeats) hzero
  case last =>
    intro hne
    rcases ofOffers_cases .last offers with ⟨hnone, -⟩ | ⟨o, hlargest, -, h⟩
    · -- with this rule every value beats zero
      obtain ⟨o, ho⟩ := List.exists_mem_of_ne_nil offers hne
      refine absurd ?_ (hnone o ho)
      rw [Beats, abs_zero]
      exact abs_nonneg o.value
    · obtain ⟨before, after, hoffers, hbefore, hafter⟩ := hlargest
      exact ⟨before, o, after, hoffers, h, hbefore, fun a ha => not_le.1 (hafter a ha)⟩
  case last_nil =>
    rintro rfl
    rfl

end Largest

end Extremum

open Extremum (Maxima ofOffer ofOffers ofOffers_filterMap_append magnitude_ofOffers_lt_iff)

/-! ### Residuals -/

/-- The residuals of which a report keeps the extrema. -/
inductive Residual where
  /-- The right hand side itself. -/
  | rhs
  /-- Relative to the largest coupling term and a fraction of the diagonal. -/
  | coupled
  /-- Relative to the physical scale. -/
  | scaled
deriving DecidableEq, Repr

def ResidualReport.get {α : Type} (report : ResidualReport α) : Residual → Extremum α
  | .rhs => report.rhs
  | .coupled => report.coupled
  | .scaled => report.scaled

namespace Assembly

variable {stride : Nat} {α : Type} [Scalar α]

/-- A residual of an unknown, where there is something to compare with. -/
def residual (a : Assembly stride α) (relative : α → α → α) (r : Residual) (node sub : Nat) :
    Option α :=
  let rhs := a.matrix.rhs.getD (a.matrix.layout.offset node + sub) 0
  match r with
  | .rhs => some rhs
  | .coupled => a.relativeResidual node sub
  | .scaled => if a.scale node sub == 0 then none else some (relative rhs (a.scale node sub))

theorem get_check {a : Assembly stride α} {relative : α → α → α} {node sub : Nat}
    {report report' : ResidualReport α} (h : a.check relative node sub report = .ok report')
    (r : Residual) :
    report'.get r = match a.residual relative r node sub with
      | some v => (report.get r).offer node v
      | none => report.get r := by
  cases r with
  | coupled => exact check_coupled h
  | rhs =>
    obtain ⟨rhs, hrhs, h⟩ := Transition.except_bind_eq_ok.1 h
    obtain ⟨diagonal, -, h⟩ := Transition.except_bind_eq_ok.1 h
    obtain ⟨-, rfl⟩ := blockRhs_eq_ok.1 hrhs
    cases h
    rfl
  | scaled =>
    obtain ⟨rhs, hrhs, h⟩ := Transition.except_bind_eq_ok.1 h
    obtain ⟨diagonal, -, h⟩ := Transition.except_bind_eq_ok.1 h
    obtain ⟨-, rfl⟩ := blockRhs_eq_ok.1 hrhs
    cases h
    simp only [residual, ResidualReport.get]
    split_ifs <;> rfl

end Assembly

/-! ### What the equilibrium iteration offers -/

namespace Poisson

variable {M α : Type}

section Offered

variable [Scalar α]

/-- The relative increments of an update, one for every node. -/
def offeredIncrements (before after : PoissonState α) : List (Offer α) :=
  (List.range after.field.nodeCount).map fun node => ⟨node, relativeIncrement before after node⟩

/-- The residuals after a setup, of the interior nodes. -/
def offeredResiduals (p : Problem M α) (s : PoissonState α) (r : Residual) : List (Offer α) :=
  (List.range' 1 (p.lastNode - 1)).filterMap fun node =>
    (s.assembly.residual (fun rhs scale => Scalar.abs rhs / scale) r node 0).map (.mk node)

theorem increment_update (p : Problem M α) (s : PoissonState α) :
    (update p s).increment = ofOffers .first (offeredIncrements s (update p s)) := by
  rw [offeredIncrements, ofOffers, List.foldl_map]
  rfl

theorem get_checkResidual {p : Problem M α} {a : Assembly 1 α} {report : ResidualReport α}
    (h : checkResidual p a = .ok report) (r : Residual) :
    report.get r = ofOffers .first ((List.range' 1 (p.lastNode - 1)).filterMap fun node =>
      (a.residual (fun rhs scale => Scalar.abs rhs / scale) r node 0).map (.mk node)) := by
  refine Loop.foldlM_invariant (fun done (report : ResidualReport α) =>
    report.get r = ofOffers .first (done.filterMap fun node =>
      (a.residual (fun rhs scale => Scalar.abs rhs / scale) r node 0).map (.mk node))) ?_ ?_ h
  · cases r <;> rfl
  · intro done node report report' hreport hstep
    rw [ofOffers_filterMap_append, Assembly.get_check hstep, hreport]
    cases a.residual (fun rhs scale => Scalar.abs rhs / scale) r node 0 <;> rfl

end Offered

end Poisson

/-! ### What the two-carrier iteration offers -/

namespace TwoCarrier

variable {M α : Type}

/-- What the items of one unknown offer. -/
def offersTo (f : Nat → Unknown → Option α) (u : Unknown) (items : List (Nat × Unknown)) :
    List (Offer α) :=
  items.filterMap fun i => if i.2 = u then (f i.1 i.2).map (.mk i.1) else none

section Follows

variable [Scalar α] {β : Type} {tie : Tie} {extremum : β → Extremum α}
  {f : Nat → Unknown → Option α}

/-- Each report holds the extremum of what the items of its unknown have offered. -/
def Follows (tie : Tie) (extremum : β → Extremum α) (f : Nat → Unknown → Option α)
    (items : List (Nat × Unknown)) (reports : PerUnknown β) : Prop :=
  ∀ u, extremum (reports.get u) = ofOffers tie (offersTo f u items)

theorem follows_constant {b : β} (hb : extremum b = .none) :
    Follows tie extremum f [] (.constant b) := by
  intro u
  rw [PerUnknown.get_constant, hb]
  rfl

theorem Follows.modify {done : List (Nat × Unknown)} {reports : PerUnknown β} {node : Nat}
    {u : Unknown} {g : β → β} (h : Follows tie extremum f done reports)
    (hu : extremum (g (reports.get u)) = match f node u with
      | some v => Extremum.take tie (extremum (reports.get u)) ⟨node, v⟩
      | none => extremum (reports.get u)) :
    Follows tie extremum f (done ++ [(node, u)]) (reports.modify u g) := by
  intro w
  rw [offersTo, ofOffers_filterMap_append, PerUnknown.get_modify]
  by_cases hw : u = w
  · subst hw
    rw [if_pos rfl, hu, h u, if_pos rfl]
    cases f node u <;> rfl
  · rw [if_neg hw, if_neg hw]
    exact h w

end Follows

section Offered

variable [Scalar α]

/-- The relative increments of an unknown that an update offers to the report of a policy. -/
def offeredIncrements (policy : IncrementPolicy) (before after : TwoCarrierState α) (u : Unknown) :
    List (Offer α) :=
  let m := before.assembly.matrix
  offersTo (fun node w => selectedIncrement policy
      (m.solution.getD (m.layout.offset node + w.sub) 0) (magnitude after.field node w)
      ((maxima after.field (unknowns before.blockSizes)).get w))
    u (unknowns before.blockSizes)

/-- The residuals of an unknown after a setup. -/
def offeredResiduals (s : TwoCarrierState α) (r : Residual) (u : Unknown) : List (Offer α) :=
  offersTo (fun node w => s.assembly.residual (fun rhs scale => rhs / scale) r node w.sub)
    u (unknowns s.blockSizes)

theorem follows_incrementReports {m : BlockMatrix α} {field : NodeField α}
    {items : List (Nat × Unknown)} {reports : PerUnknown (IncrementReport α)}
    (policy : IncrementPolicy) (h : incrementReports m field items = .ok reports) :
    Follows .last (fun report : IncrementReport α => report.selected policy)
      (fun node u => selectedIncrement policy
        (m.solution.getD (m.layout.offset node + u.sub) 0) (magnitude field node u)
        ((maxima field items).get u)) items reports := by
  refine Loop.foldlM_invariant (Follows .last _ _)
    (follows_constant (by cases policy <;> rfl)) ?_ h
  rintro done ⟨node, u⟩ reports reports' hreports hstep
  obtain ⟨increment, hincrement, hstep⟩ := Transition.except_bind_eq_ok.1 hstep
  obtain ⟨-, rfl⟩ := blockSolution_eq_ok.1 hincrement
  cases hstep
  exact hreports.modify (selected_reportIncrement policy _ _ _ _ _)

theorem follows_checkResidual {sizes : Array Nat} {a : Assembly semiconductorBlock α}
    {reports : PerUnknown (ResidualReport α)} (h : checkResidual sizes a = .ok reports)
    (r : Residual) :
    Follows .first (fun report : ResidualReport α => report.get r)
      (fun node u => a.residual (fun rhs scale => rhs / scale) r node u.sub) (unknowns sizes)
      reports := by
  refine Loop.foldlM_invariant (Follows .first _ _)
    (follows_constant (by cases r <;> rfl)) ?_ h
  rintro done ⟨node, u⟩ reports reports' hreports hstep
  obtain ⟨report, hreport, hstep⟩ := Transition.except_bind_eq_ok.1 hstep
  cases hstep
  exact hreports.modify (Assembly.get_check hreport r)

end Offered

end TwoCarrier

/-! ### Flags -/

section Flags

variable {M α : Type} [ExactScalar α] {tie : Tie}

namespace Poisson

/-- What an equilibrium update reports of the increments it offers. -/
structure ReportsIncrements (p : Problem M α) (before after : PoissonState α) : Prop where
  extremum : after.increment = ofOffers .first (offeredIncrements before after)
  converged_iff : 0 < p.settings.incrementTolerance →
    (after.incrementConverged = true ↔
      ∀ o ∈ offeredIncrements before after, |o.value| < p.settings.incrementTolerance)

/-- What an equilibrium setup reports of the residuals it offers. -/
structure ReportsResiduals (p : Problem M α) (s : PoissonState α) : Prop where
  extremum : ∀ r, s.residuals.get r = ofOffers .first (offeredResiduals p s r)
  converged_iff : 0 < p.settings.residualTolerance →
    (s.residualConverged = true ↔
      ∀ o ∈ offeredResiduals p s .coupled, |o.value| < p.settings.residualTolerance)

theorem reportsIncrements_update (p : Problem M α) (s : PoissonState α) :
    ReportsIncrements p s (update p s) := by
  have hincrement := increment_update p s
  refine ⟨hincrement, fun htolerance => ?_⟩
  rw [← magnitude_ofOffers_lt_iff .first _ htolerance, ← hincrement]
  exact decide_eq_true_iff

theorem reportsResiduals_setup [MaterialModel M α] [BEq M] {p : Problem M α} {s t : PoissonState α}
    (h : setup p s = .ok () t) : ReportsResiduals p t := by
  rw [setup_eq] at h
  split at h
  · cases h
  · split at h
    · cases h
    · next report hreport =>
      cases h
      have hget := get_checkResidual hreport
      refine ⟨hget, fun htolerance => ?_⟩
      rw [← magnitude_ofOffers_lt_iff .first _ htolerance, offeredResiduals, ← hget .coupled]
      exact decide_eq_true_iff

end Poisson

namespace TwoCarrier

/-- What a two-carrier update reports of the increments it offers, by every policy. -/
structure ReportsIncrements (p : Problem M α) (before after : TwoCarrierState α) : Prop where
  extremum : ∀ u policy, (after.increments.get u).selected policy =
    ofOffers .last (offeredIncrements policy before after u)
  converged_iff : 0 < p.settings.incrementTolerance →
    (after.incrementConverged = true ↔
      ∀ u, ∀ o ∈ offeredIncrements p.settings.incrementPolicy before after u,
        |o.value| < p.settings.incrementTolerance)

/-- What a two-carrier setup reports of the residuals it offers. -/
structure ReportsResiduals (p : Problem M α) (s : TwoCarrierState α) : Prop where
  extremum : ∀ u r, (s.residuals.get u).get r = ofOffers .first (offeredResiduals s r u)
  converged_iff : 0 < p.settings.residualTolerance →
    (s.residualConverged = true ↔
      ∀ u, ∀ o ∈ offeredResiduals s .coupled u, |o.value| < p.settings.residualTolerance)

/-- All extrema are below a positive tolerance if and only if all that was offered is. -/
theorem Follows.all_lt_iff {β : Type} {extremum : β → Extremum α} {f : Nat → Unknown → Option α}
    {items : List (Nat × Unknown)} {reports : PerUnknown β} {tolerance : α}
    (h : Follows tie extremum f items reports) (htolerance : 0 < tolerance) :
    (reports.toList.all fun report => decide ((extremum report).magnitude < tolerance)) = true ↔
      ∀ u, ∀ o ∈ offersTo f u items, |o.value| < tolerance := by
  rw [PerUnknown.all_toList]
  refine forall_congr' fun u => ?_
  rw [decide_eq_true_iff, h u, magnitude_ofOffers_lt_iff tie _ htolerance]

theorem reportsIncrements_updateInPlace {p : Problem M α} {s t : TwoCarrierState α}
    (h : updateInPlace p.settings s = .ok () t) : ReportsIncrements p s t := by
  obtain ⟨field, reports, -, -, hreports, ht⟩ := update_eq_ok.1 (update_of_updateInPlace h)
  have hfollows := fun policy => follows_incrementReports policy hreports
  rw [ht]
  constructor
  · exact fun u policy => hfollows policy u
  · exact fun htolerance => (hfollows p.settings.incrementPolicy).all_lt_iff htolerance

theorem reportsResiduals_setup [MaterialModel M α] [BEq M] {p : Problem M α}
    {s t : TwoCarrierState α} (h : setup p s = .ok () t) : ReportsResiduals p t := by
  rw [setup_eq] at h
  split at h
  · cases h
  · split at h
    · cases h
    · next reports hreports =>
      cases h
      have hfollows := follows_checkResidual hreports
      constructor
      · exact fun u r => hfollows r u
      · exact fun htolerance => (hfollows .coupled).all_lt_iff htolerance

end TwoCarrier

variable [MaterialModel M α] [BEq M]

/-- **Extrema are maxima, and convergence is a statement about every offered value.** The extremum
of a list of offered values is the first of the largest, or the last, as its rule says. Updates and
setups of both iterations report such extrema, and with a positive tolerance their flags are set if
and only if every value that was offered for an unknown is below it. -/
theorem extrema_decide_convergence (p : Problem M α) :
    (∀ offers : List (Offer α), Maxima offers) ∧
      (∀ s, Poisson.ReportsIncrements p s (Poisson.update p s)) ∧
      (∀ s t, Poisson.setup p s = .ok () t → Poisson.ReportsResiduals p t) ∧
      (∀ s t, TwoCarrier.updateInPlace p.settings s = .ok () t →
        TwoCarrier.ReportsIncrements p s t) ∧
      ∀ s t, TwoCarrier.setup p s = .ok () t → TwoCarrier.ReportsResiduals p t := by
  refine ⟨Extremum.maxima, Poisson.reportsIncrements_update p, ?_, ?_, ?_⟩
  · exact fun s t h => Poisson.reportsResiduals_setup h
  · exact fun s t h => TwoCarrier.reportsIncrements_updateInPlace h
  · exact fun s t h => TwoCarrier.reportsResiduals_setup h

end Flags

/-! ### A charged bar -/

/-- What is reported after a first setup, solve and update, if they succeed. -/
def firstReport {σ β : Type} (start : Except (BuildError ℚ) σ) (step : NewtonStep ℚ σ Unit)
    (report : σ → β) : Option β :=
  match start with
  | .error _ => none
  | .ok s => match (do step.setup; step.solve; step.update : EStateM _ _ Unit) (s, ()) with
    | .error _ _ => none
    | .ok _ t => some (report t.1)

theorem exists_of_firstReport {σ β : Type} {start : Except (BuildError ℚ) σ}
    {step : NewtonStep ℚ σ Unit} {report : σ → β} {b : β}
    (h : firstReport start step report = some b) :
    ∃ s t u v, start = .ok s ∧ step.setup (s, ()) = .ok () (t, ()) ∧
      step.solve (t, ()) = .ok () (u, ()) ∧ step.update (u, ()) = .ok () (v, ()) ∧ report v = b := by
  unfold firstReport at h
  split at h
  · cases h
  · next s =>
    split at h
    · cases h
    · next v hmove =>
      obtain ⟨_, t, hsetup, hmove⟩ := bind_eq_ok.1 hmove
      obtain ⟨_, u, hsolve, hupdate⟩ := bind_eq_ok.1 hmove
      exact ⟨s, t.1, u.1, v.1, rfl, hsetup, hsolve, hupdate, Option.some.inj h⟩

/-- A field of the bar with more electrons than holes, and how its first round converges. -/
def chargedField : { field : NodeField ℚ //
    firstReport (Poisson.start siliconBar field) (Poisson.step siliconBar)
      (fun s => (s.residuals.coupled.node, s.incrementConverged)) = some (some 1, true) ∧
    firstReport (TwoCarrier.start siliconBar field) (TwoCarrier.step siliconBar .silent)
      (fun s => (s.residuals.potential.coupled.node, s.incrementConverged)) =
        some (some 1, false) } :=
  ⟨evenField 2 1, by decide +kernel, by decide +kernel⟩

/-- Three values of which two tie. -/
def tiedOffers : List (Offer ℚ) :=
  [⟨0, 1⟩, ⟨1, -3⟩, ⟨2, 3⟩]

/-- On a charged bar the equilibrium update offers no large increment, the two-carrier update
does. -/
theorem extrema_decide_convergence_siliconBar :
    ((ofOffers .first tiedOffers).node = some 1 ∧ (ofOffers .last tiedOffers).node = some 2 ∧
      Maxima tiedOffers) ∧
    (∃ s t u, Poisson.setup siliconBar s = .ok () t ∧ Poisson.ReportsResiduals siliconBar t ∧
      ∀ o ∈ Poisson.offeredIncrements u (Poisson.update siliconBar u),
        |o.value| < siliconBar.settings.incrementTolerance) ∧
    ∃ s t u v, TwoCarrier.setup siliconBar s = .ok () t ∧
      TwoCarrier.ReportsResiduals siliconBar t ∧
      TwoCarrier.updateInPlace siliconBar.settings u = .ok () v ∧
      ∃ w, ∃ o ∈ TwoCarrier.offeredIncrements siliconBar.settings.incrementPolicy u v w,
        siliconBar.settings.incrementTolerance ≤ |o.value| := by
  obtain ⟨hmaxima, hincrements, hresiduals, hincrements', hresiduals'⟩ :=
    extrema_decide_convergence siliconBar
  have htolerance : 0 < siliconBar.settings.incrementTolerance := by
    change (0 : ℚ) < 1 / 1000
    norm_num
  obtain ⟨hpoisson, htwoCarrier⟩ := chargedField.property
  refine ⟨⟨rfl, rfl, hmaxima tiedOffers⟩, ?_, ?_⟩
  · obtain ⟨s, t, u, v, -, ht, -, hv, hreport⟩ := exists_of_firstReport hpoisson
    have ht := (onFirst_eq_ok.1 ht).1
    cases hv
    exact ⟨s, t, u, ht, hresiduals s t ht,
      ((hincrements u).converged_iff htolerance).1 (Prod.ext_iff.1 hreport).2⟩
  · obtain ⟨s, t, u, v, -, ht, -, hv, hreport⟩ := exists_of_firstReport htwoCarrier
    have ht := (onFirst_eq_ok.1 ht).1
    have hv := (onFirst_eq_ok.1 hv).1
    refine ⟨s, t, u, v, ht, hresiduals' s t ht, hv, ?_⟩
    by_contra! hsmall
    have hconverged := ((hincrements' u v hv).converged_iff htolerance).2 hsmall
    exact Bool.false_ne_true ((Prod.ext_iff.1 hreport).2.symm.trans hconverged)

end CarrierTransport.Newton
