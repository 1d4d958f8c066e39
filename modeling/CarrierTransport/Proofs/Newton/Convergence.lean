import Mathlib
import CarrierTransport.Newton.Poisson
import CarrierTransport.Newton.TwoCarrier
import CarrierTransport.Proofs.Loop
import CarrierTransport.Proofs.Newton.Extremum
import CarrierTransport.Proofs.Newton.Iteration
import CarrierTransport.Proofs.Newton.Update

/-!
# What a reported convergence means

Both iterations report convergence if two flags are set: one by the last update, for the relative
increments, and one by the last setup, for the relative residuals. Each flag is a bound on extrema
of values that were formed one after the other, so it is set if and only if the tolerance is
positive and every formed value that is a number is below it (`Poisson.isConverged_iff`,
`TwoCarrier.isConverged_iff`).

A value that is not a number is not looked at. A run that is reported as converged has all its
increments and residuals below the tolerances exactly if all of them are numbers
(`run_reports_convergence`), which a run that has diverged need not have.
-/

namespace CarrierTransport.Newton

open IeeeScalar
open Extremum (formed formed_append_of_some formed_append_of_none)
open LinearSystem (BlockMatrix Layout MatrixError SolveObserver)
open LinearSystem.BlockMatrix (blockSolution_eq_ok)
open Physics (MaterialModel)
open State (NodeField NodeState PerUnknown Unknown)

/-! ### Values below a tolerance -/

section Tolerance

variable {α : Type} [IeeeScalar α]

/-- Every value is a number below a tolerance. -/
def AllBelow (tolerance : α) (values : Set α) : Prop :=
  ∀ v ∈ values, IsNumber v ∧ Scalar.abs v < tolerance

/-- Every value that is a number is below a tolerance. -/
def NumbersBelow (tolerance : α) (values : Set α) : Prop :=
  ∀ v ∈ values, IsNumber v → Scalar.abs v < tolerance

theorem NumbersBelow.allBelow_iff {tolerance : α} {values : Set α}
    (h : NumbersBelow tolerance values) : AllBelow tolerance values ↔ ∀ v ∈ values, IsNumber v :=
  ⟨fun hall v hv => (hall v hv).1, fun hnumber v hv => ⟨hnumber v hv, h v hv (hnumber v hv)⟩⟩

end Tolerance

/-! ### Residuals -/

namespace Assembly

variable {stride : Nat} {α : Type}

/-- The residual of an unknown relative to its largest coupling term and a fraction of its
diagonal, formed where there is something to compare with. -/
def relativeResidual [Scalar α] (a : Assembly stride α) (node sub : Nat) : Option α :=
  let row := a.matrix.layout.offset node + sub
  let reference := a.coupling node sub + Scalar.abs (a.matrix.coefficient row row * 1e-3)
  if reference == 0 then none else some (a.matrix.rhs.getD row 0 / reference)

theorem check_coupled [Scalar α] {a : Assembly stride α} {relative : α → α → α}
    {node sub : Nat} {report report' : ResidualReport α} (h : a.check relative node sub report = .ok report') :
    report'.coupled = match a.relativeResidual node sub with
      | some v => report.coupled.offer node v
      | none => report.coupled := by
  obtain ⟨rhs, hrhs, h⟩ := Transition.except_bind_eq_ok.1 h
  obtain ⟨diagonal, hdiagonal, h⟩ := Transition.except_bind_eq_ok.1 h
  obtain ⟨row, hrow, hrhs⟩ := Transition.except_bind_eq_ok.1 hrhs
  obtain ⟨⟨row', column⟩, haddress, hdiagonal⟩ := Transition.except_bind_eq_ok.1 hdiagonal
  obtain ⟨i, hi, haddress⟩ := Transition.except_bind_eq_ok.1 haddress
  obtain ⟨j, hj, haddress⟩ := Transition.except_bind_eq_ok.1 haddress
  obtain ⟨k, -, hdiagonal⟩ := Transition.except_bind_eq_ok.1 hdiagonal
  cases haddress
  cases hdiagonal
  cases hrhs
  cases h
  obtain ⟨-, rfl⟩ := Layout.index_eq_ok.1 hrow
  obtain ⟨-, rfl⟩ := Layout.index_eq_ok.1 hi
  obtain ⟨-, rfl⟩ := Layout.index_eq_ok.1 hj
  rw [relativeResidual]
  dsimp only
  split_ifs <;> rfl

theorem of_check [IeeeScalar α] {ι : Type} {a : Assembly stride α} {relative : α → α → α}
    {node sub : Nat} {report report' : ResidualReport α} {f : ι → Option α} {done : List ι} {i : ι}
    (hf : f i = a.relativeResidual node sub) (hreport : report.coupled.Of (formed f done))
    (h : a.check relative node sub report = .ok report') :
    report'.coupled.Of (formed f (done ++ [i])) := by
  rw [check_coupled h]
  exact hreport.offer_formed hf node

end Assembly

/-! ### The equilibrium iteration -/

namespace Poisson

variable {M α : Type}

section Formed

variable [Scalar α]

/-- The increment of a node relative to the potential it leads to. -/
def relativeIncrement (before after : PoissonState α) (node : Nat) : α :=
  before.assembly.matrix.solution.getD node 0 /
    (Scalar.abs (((after.field.nodes[node]?).map NodeState.potential).getD 0) + 1e-3)

/-- The relative increments of an update, one for every node. -/
def formedIncrements (before after : PoissonState α) : Set α :=
  formed (fun node => some (relativeIncrement before after node))
    (List.range after.field.nodeCount)

/-- The relative residuals after a setup, of the interior nodes. -/
def formedResiduals (p : Problem M α) (s : PoissonState α) : Set α :=
  formed (fun node => s.assembly.relativeResidual node 0) (List.range' 1 (p.lastNode - 1))

end Formed

variable [IeeeScalar α] {p : Problem M α}

theorem incrementConverged_update (p : Problem M α) (s : PoissonState α) :
    (update p s).incrementConverged = true ↔
      0 < p.settings.incrementTolerance ∧
        NumbersBelow p.settings.incrementTolerance (formedIncrements s (update p s)) := by
  have hof : (incrementExtremum (update p s).field s.assembly.matrix.solution).Of
      (formedIncrements s (update p s)) := by
    refine Loop.foldl_invariant (fun done (e : Extremum α) =>
      e.Of (formed (fun node => some (relativeIncrement s (update p s) node)) done)) ?_ ?_
    · rw [Extremum.formed_nil]
      exact Extremum.of_none
    · intro done node e he
      have hoffer := he.offer node (relativeIncrement s (update p s) node)
      exact hoffer.of_eq (formed_append_of_some rfl)
  exact decide_eq_true_iff.trans hof.magnitude_lt_iff

variable [MaterialModel M α] [BEq M]

theorem residualConverged_setup {s t : PoissonState α} (h : setup p s = .ok () t) :
    t.incrementConverged = s.incrementConverged ∧
      (t.residualConverged = true ↔
        0 < p.settings.residualTolerance ∧
          NumbersBelow p.settings.residualTolerance (formedResiduals p t)) := by
  obtain ⟨_, r, hclear, h⟩ := Transition.bind_eq_ok.1 h
  cases hclear
  obtain ⟨_, r, hget, h⟩ := Transition.bind_eq_ok.1 h
  cases hget
  obtain ⟨_, q, hassembly, h⟩ := Transition.bind_eq_ok.1 h
  obtain ⟨a, -, rfl⟩ := Transition.zoom_eq_ok.1 (Transition.widenError_eq_ok.1 hassembly)
  have hcheck := Transition.replace_eq_ok.1 h
  dsimp only at hcheck
  split at hcheck
  · cases hcheck
  · next report hreport =>
    cases hcheck
    have hof : report.coupled.Of
        (formed (fun node => a.relativeResidual node 0) (List.range' 1 (p.lastNode - 1))) := by
      refine Loop.foldlM_invariant (fun done (r : ResidualReport α) =>
        r.coupled.Of (formed (fun node => a.relativeResidual node 0) done)) ?_ ?_ hreport
      · rw [Extremum.formed_nil]
        exact Extremum.of_none
      · intro done node r r' hr hstep
        exact Assembly.of_check rfl hr hstep
    exact ⟨rfl, decide_eq_true_iff.trans hof.magnitude_lt_iff⟩

theorem of_endedBy {ω : Type} {s : PoissonState α}
    (h : (step p : NewtonStep α (PoissonState α) ω).EndedBy s) :
    ∃ before, setup p (update p before) = .ok () s := by
  obtain ⟨before, after, w, w', w'', hupdate, hsetup⟩ := h
  have hupdate' : onFirst (modify (update p)) (before, w) = .ok () (after, w') := hupdate
  cases hupdate'
  exact ⟨before, (Transition.onFirst_eq_ok.1 hsetup).1⟩

/-- **When the equilibrium iteration takes a state as converged.** -/
theorem isConverged_iff {before s : PoissonState α} (h : setup p (update p before) = .ok () s) :
    (s.incrementConverged && s.residualConverged) = true ↔
      (0 < p.settings.incrementTolerance ∧ NumbersBelow p.settings.incrementTolerance
        (formedIncrements before (update p before))) ∧
      (0 < p.settings.residualTolerance ∧
        NumbersBelow p.settings.residualTolerance (formedResiduals p s)) := by
  obtain ⟨hincrement, hresidual⟩ := residualConverged_setup h
  rw [Bool.and_eq_true, hincrement, incrementConverged_update, hresidual]

end Poisson

/-! ### The two-carrier iteration -/

/-- The relative increment that a policy selects, formed where there is something to compare
with. -/
def selectedIncrement {α : Type} [Scalar α] (policy : IncrementPolicy)
    (increment value maximum : α) : Option α :=
  match policy with
  | .relativeToValue => some (increment / (value + 1e-3))
  | .relativeToMaximum => if maximum == 0 then none else some (increment / maximum)
  | .relativeToBlend =>
    let blend := value + 1e-10 * maximum
    if blend == 0 then none else some (increment / blend)

namespace TwoCarrier

variable {M α : Type}

section Formed

variable [Scalar α]

/-- The relative increment of an unknown: against its magnitude after the update, and the largest
magnitude of the same unknown. -/
def relativeIncrement (settings : Settings α) (before after : TwoCarrierState α) (node : Nat)
    (u : Unknown) : Option α :=
  let m := before.assembly.matrix
  selectedIncrement settings.incrementPolicy
    (m.solution.getD (m.layout.offset node + u.sub) 0) (magnitude after.field node u)
    ((maxima after.field (unknowns before.blockSizes)).get u)

/-- The relative increments of an update that the policy selects. -/
def formedIncrements (settings : Settings α) (before after : TwoCarrierState α) : Set α :=
  formed (fun (node, u) => relativeIncrement settings before after node u)
    (unknowns before.blockSizes)

/-- The relative residuals after a setup, of all unknowns. -/
def formedResiduals (s : TwoCarrierState α) : Set α :=
  formed (fun (node, u) => s.assembly.relativeResidual node u.sub) (unknowns s.blockSizes)

theorem selected_reportIncrement (policy : IncrementPolicy) (report : IncrementReport α)
    (node : Nat) (increment value maximum : α) :
    (reportIncrement report node increment value maximum).selected policy =
      match selectedIncrement policy increment value maximum with
      | some v => (report.selected policy).offerInclusive node v
      | none => report.selected policy := by
  cases policy with
  | relativeToValue => rfl
  | relativeToMaximum =>
    simp only [reportIncrement, selectedIncrement, IncrementReport.selected]
    split_ifs <;> rfl
  | relativeToBlend =>
    simp only [reportIncrement, selectedIncrement, IncrementReport.selected]
    split_ifs <;> rfl

end Formed

variable [IeeeScalar α]

/-! ### One report for each unknown -/

section Reports

variable {β : Type} {extremum : β → Extremum α} {f : Nat × Unknown → Option α}

/-- The values that are formed of the items of one unknown. -/
def formedOf (f : Nat × Unknown → Option α) (u : Unknown) (items : List (Nat × Unknown)) : Set α :=
  formed (fun i => if i.2 = u then f i else none) items

omit [IeeeScalar α] in
theorem mem_formed_iff {items : List (Nat × Unknown)} {v : α} :
    v ∈ formed f items ↔ ∃ u, v ∈ formedOf f u items := by
  constructor
  · rintro ⟨i, hi, hv⟩
    exact ⟨i.2, i, hi, (if_pos rfl).trans hv⟩
  · rintro ⟨u, i, hi, hv⟩
    dsimp only at hv
    split_ifs at hv
    exact ⟨i, hi, hv⟩

/-- The reports bound the values that are formed of some items, each report those of its
unknown. -/
def Bound (extremum : β → Extremum α) (f : Nat × Unknown → Option α)
    (items : List (Nat × Unknown)) (reports : PerUnknown β) : Prop :=
  ∀ u, (extremum (reports.get u)).Of (formedOf f u items)

theorem bound_constant {b : β} (hb : extremum b = .none) : Bound extremum f [] (.constant b) := by
  intro u
  rw [PerUnknown.get_constant, hb, formedOf, Extremum.formed_nil]
  exact Extremum.of_none

theorem Bound.modify {done : List (Nat × Unknown)} {reports : PerUnknown β} {node : Nat}
    {u : Unknown} {g : β → β} (h : Bound extremum f done reports)
    (hu : (extremum (g (reports.get u))).Of (formedOf f u (done ++ [(node, u)]))) :
    Bound extremum f (done ++ [(node, u)]) (reports.modify u g) := by
  intro w
  by_cases hw : u = w
  · rw [← hw, PerUnknown.get_modify, if_pos rfl]
    exact hu
  · rw [PerUnknown.get_modify, if_neg hw]
    exact (h w).of_eq (formed_append_of_none (if_neg hw))

/-- All extrema are below a tolerance if and only if all numbers formed are. -/
theorem Bound.all_lt_iff {items : List (Nat × Unknown)} {reports : PerUnknown β} {tolerance : α}
    (h : Bound extremum f items reports) :
    (reports.toList.all fun report => decide ((extremum report).magnitude < tolerance)) = true ↔
      0 < tolerance ∧ NumbersBelow tolerance (formed f items) := by
  rw [PerUnknown.all_toList]
  simp only [decide_eq_true_eq, (h _).magnitude_lt_iff]
  constructor
  · intro hall
    refine ⟨(hall .potential).1, fun v hv => ?_⟩
    obtain ⟨u, hu⟩ := mem_formed_iff.1 hv
    exact (hall u).2 v hu
  · rintro ⟨hpos, hall⟩ u
    exact ⟨hpos, fun v hv => hall v (mem_formed_iff.2 ⟨u, hv⟩)⟩

end Reports

/-! ### The flags of the two-carrier iteration -/

theorem bound_incrementReports {m : BlockMatrix α} {field : NodeField α}
    {items : List (Nat × Unknown)} {reports : PerUnknown (IncrementReport α)}
    (policy : IncrementPolicy) (h : incrementReports m field items = .ok reports) :
    Bound (fun report : IncrementReport α => report.selected policy)
      (fun (node, u) => selectedIncrement policy
        (m.solution.getD (m.layout.offset node + u.sub) 0) (magnitude field node u)
        ((maxima field items).get u)) items reports := by
  refine Loop.foldlM_invariant (Bound (fun report : IncrementReport α => report.selected policy) _)
    (bound_constant (by cases policy <;> rfl)) ?_ h
  rintro done ⟨node, u⟩ reports reports' hreports hstep
  obtain ⟨increment, hincrement, hstep⟩ := Transition.except_bind_eq_ok.1 hstep
  obtain ⟨-, rfl⟩ := blockSolution_eq_ok.1 hincrement
  cases hstep
  refine hreports.modify ?_
  rw [selected_reportIncrement]
  exact (hreports u).offerInclusive_formed (if_pos rfl) node

theorem incrementConverged_update {settings : Settings α} {s t : TwoCarrierState α}
    (h : update settings s = .ok t) :
    t.incrementConverged = true ↔
      0 < settings.incrementTolerance ∧
        NumbersBelow settings.incrementTolerance (formedIncrements settings s t) := by
  obtain ⟨field, reports, -, -, hreports, h⟩ := update_eq_ok.1 h
  rw [h]
  exact (bound_incrementReports settings.incrementPolicy hreports).all_lt_iff

variable [MaterialModel M α] [BEq M]

theorem residualConverged_setup {p : Problem M α} {s t : TwoCarrierState α}
    (h : setup p s = .ok () t) :
    t.incrementConverged = s.incrementConverged ∧
      (t.residualConverged = true ↔
        0 < p.settings.residualTolerance ∧
          NumbersBelow p.settings.residualTolerance (formedResiduals t)) := by
  obtain ⟨_, r, hclear, h⟩ := Transition.bind_eq_ok.1 h
  cases hclear
  obtain ⟨_, r, hget, h⟩ := Transition.bind_eq_ok.1 h
  cases hget
  obtain ⟨_, q, hassembly, h⟩ := Transition.bind_eq_ok.1 h
  obtain ⟨a, -, rfl⟩ := Transition.zoom_eq_ok.1 (Transition.widenError_eq_ok.1 hassembly)
  have hcheck := Transition.replace_eq_ok.1 h
  dsimp only at hcheck
  split at hcheck
  · cases hcheck
  · next reports hreports =>
    cases hcheck
    have hbound : Bound ResidualReport.coupled
        (fun (node, u) => a.relativeResidual node u.sub) (unknowns s.blockSizes) reports := by
      refine Loop.foldlM_invariant (Bound ResidualReport.coupled _) (bound_constant rfl) ?_ hreports
      rintro done ⟨node, u⟩ reports reports' hreports hstep
      obtain ⟨report, hreport, hstep⟩ := Transition.except_bind_eq_ok.1 hstep
      cases hstep
      exact hreports.modify (Assembly.of_check (if_pos rfl) (hreports u) hreport)
    exact ⟨rfl, hbound.all_lt_iff⟩

theorem of_endedBy {ω : Type} {p : Problem M α} {observer : SolveObserver α ω}
    {s : TwoCarrierState α} (h : (step p observer).EndedBy s) :
    ∃ before after, update p.settings before = .ok after ∧ setup p after = .ok () s := by
  obtain ⟨before, after, w, w', w'', hupdate, hsetup⟩ := h
  have hupdate' := (Transition.onFirst_eq_ok.1 hupdate).1
  exact ⟨before, after, update_of_updateInPlace hupdate', (Transition.onFirst_eq_ok.1 hsetup).1⟩

/-- **When the two-carrier iteration takes a state as converged.** -/
theorem isConverged_iff {p : Problem M α} {before after s : TwoCarrierState α}
    (hupdate : update p.settings before = .ok after) (hsetup : setup p after = .ok () s) :
    (s.incrementConverged && s.residualConverged) = true ↔
      (0 < p.settings.incrementTolerance ∧ NumbersBelow p.settings.incrementTolerance
        (formedIncrements p.settings before after)) ∧
      (0 < p.settings.residualTolerance ∧
        NumbersBelow p.settings.residualTolerance (formedResiduals s)) := by
  obtain ⟨hincrement, hresidual⟩ := residualConverged_setup hsetup
  rw [Bool.and_eq_true, hincrement, incrementConverged_update hupdate, hresidual]

end TwoCarrier

/-! ### Runs -/

section Runs

variable {M α : Type} [IeeeScalar α]

/-- What a reported convergence says of the increments `I` and residuals `R` it was decided on:
those that are numbers are below the tolerances, so that all of them are exactly if all are
numbers. -/
structure ReportedConverged (settings : Settings α) (I R : Set α) : Prop where
  increments : NumbersBelow settings.incrementTolerance I
  residuals : NumbersBelow settings.residualTolerance R
  all_iff : AllBelow settings.incrementTolerance I ∧ AllBelow settings.residualTolerance R ↔
    ∀ v ∈ I ∪ R, IsNumber v

theorem reportedConverged_of_numbersBelow {settings : Settings α} {I R : Set α}
    (hI : NumbersBelow settings.incrementTolerance I)
    (hR : NumbersBelow settings.residualTolerance R) : ReportedConverged settings I R := by
  refine ⟨hI, hR, ?_⟩
  rw [hI.allBelow_iff, hR.allBelow_iff]
  simp only [Set.mem_union, or_imp, forall_and]

variable [MaterialModel M α] [BEq M]

/-- **What a reported convergence means.** A run that ends without an error ends with an update and
a setup whose relative increments and residuals are below the tolerances as far as they are
numbers; all of them are, exactly if none of them is something else than a number. -/
theorem run_reports_convergence (p : Problem M α) :
    (∀ (ω : Type) (observe : NewtonStep.Observer α ω) s w k s' w',
      (Poisson.step p).run observe (s, w) = .ok k (s', w') →
        ∃ before after, after = Poisson.update p before ∧ Poisson.setup p after = .ok () s' ∧
          ReportedConverged p.settings (Poisson.formedIncrements before after)
            (Poisson.formedResiduals p s')) ∧
    (∀ (ω : Type) (observer : SolveObserver α ω) (observe : NewtonStep.Observer α ω) s w k s' w',
      (TwoCarrier.step p observer).run observe (s, w) = .ok k (s', w') →
        ∃ before after, TwoCarrier.update p.settings before = .ok after ∧
          TwoCarrier.setup p after = .ok () s' ∧
          ReportedConverged p.settings (TwoCarrier.formedIncrements p.settings before after)
            (TwoCarrier.formedResiduals s')) := by
  constructor
  · intro ω observe s w k s' w' h
    obtain ⟨hconverged, hended, -⟩ := NewtonStep.run_eq_ok h
    obtain ⟨before, hsetup⟩ := Poisson.of_endedBy hended
    obtain ⟨⟨-, hI⟩, -, hR⟩ := (Poisson.isConverged_iff hsetup).1 hconverged
    exact ⟨before, _, rfl, hsetup, reportedConverged_of_numbersBelow hI hR⟩
  · intro ω observer observe s w k s' w' h
    obtain ⟨hconverged, hended, -⟩ := NewtonStep.run_eq_ok h
    obtain ⟨before, after, hupdate, hsetup⟩ := TwoCarrier.of_endedBy hended
    obtain ⟨⟨-, hI⟩, -, hR⟩ := (TwoCarrier.isConverged_iff hupdate hsetup).1 hconverged
    exact ⟨before, after, hupdate, hsetup, reportedConverged_of_numbersBelow hI hR⟩

end Runs

/-! ### A run that has diverged -/

/-- An element of oxide between two contacts. -/
def slab : Problem Physics.Material Float where
  mesh := { nodes := #[⟨[0], 0⟩, ⟨[0], 0⟩], elements := #[⟨0, 1, 1, 1, 0⟩] }
  table := { regions := #[⟨.siliconDioxide, 0, 0⟩], temperature := 300 }
  settings := .ofTolerances 1e-3 1e-3 5

/-- A field whose first potential is not a number. -/
def brokenField : NodeField Float :=
  ⟨#[⟨0, 0 / 0, 0, 0, 0, 0, 0, 0⟩, ⟨0, 0, 0, 0, 0, 0, 0, 0⟩]⟩

/-- The first potential of a field. -/
def firstPotential (field : NodeField Float) : Float :=
  ((field.nodes[0]?).map NodeState.potential).getD 0

/-- Whether a run from the broken field succeeds with a field that is still broken. -/
def endsBroken {σ : Type} (start : Except (BuildError Float) σ) (step : NewtonStep Float σ Unit) :
    Bool :=
  match start with
  | .error _ => false
  | .ok s => match step.run .silent (s, ()) with
    | .ok _ (s', _) => (BinaryScalar.unpack (firstPotential (step.field s'))).isNaN
    | .error _ _ => false

theorem exists_run_of_endsBroken {σ : Type} {start : Except (BuildError Float) σ}
    {step : NewtonStep Float σ Unit} (h : endsBroken start step = true) :
    ∃ s k s', step.run .silent (s, ()) = .ok k (s', ()) ∧
      ¬ IsNumber (firstPotential (step.field s')) := by
  unfold endsBroken at h
  split at h
  · cases h
  · next s =>
    split at h
    · next k s' _ hrun => exact ⟨s, k, s', hrun, by rw [IsNumber, h]; decide⟩
    · cases h

/-- On a field that is not made of numbers both iterations report convergence. -/
theorem run_reports_convergence_slab :
    (∃ s k s', (Poisson.step slab).run .silent (s, ()) = .ok k (s', ()) ∧
      ¬ IsNumber (firstPotential s'.field) ∧
      ∃ before after, after = Poisson.update slab before ∧ Poisson.setup slab after = .ok () s' ∧
        ReportedConverged slab.settings (Poisson.formedIncrements before after)
          (Poisson.formedResiduals slab s')) ∧
    (∃ s k s', (TwoCarrier.step slab SolveObserver.silent).run .silent (s, ()) = .ok k (s', ()) ∧
      ¬ IsNumber (firstPotential s'.field) ∧
      ∃ before after, TwoCarrier.update slab.settings before = .ok after ∧
        TwoCarrier.setup slab after = .ok () s' ∧
        ReportedConverged slab.settings (TwoCarrier.formedIncrements slab.settings before after)
          (TwoCarrier.formedResiduals s')) := by
  have hpoisson : endsBroken (Poisson.start slab brokenField) (Poisson.step slab) = true := by
    decide +kernel
  have htwoCarrier : endsBroken (TwoCarrier.start slab brokenField)
      (TwoCarrier.step slab SolveObserver.silent) = true := by
    decide +kernel
  obtain ⟨s, k, s', hrun, hbroken⟩ := exists_run_of_endsBroken hpoisson
  obtain ⟨t, l, t', hrun', hbroken'⟩ := exists_run_of_endsBroken htwoCarrier
  exact ⟨⟨s, k, s', hrun, hbroken, (run_reports_convergence slab).1 _ _ _ _ _ _ _ hrun⟩,
    ⟨t, l, t', hrun', hbroken', (run_reports_convergence slab).2 _ _ _ _ _ _ _ _ hrun'⟩⟩

end CarrierTransport.Newton
