import Mathlib
import CarrierTransport.Proofs.Newton.FixedPoint
import CarrierTransport.Proofs.Newton.Insulator

/-!
# Insulators are solved in one step

What the phases of an iteration on insulators do is stated once for both iterations (`Linear`). The
first round of a run moves the potentials by the solution of the system that is assembled first and
leaves nothing on the right hand side; a second one would move nothing and find both reports
converged (`Linear.round`). So a run is over after two rounds at most, wherever its reports stood
before, and both iterations end with the same potentials (`insulators_solved_at_once`).
-/

namespace CarrierTransport

open LinearSystem (BlockMatrix SolveObserver)
open LinearSystem.BlockMatrix
open Physics (MaterialKind MaterialModel)
open State (NodeField NodeState PerUnknown Unknown)
open Transition

/-! ### Observers that do not fail -/

def LinearSystem.SolveObserver.Willing {α ω : Type} (observer : SolveObserver α ω) : Prop :=
  ∀ m w, (∃ w', observer.before m w = .ok () w') ∧ ∃ w', observer.after m w = .ok () w'

namespace Newton

def NewtonStep.Observer.Willing {α ω : Type} (observe : NewtonStep.Observer α ω) : Prop :=
  ∀ number field w, ∃ w', observe number field w = .ok () w'

theorem exists_lookIn {α ω : Type} {observe : BlockMatrix α → EStateM StorageError ω Unit}
    (hobserve : ∀ m w, ∃ w', observe m w = .ok () w')
    (x : (BlockMatrix α × LinearSystem.Workspace α) × ω) :
    ∃ w', SolveObserver.lookIn observe x = .ok () (x.1, w') := by
  obtain ⟨⟨m, ws⟩, w⟩ := x
  obtain ⟨w', hw'⟩ := hobserve m w
  refine ⟨w', zoom_eq_ok.2 ⟨(m, w'), ?_, rfl⟩⟩
  simp only [SolveObserver.look, hw']

/-! ### Runs on insulators -/

section Runs

variable {M α σ ω : Type}

/-- A solve, an update and a setup lead from one state to another. -/
def NewtonStep.Leads (step : NewtonStep α σ ω) (x y : σ × ω) : Prop :=
  ∃ u v, step.solve x = .ok () u ∧ step.update u = .ok () v ∧ step.setup v = .ok () y

theorem NewtonStep.Leads.round {step : NewtonStep α σ ω} {observe : Observer α ω} {x y : σ × ω}
    (h : step.Leads x y) (hobserve : observe.Willing) (number : Nat) :
    ∃ w, step.round observe number x = .ok () (y.1, w) := by
  obtain ⟨u, v, hu, hv, hy⟩ := h
  obtain ⟨w, hw⟩ := hobserve number (step.field y.1) y.2
  exact ⟨w, bind_eq_ok.2 ⟨(), _, hu, bind_eq_ok.2 ⟨(), _, hv, bind_eq_ok.2 ⟨(), _, hy,
    onSecond_eq_ok.2 ⟨rfl, hw⟩⟩⟩⟩⟩

variable [ExactScalar α] [MaterialModel M α] [BEq M]

/-- What the phases of an iteration on insulators do, whichever it is. A setup assembles the system
of the field, and with nothing on its right hand side the residuals have converged; a solve
succeeds; an update displaces the potentials by the solution, and if that is zero the increments
have converged. -/
structure Linear (p : Problem M α) (step : NewtonStep α σ ω) (ready : σ → Prop)
    (matrix : σ → BlockMatrix α) (incrementConverged residualConverged : σ → Bool) : Prop where
  setup : ∀ s w, ready s → ∃ t, step.setup (s, w) = .ok () (t, w) ∧ ready t ∧
    step.field t = step.field s ∧ Assembles p (step.field s) (matrix t) ∧
    incrementConverged t = incrementConverged s ∧
    ((∀ row, (matrix t).rhs.getD row 0 = 0) → residualConverged t = true)
  solve : ∀ s w, ready s → Assembles p (step.field s) (matrix s) →
    ∃ t w', step.solve (s, w) = .ok () (t, w') ∧ ready t ∧ step.field t = step.field s ∧
      BlockMatrix.solve (matrix s) = .ok () (matrix t)
  update : ∀ s w, ready s → ∃ t, step.update (s, w) = .ok () (t, w) ∧ ready t ∧
    Displaced p (step.field s) (step.field t) (fun node => (matrix s).solution.getD node 0) ∧
    ((∀ row, (matrix s).solution.getD row 0 = 0) → incrementConverged t = true)
  isConverged : ∀ s, step.isConverged s = (incrementConverged s && residualConverged s)

/-- An iteration that has assembled its system and finds nothing on the right hand side. -/
structure AtRest (p : Problem M α) (step : NewtonStep α σ ω) (ready : σ → Prop)
    (matrix : σ → BlockMatrix α) (s : σ) : Prop where
  ready : ready s
  assembles : Assembles p (step.field s) (matrix s)
  rhs : ∀ row, (matrix s).rhs.getD row 0 = 0

variable {p : Problem M α} {step : NewtonStep α σ ω} {observe : NewtonStep.Observer α ω}
  {ready : σ → Prop} {matrix : σ → BlockMatrix α} {incrementConverged residualConverged : σ → Bool}
  {regions : List Nat} {priority : Nat → Int} {s : σ}

/-- **A round on insulators** solves the system it finds, moves the potentials by the solution and
leaves an iteration at rest. If it was at rest before, nothing moves, and it has converged. -/
theorem Linear.round (h : Linear p step ready matrix incrementConverged residualConverged)
    (hp : p.Anchored) (hinsulating : Insulating p regions priority) (hs : ready s)
    (hassembles : Assembles p (step.field s) (matrix s)) (w : ω) :
    ∃ x t w', BlockMatrix.solve (matrix s) = .ok () x ∧ step.Leads (s, w) (t, w') ∧
      AtRest p step ready matrix t ∧
      Displaced p (step.field s) (step.field t) (fun node => x.solution.getD node 0) ∧
      ((∀ row, (matrix s).rhs.getD row 0 = 0) →
        (∀ node, x.solution.getD node 0 = 0) ∧ step.isConverged t = true) := by
  obtain ⟨u, w', hu, hready, hfield, hx⟩ := h.solve s w hs hassembles
  obtain ⟨v, hv, hready, hdisplaced, hincrement⟩ := h.update u w' hready
  obtain ⟨t, ht, hready, hfield', hassembles', hkept, hresidual⟩ := h.setup v w' hready
  rw [hfield] at hdisplaced
  have hrhs := hassembles.rhs_eq_zero hp hx hinsulating hassembles' hdisplaced
  rw [← hfield'] at hdisplaced hassembles'
  refine ⟨matrix u, t, w', hx, ⟨_, _, hu, hv, ht⟩, ⟨hready, hassembles', hrhs⟩, hdisplaced,
    fun hzero => ?_⟩
  have hstill := (hassembles.wellFormed.solution_eq_zero_iff hp.minPositive
    (hassembles.pivotTolerance ▸ hp.tolerance) hx).2 hzero
  refine ⟨hstill, ?_⟩
  rw [h.isConverged, hkept, hincrement hstill, hresidual hrhs]
  rfl

/-- The first round from a state leaves nothing on the right hand side. -/
def SolvedAtOnce (step : NewtonStep α σ ω) (matrix : σ → BlockMatrix α) (x : σ × ω) : Prop :=
  ∃ s t, step.setup x = .ok () s ∧ step.Leads s t ∧ ∀ row, (matrix t.1).rhs.getD row 0 = 0

/-- **A run on insulators** makes one round or two, and moves the potentials by the solution of the
system that is assembled first. -/
theorem Linear.run (h : Linear p step ready matrix incrementConverged residualConverged)
    (hp : p.Anchored) (hinsulating : Insulating p regions priority)
    (hbudget : 2 ≤ step.maximumIterations) (hobserve : observe.Willing) (hs : ready s) (w : ω) :
    SolvedAtOnce step matrix (s, w) ∧ ∃ m x count z, Assembles p (step.field s) m ∧
      BlockMatrix.solve m = .ok () x ∧ step.run observe (s, w) = .ok count z ∧ count ≤ 2 ∧
      Displaced p (step.field s) (step.field z.1) fun node => x.solution.getD node 0 := by
  obtain ⟨t, ht, hready, hfield, hassembles, -⟩ := h.setup s w hs
  have hassembles' := hassembles
  rw [← hfield] at hassembles
  obtain ⟨x, u, v, hx, hleads, hrest, hdisplaced, -⟩ :=
    h.round hp hinsulating hready hassembles w
  rw [hfield] at hdisplaced
  refine ⟨⟨_, _, ht, hleads, hrest.rhs⟩, matrix t, x, ?_⟩
  obtain ⟨v', hfirst⟩ := hleads.round hobserve 1
  obtain ⟨y, z, w', -, hleads', -, hdisplaced', hconverged⟩ :=
    h.round hp hinsulating hrest.ready hrest.assembles v'
  obtain ⟨hstill, hconverged⟩ := hconverged hrest.rhs
  obtain ⟨w'', hsecond⟩ := hleads'.round hobserve 2
  obtain ⟨budget, hmaximum⟩ : ∃ budget, max 1 step.maximumIterations = budget + 2 :=
    ⟨step.maximumIterations - 2, by omega⟩
  by_cases hone : step.isConverged u = true
  · refine ⟨1, (u, v'), hassembles', hx, bind_eq_ok.2 ⟨(), _, ht, ?_⟩, by decide, hdisplaced⟩
    rw [hmaximum, NewtonStep.rounds_of_round hfirst, if_pos hone]
  · refine ⟨2, (z, w''), hassembles', hx, bind_eq_ok.2 ⟨(), _, ht, ?_⟩, le_rfl, hdisplaced.nodes,
      hdisplaced'.nodes', fun node hnode => ?_⟩
    · rw [hmaximum, NewtonStep.rounds_of_round hfirst, if_neg hone,
        NewtonStep.rounds_of_round hsecond, if_pos hconverged]
    · rw [hdisplaced'.potential node hnode, hdisplaced.potential node hnode, hstill, add_zero]

end Runs

/-! ### Reports of nothing -/

section Reports

variable {α : Type} [ExactScalar α] {stride : Nat}

theorem Extremum.value_offer {e : Extremum α} (he : e.value = 0) (node : Nat) :
    (e.offer node 0).value = 0 := by
  rw [Extremum.offer]
  split_ifs
  · rfl
  · exact he

/-- Where there is nothing on the right hand side no residual is found. -/
theorem Assembly.value_coupled_check {a : Assembly stride α} {relative : α → α → α}
    {node sub : Nat} {report report' : ResidualReport α}
    (hrhs : ∀ row, a.matrix.rhs.getD row 0 = 0) (hreport : report.coupled.value = 0)
    (h : a.check relative node sub report = .ok report') : report'.coupled.value = 0 := by
  rw [Assembly.check_coupled h]
  unfold Assembly.relativeResidual
  dsimp only
  split
  · next v hv =>
    split_ifs at hv
    rw [hrhs, zero_div] at hv
    cases hv
    exact Extremum.value_offer hreport node
  · exact hreport

theorem magnitude_eq_zero {e : Extremum α} (h : e.value = 0) : e.magnitude = 0 := by
  rw [Extremum.magnitude, h, ExactScalar.abs_eq_abs, abs_zero]

end Reports

/-! ### The equilibrium iteration -/

/-- What both iterations ask of the settings of insulators. -/
structure Problem.Solvable {M α : Type} [ExactScalar α] [MaterialModel M α] (p : Problem M α) :
    Prop extends p.Anchored, Poisson.Tolerated p where
  incrementTolerance : 0 < p.settings.incrementTolerance
  residualTolerance : 0 < p.settings.residualTolerance
  budget : 2 ≤ p.settings.maximumIterations

/-- Other tolerances leave the equations alone. -/
theorem Problem.Solvable.withSettings {M α : Type} [ExactScalar α] [MaterialModel M α]
    {p : Problem M α} (h : p.Solvable) (settings : Settings α)
    (hdiagonal : settings.dirichletDiagonal = p.settings.dirichletDiagonal)
    (hpivot : settings.pivotTolerance = p.settings.pivotTolerance)
    (hincrement : 0 < settings.incrementTolerance) (hresidual : 0 < settings.residualTolerance)
    (hbudget : 2 ≤ settings.maximumIterations) : Problem.Solvable { p with settings } where
  diagonal := hdiagonal ▸ h.diagonal
  minPositive := h.minPositive
  tolerance := hpivot ▸ h.tolerance
  contact := hpivot ▸ h.contact
  inner := hpivot ▸ h.inner
  incrementTolerance := hincrement
  residualTolerance := hresidual
  budget := hbudget

namespace Poisson

variable {M α : Type} [ExactScalar α] {p : Problem M α} {s t : PoissonState α}

/-- Without increments there is nothing to report. -/
theorem magnitude_incrementExtremum (field : NodeField α) {increments : Array α}
    (hzero : ∀ node, increments.getD node 0 = 0) :
    (incrementExtremum field increments).magnitude = 0 := by
  refine magnitude_eq_zero (Loop.foldl_invariant (fun _ (e : Extremum α) => e.value = 0) rfl ?_)
  intro _ node e he
  dsimp only
  rw [hzero, zero_div]
  exact Extremum.value_offer he node

theorem displaced_update (hadditive : p.settings.potentialUpdate = .additive)
    (hs : Shaped p s) :
    Displaced p s.field (update p s).field fun node =>
      s.assembly.matrix.solution.getD node 0 where
  nodes := hs.nodes
  nodes' := (update_alike hs.assembled).1.left.nodes
  potential node hnode := by
    obtain ⟨state, hstate⟩ := Problem.exists_state hs.nodes hnode
    rw [unknown_potential hstate, unknown_potential (getElem?_update hstate)]
    simp [advance, hadditive]

variable [MaterialModel M α] [BEq M]

/-- What a setup reports of a system with nothing on the right hand side. -/
theorem residualConverged_of_rhs (h : setup p s = .ok () t) :
    t.incrementConverged = s.incrementConverged ∧
      (0 < p.settings.residualTolerance → (∀ row, t.assembly.matrix.rhs.getD row 0 = 0) →
        t.residualConverged = true) := by
  rw [setup_eq] at h
  split at h
  · cases h
  · split at h
    · cases h
    · next report hreport =>
      cases h
      refine ⟨rfl, fun hpos hrhs => ?_⟩
      have hvalue : report.coupled.value = 0 :=
        Loop.foldlM_invariant (fun _ (r : ResidualReport α) => r.coupled.value = 0) rfl
          (fun _ _ _ _ hr hstep => Assembly.value_coupled_check hrhs hr hstep) hreport
      dsimp only
      rw [magnitude_eq_zero hvalue, decide_eq_true_eq]
      exact hpos

variable {ω : Type} {regions : List Nat} {priority : Nat → Int}

theorem linear (hinsulating : Insulating p regions priority) (hp : p.Solvable)
    (hadditive : p.settings.potentialUpdate = .additive) :
    Linear p (step p : NewtonStep α (PoissonState α) ω) (Shaped p) (·.assembly.matrix)
      (·.incrementConverged) (·.residualConverged) := by
  constructor
  case setup =>
    intro s w hs
    obtain ⟨base, a, t, hbase, hover, hrebuild, ht, rfl⟩ := exists_setup hinsulating.closed hs
    obtain ⟨base', hbase', hstart, -⟩ := hs.equipped
    cases hbase.symm.trans hbase'
    have hassembles := hinsulating.assembles_rebuild hp.diagonal hbase hs.nodes
      (slotted_contributions p s.field) hstart hrebuild hover
    obtain ⟨hkept, hresidual⟩ := residualConverged_of_rhs ht
    have hgrounded := setup_grounded hs
    rw [ht] at hgrounded
    cases hgrounded with
    | ok h =>
      exact ⟨t, onFirst_eq_ok.2 ⟨ht, rfl⟩, h.1.1, h.1.2, hassembles, hkept,
        hresidual hp.residualTolerance⟩
  case solve =>
    intro s w hs hassembles
    obtain ⟨m, hm⟩ := hassembles.solve_ok hp.toTolerated
    obtain ⟨t, ht, hshaped, hfield, rfl⟩ := solve_of_solve hs hm
    exact ⟨t, w, onFirst_eq_ok.2 ⟨ht, rfl⟩, hshaped, hfield, hm⟩
  case update =>
    intro s w hs
    refine ⟨update p s, rfl, (update_alike hs.assembled).1.left,
      displaced_update hadditive hs, fun hzero => ?_⟩
    refine decide_eq_true ?_
    rw [magnitude_incrementExtremum _ hzero]
    exact hp.incrementTolerance
  case isConverged => exact fun _ => rfl

end Poisson

/-! ### The two-carrier iteration -/

namespace TwoCarrier

variable {M α : Type} [ExactScalar α] [MaterialModel M α] {p : Problem M α}
  {s t : TwoCarrierState α} {regions : List Nat} {priority : Nat → Int}

/-- A state with nothing but the shape of the problem is solved with its system, if those who look
on do not fail. -/
theorem solve_of_solve {ω : Type} {observer : SolveObserver α ω} (hobserver : observer.Willing)
    (hs : Shaped p s) {m : BlockMatrix α} (hm : BlockMatrix.solve s.assembly.matrix = .ok () m)
    (w : ω) :
    ∃ t w', solve observer (s, w) = .ok () (t, w') ∧ Shaped p t ∧ t.field = s.field ∧
      t.assembly.matrix = m := by
  obtain ⟨ws, -, hsolve⟩ := hs.equipped.solveIn_eq
  rw [hm] at hsolve
  obtain ⟨v, hbefore⟩ :=
    exists_lookIn (fun m w => (hobserver m w).1) ((s.assembly.matrix, s.workspace), w)
  obtain ⟨w', hafter⟩ := exists_lookIn (fun m w => (hobserver m w).2) ((m, ws), v)
  have hobserved : solveObservedIn observer ((s.assembly.matrix, s.workspace), w) =
      .ok () ((m, ws), w') :=
    bind_eq_ok.2 ⟨(), _, hbefore, bind_eq_ok.2 ⟨(), ((m, ws), v),
      onFirst_eq_ok.2 ⟨hsolve, rfl⟩, hafter⟩⟩
  obtain ⟨t, ht, hfield, hmatrix⟩ :
      ∃ t, solve observer (s, w) = .ok () (t, w') ∧ t.field = s.field ∧
        t.assembly.matrix = m := by
    rw [TwoCarrier.solve, widenError, zoom]
    dsimp only
    rw [hobserved]
    exact ⟨_, rfl, rfl, rfl⟩
  have hshaped := (solve_alike observer hs.assembled w).mono (fun _ _ h => h.1.left)
    fun _ _ h => h.1.left
  have hends := hshaped.ends
  rw [ht] at hends
  cases hends with
  | ok h => exact ⟨t, w', ht, h, hfield, hmatrix⟩

/-- Where nothing but potentials is unknown an update applies the whole increments. -/
theorem findDamping_insulating (hinsulating : Insulating p regions priority) (hs : Shaped p s) :
    findDamping p.settings s = .ok 1 := by
  refine findDamping_eq_ok.2 ⟨_, hs.fitting.dampingTargets_eq, Damping.find_eq_one ?_⟩
  intro target htarget
  obtain ⟨⟨node, u⟩, hu, rfl⟩ := List.mem_map.1 htarget
  obtain ⟨hu, hcarrier⟩ := List.mem_filter.1 hu
  have hgoverns := governs_of_mem_unknowns hs.sizes hu (by simpa using hcarrier)
  exact (hinsulating.not_governs node hgoverns).elim

theorem exists_update (hinsulating : Insulating p regions priority) (hs : Shaped p s) :
    ∃ t, updateInPlace p.settings s = .ok () t ∧ Shaped p t := by
  have hfactor := findDamping_insulating hinsulating hs
  cases ht : updateInPlace p.settings s with
  | ok _ t =>
    have hends := ((update_alike p.settings hs.assembled).mono (fun _ _ h => h.1.left)
      fun _ _ h => h.left).ends
    rw [← hs.fitting.updateInPlace_eq, ht] at hends
    cases hends with
    | ok h => exact ⟨t, rfl, h⟩
  | error e t =>
    obtain ⟨-, hfailed⟩ := hs.fitting.of_updateInPlace_error ht
    rw [hfactor] at hfailed
    cases hfailed

theorem displaced_update (hinsulating : Insulating p regions priority) (hs : Shaped p s)
    (ht : updateInPlace p.settings s = .ok () t) (hshaped : Shaped p t) :
    Displaced p s.field t.field fun node => s.assembly.matrix.solution.getD node 0 where
  nodes := hs.nodes
  nodes' := hshaped.nodes
  potential node hnode := by
    have hupdate := update_of_updateInPlace ht
    obtain ⟨_, _, hfactor, -⟩ := update_eq_ok.1 hupdate
    rw [findDamping_insulating hinsulating hs] at hfactor
    have hfactor : t.dampingFactor = 1 := (Except.ok.inj hfactor).symm
    have hshare : appliedShare p.settings t.dampingFactor = 1 := by
      rw [appliedShare, hfactor]
      cases p.settings.damping
      · exact ExactScalar.ofDecimal_one
      · rfl
    have hoffset : s.assembly.matrix.layout.offset node = node := by
      obtain ⟨base, hbase, hover, -⟩ := hs.equipped
      rw [hinsulating.blockSizes_eq hs.sizes] at hbase
      rw [hover.matrix.layout, Poisson.offset_matrix hbase hnode.le]
    have hmem : (node, Unknown.potential) ∈ unknowns s.blockSizes :=
      mem_unknowns.2 (getD_blockSizes_pos hs.sizes hnode)
    rw [unknown_update hs hupdate, if_pos hmem, hshare, increment, hoffset]
    exact congrArg _ (one_mul _)

variable [BEq M]

/-- What a setup reports of a system with nothing on the right hand side. -/
theorem residualConverged_of_rhs (h : setup p s = .ok () t) :
    t.incrementConverged = s.incrementConverged ∧
      (0 < p.settings.residualTolerance → (∀ row, t.assembly.matrix.rhs.getD row 0 = 0) →
        t.residualConverged = true) := by
  rw [setup_eq] at h
  split at h
  · cases h
  · split at h
    · cases h
    · next reports hreports =>
      cases h
      refine ⟨rfl, fun hpos hrhs => ?_⟩
      have hvalue : ∀ u, (reports.get u).coupled.value = 0 := by
        refine Loop.foldlM_invariant (fun _ (reports : PerUnknown (ResidualReport α)) =>
          ∀ u, (reports.get u).coupled.value = 0) ?_ ?_ hreports
        · intro u
          rw [PerUnknown.get_constant]
          rfl
        · rintro _ ⟨node, w⟩ reports reports' hreports hstep u
          obtain ⟨report, hreport, hstep⟩ := except_bind_eq_ok.1 hstep
          cases hstep
          rw [PerUnknown.get_modify]
          split
          · exact Assembly.value_coupled_check hrhs (hreports _) hreport
          · exact hreports u
      dsimp only
      rw [PerUnknown.all_toList]
      intro u
      rw [magnitude_eq_zero (hvalue u), decide_eq_true_eq]
      exact hpos

theorem linear {ω : Type} {observer : SolveObserver α ω} (hobserver : observer.Willing)
    (hinsulating : Insulating p regions priority) (hp : p.Solvable) :
    Linear p (step p observer) (Shaped p) (·.assembly.matrix) (·.incrementConverged)
      (·.residualConverged) := by
  constructor
  case setup =>
    intro s w hs
    obtain ⟨base, a, t, hbase, hover, hrebuild, ht, rfl⟩ := exists_setup hinsulating.sound hs
    obtain ⟨base', hbase', hstart, -⟩ := hs.equipped
    cases hbase.symm.trans hbase'
    have hslotted := slotted_contributions p s.field
    rw [hinsulating.blockSizes_eq hs.sizes] at hbase
    rw [hinsulating.contributions_eq] at hrebuild hslotted
    have hassembles := hinsulating.assembles_rebuild hp.diagonal hbase hs.nodes hslotted hstart
      hrebuild hover
    obtain ⟨hkept, hresidual⟩ := residualConverged_of_rhs ht
    have hgrounded := setup_grounded hs
    rw [ht] at hgrounded
    cases hgrounded with
    | ok h =>
      exact ⟨t, onFirst_eq_ok.2 ⟨ht, rfl⟩, h.1.1, h.1.2, hassembles, hkept,
        hresidual hp.residualTolerance⟩
  case solve =>
    intro s w hs hassembles
    obtain ⟨m, hm⟩ := hassembles.solve_ok hp.toTolerated
    obtain ⟨t, w', ht, hshaped, hfield, rfl⟩ := solve_of_solve hobserver hs hm w
    exact ⟨t, w', ht, hshaped, hfield, hm⟩
  case update =>
    intro s w hs
    obtain ⟨t, ht, hshaped⟩ := exists_update hinsulating hs
    refine ⟨t, onFirst_eq_ok.2 ⟨ht, rfl⟩, hshaped, displaced_update hinsulating hs ht hshaped,
      fun hzero => ?_⟩
    have hfloor : AboveFloor p s.field := fun node hgoverns =>
      (hinsulating.not_governs node hgoverns).elim
    have hrest := reportsRest_update hs hfloor hzero (update_of_updateInPlace ht)
    exact hrest.incrementConverged hp.incrementTolerance
  case isConverged => exact fun _ => rfl

end TwoCarrier

/-! ### Both iterations -/

/-- **Insulators are solved in one step**, by both iterations, whatever has been done with them
before, which may have different settings. Setting a voltage succeeds. The first solve and update
leave nothing on the right hand side of the next setup. Runs, under the eyes of observers that do
not fail, succeed after two rounds at most and end with the same potentials. -/
theorem insulators_solved_at_once {M α : Type} [ExactScalar α] [MaterialModel M α] [BEq M]
    {p : Problem M α} {settings : Settings α} {regions : List Nat} {priority : Nat → Int}
    (hinsulating : Insulating p regions priority) (hp : p.Solvable)
    (hadditive : p.settings.potentialUpdate = .additive)
    (hp' : Problem.Solvable { p with settings }) {s : PoissonState α} {s' : TwoCarrierState α}
    (hs : Poisson.Reachable p s) (hs' : TwoCarrier.Reachable { p with settings } s')
    (hfield : s'.field = s.field) (voltage : α) :
    ∃ t t', Poisson.setVoltage p voltage s = .ok () t ∧
      TwoCarrier.setVoltage { p with settings } voltage s' = .ok () t' ∧
      ∀ (ω ω' : Type) (observe : NewtonStep.Observer α ω) (observer : SolveObserver α ω')
        (observe' : NewtonStep.Observer α ω') (w : ω) (w' : ω'),
        observe.Willing → observer.Willing → observe'.Willing →
        SolvedAtOnce (Poisson.step p) (·.assembly.matrix) (t, w) ∧
        SolvedAtOnce (TwoCarrier.step { p with settings } observer) (·.assembly.matrix) (t', w') ∧
        ∃ count z count' z', (Poisson.step p).run observe (t, w) = .ok count z ∧ count ≤ 2 ∧
          (TwoCarrier.step { p with settings } observer).run observe' (t', w') = .ok count' z' ∧
          count' ≤ 2 ∧ ∀ node < p.nodeCount,
            z.1.field.unknown node .potential = z'.1.field.unknown node .potential := by
  have hinsulating' := hinsulating.withSettings settings
  obtain ⟨f, hf⟩ := hinsulating.closed.placeContacts_ok hs.shaped.nodes voltage
  have ht : Poisson.setVoltage p voltage s = .ok () { s with field := f } :=
    zoom_eq_ok.2 ⟨f, hf, rfl⟩
  have ht' : TwoCarrier.setVoltage { p with settings } voltage s' =
      .ok () { s' with field := f } := zoom_eq_ok.2 ⟨f, hfield ▸ hf, rfl⟩
  refine ⟨_, _, ht, ht', fun ω ω' observe observer observe' w w' hobserve hobserver hobserve' => ?_⟩
  have hshaped := (hs.setVoltage voltage).shaped
  have hshaped' := (hs'.setVoltage voltage).shaped
  rw [ht] at hshaped
  rw [ht'] at hshaped'
  obtain ⟨honce, m, x, count, z, hm, hx, hrun, hcount, hdisplaced⟩ :=
    (Poisson.linear hinsulating hp hadditive).run hp.toAnchored hinsulating hp.budget hobserve
      hshaped w
  obtain ⟨honce', m', x', count', z', hm', hx', hrun', hcount', hdisplaced'⟩ :=
    (TwoCarrier.linear hobserver hinsulating' hp').run hp'.toAnchored hinsulating' hp'.budget
      hobserve' hshaped' w'
  refine ⟨honce, honce', count, z, count', z', hrun, hcount, hrun', hcount', fun node hnode => ?_⟩
  have hsame := hm.solution_unique hp.toAnchored hx hm' hp'.toAnchored hx' node hnode
  refine (hdisplaced.potential node hnode).trans ?_
  refine Eq.trans ?_ (hdisplaced'.potential node hnode).symm
  rw [hsame]
  rfl

/-- Three layers of oxide, of which the second is the thickest. -/
def oxideStack : { p : Problem Physics.Material ℚ //
    Insulating p [0, 1, 2] (fun _ => 0) ∧ p.Solvable } where
  val :=
    { mesh :=
        { nodes := #[⟨[0], 0⟩, ⟨[0, 1], 0⟩, ⟨[1, 2], 1⟩, ⟨[2], 2⟩]
          elements := #[⟨0, 1, 1, 1, 0⟩, ⟨1, 2, 3, 1, 1⟩, ⟨2, 3, 2, 1, 2⟩] }
      table :=
        { regions := #[⟨.siliconDioxide, 0, 0⟩, ⟨.siliconDioxide, 0, 0⟩, ⟨.siliconDioxide, 0, 0⟩]
          temperature := 300 }
      settings := .ofTolerances (1 / 1000) (1 / 1000) 2 }
  property.left :=
    { line :=
        { elements_size := rfl
          nodes_size := rfl
          element := fun e he => by
            match e, he with
            | 0, _ => exact ⟨_, rfl, rfl, rfl, rfl⟩
            | 1, _ => exact ⟨_, rfl, rfl, rfl, rfl⟩
            | 2, _ => exact ⟨_, rfl, rfl, rfl, rfl⟩
          node := fun i hi => by
            match i, hi with
            | 0, _ => rfl
            | 1, _ => rfl
            | 2, _ => rfl
            | 3, _ => rfl }
      regions_ne := by decide
      geometry := by decide +kernel
      material := fun r hr => by
        fin_cases hr
        all_goals exact ⟨.siliconDioxide, rfl, rfl, by decide +kernel⟩ }
  property.right :=
    { diagonal := by decide +kernel
      minPositive := by decide +kernel
      tolerance := by decide +kernel
      contact := by decide +kernel
      inner := fun i hi hlt => by
        match i, hi, hlt with
        | 1, _, _ => decide +kernel
        | 2, _, _ => decide +kernel
      incrementTolerance := by decide +kernel
      residualTolerance := by decide +kernel
      budget := by decide }

/-- Settings with which increments are damped. -/
def dampedSettings : Settings ℚ :=
  { Settings.ofTolerances 1 1 9 with damping := .apply, incrementPolicy := .relativeToMaximum }

/-- Potentials away from those of the contacts. -/
def raisedField : NodeField ℚ :=
  ⟨.replicate 4 ⟨0, 5, 0, 0, 0, 0, 0, 0⟩⟩

theorem insulators_solved_at_once_oxideStack :
    ∃ s s' t t' count z count' z', Poisson.start oxideStack.1 raisedField = .ok s ∧
      TwoCarrier.start { oxideStack.1 with settings := dampedSettings } s.field = .ok s' ∧
      Poisson.setVoltage oxideStack.1 1 s = .ok () t ∧
      TwoCarrier.setVoltage { oxideStack.1 with settings := dampedSettings } 1 s' = .ok () t' ∧
      (Poisson.step oxideStack.1).run .silent (t, ()) = .ok count (z, ()) ∧ count ≤ 2 ∧
      (TwoCarrier.step { oxideStack.1 with settings := dampedSettings } .silent).run .silent
        (t', ()) = .ok count' (z', ()) ∧ count' ≤ 2 ∧
      ∀ node < 4, z.field.unknown node .potential = z'.field.unknown node .potential := by
  obtain ⟨hinsulating, hsolvable⟩ := oxideStack.2
  have hstill : NewtonStep.Observer.Willing (.silent : NewtonStep.Observer ℚ Unit) :=
    fun _ _ w => ⟨w, rfl⟩
  have hstill' : SolveObserver.Willing (.silent : SolveObserver ℚ Unit) :=
    fun _ w => ⟨⟨w, rfl⟩, ⟨w, rfl⟩⟩
  have hnodes : raisedField.nodeCount = oxideStack.1.nodeCount := rfl
  obtain ⟨s, hs⟩ := Poisson.exists_start hinsulating.sound hnodes
  obtain ⟨s', hs'⟩ := TwoCarrier.exists_start
    (hinsulating.withSettings dampedSettings).sound (Poisson.shaped_start hs).1.nodes
  obtain ⟨t, t', ht, ht', hruns⟩ := insulators_solved_at_once hinsulating hsolvable rfl
    (hsolvable.withSettings dampedSettings rfl rfl one_pos one_pos (by decide)) (.start hs)
    (.start hs') (TwoCarrier.shaped_start hs').2 1
  obtain ⟨-, -, count, z, count', z', hrun, hcount, hrun', hcount', hsame⟩ :=
    hruns Unit Unit .silent .silent .silent () () hstill hstill' hstill
  exact ⟨s, s', t, t', count, z.1, count', z'.1, hs, hs', ht, ht', hrun, hcount, hrun', hcount',
    hsame⟩

end Newton

end CarrierTransport
