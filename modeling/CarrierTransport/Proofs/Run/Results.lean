import CarrierTransport.Proofs.Run.Steps
import CarrierTransport.Proofs.Run.Sweep

/-!
# The results of a sweep

A sweep that comes to its steps ends as they do (`Begun.sweep_eq`). One that succeeds has recorded
all its entries (`exists_swept`); one that fails in a step is up to there the sweep of the steps
before it (`exists_failed_step`). On a file tree the files of a sweep hold its entries, and a step
that fails does not touch those of the steps before it (`sweep_overwrites_nothing`).
-/

namespace CarrierTransport.Run

open CarrierTransport.Configuration (Plan)
open CarrierTransport.Path (IsFileName)
open Mesh (Topology)
open Newton
open Physics (MaterialModel)
open State (FieldError NodeField Quantity)
open Transition

/-! ### Sweeps -/

section Sweeps

variable {M α ω : Type} [BinaryScalar α] [MaterialModel M α] [BEq M] {plan : Plan α}
  {reporter : Reporter ω} {mesh : Topology α} {table : RegionTable M α}
  {initial relaxed : NodeField α} {w w' : ω}

/-- Relaxing a field reports nothing. -/
theorem snd_of_relax {p : Problem M α} {f g : NodeField α} {u : Unit}
    (h : relax p (f, w) = .ok u (g, w')) : w' = w := by
  obtain ⟨s, s', -, hiterate, -⟩ := withIteration_eq_ok h
  obtain ⟨_, ⟨t, v⟩, hvoltage, hrun⟩ := bind_eq_ok.1 (widenError_eq_ok.1 hiterate)
  obtain ⟨-, rfl⟩ := onFirst_eq_ok.1 hvoltage
  obtain ⟨count, r, hrun, hdone⟩ := bind_eq_ok.1 hrun
  cases hdone
  have hends : Ends (fun _ x => x.2 = v) (fun _ x => x.2 = v)
      ((Poisson.step p).run .silent (t, v)) := by
    refine NewtonStep.run_world (· = v) ?_ ?_ ?_ ?_ t rfl
    · exact fun s w hw => ends_onFirst (Q := (· = v)) (Poisson.setup p) (s := (s, w)) hw
    · exact fun s w hw => ends_onFirst (Q := (· = v)) Poisson.solve (s := (s, w)) hw
    · exact fun _ _ hw => .ok hw
    · exact fun _ _ _ hw => .ok hw
  rw [hrun] at hends
  exact hends.left

/-- What a sweep does before its steps, which start from the last of these states. -/
structure Begun (plan : Plan α) (reporter : Reporter ω) (mesh : Topology α)
    (table : RegionTable M α) (initial : NodeField α) (w : ω) (relaxed : NodeField α)
    (x : TwoCarrierState α × ω) : Prop where
  before : ∃ v, writeFields reporter dopingQuantities initialSuffix initial w = .ok () v ∧
    relax { mesh, table, settings := plan.equilibrium } (initial, v) = .ok () (relaxed, v) ∧
    writeFields reporter solutionQuantities initialSuffix relaxed v = .ok () x.2
  start : TwoCarrier.start { mesh, table, settings := plan.twoCarrier } relaxed = .ok x.1

theorem Begun.recorded {x : TwoCarrierState α × ω}
    (h : Begun plan reporter mesh table initial w relaxed x) :
    Recorded reporter (fieldEntries dopingQuantities .initial initial ++
      fieldEntries solutionQuantities .initial relaxed) w x.2 := by
  obtain ⟨v, hdoping, -, hsolution⟩ := h.before
  exact (recorded_writeFields (s := .initial) hdoping).append
    (recorded_writeFields (s := .initial) hsolution)

/-- A sweep that has begun ends as its steps do. -/
theorem Begun.sweep_eq {x : TwoCarrierState α × ω}
    (h : Begun plan reporter mesh table initial w relaxed x) (steps : Nat) :
    sweep { plan with steps } reporter mesh table (initial, w) =
      match biasSteps plan reporter { mesh, table, settings := plan.twoCarrier } steps 0 x with
      | .ok () (t, v) => .ok () (t.field, v)
      | .error e (t, v) => .error (.newton e) (t.field, v) := by
  obtain ⟨v, hdoping, hrelax, hsolution⟩ := h.before
  have hreport : ∀ {quantities} {field : NodeField α} {v v' : ω},
      writeFields reporter quantities initialSuffix field v = .ok () v' →
      onSecond (widenError (.field : FieldError → SweepError α)
        (writeFields reporter quantities initialSuffix field)) (field, v) = .ok () (field, v') :=
    fun hwrite => onSecond_eq_ok.2 ⟨rfl, widenError_eq_ok.2 hwrite⟩
  have hget : ∀ y : NodeField α × ω,
      (get : EStateM (SweepError α) (NodeField α × ω) _) y = .ok y y :=
    fun _ => rfl
  refine (bind_of_ok (hget (initial, w))).trans ?_
  refine (bind_of_ok (hreport hdoping)).trans ?_
  refine (bind_of_ok hrelax).trans ?_
  refine (bind_of_ok (hget (relaxed, v))).trans ?_
  refine (bind_of_ok (hreport hsolution)).trans ?_
  change withIteration _ _ (widenError _ (biasSteps { plan with steps } reporter
    { mesh, table, settings := plan.twoCarrier } steps 0)) (relaxed, x.2) = _
  rw [biasSteps_with, withIteration, h.start]
  simp only [widenError]
  rcases biasSteps plan reporter { mesh, table, settings := plan.twoCarrier } steps 0 x with
    ⟨u, t, v⟩ | ⟨e, t, v⟩ <;> rfl

theorem exists_begun {steps : Nat} {final : NodeField α} {u : Unit}
    (h : sweep { plan with steps } reporter mesh table (initial, w) = .ok u (final, w')) :
    ∃ relaxed x, Begun plan reporter mesh table initial w relaxed x := by
  obtain ⟨_, _, hget, hreported⟩ := bind_eq_ok.1 h
  cases hget
  obtain ⟨_, ⟨g, v⟩, hdoping, hrelaxed⟩ := bind_eq_ok.1 hreported
  obtain ⟨rfl, hdoping⟩ := onSecond_eq_ok.1 hdoping
  obtain ⟨_, ⟨relaxed, v'⟩, hrelax, hread⟩ := bind_eq_ok.1 hrelaxed
  obtain rfl := snd_of_relax hrelax
  obtain ⟨_, _, hget, hreported'⟩ := bind_eq_ok.1 hread
  cases hget
  obtain ⟨_, ⟨g', v''⟩, hsolution, hsteady⟩ := bind_eq_ok.1 hreported'
  obtain ⟨rfl, hsolution⟩ := onSecond_eq_ok.1 hsolution
  obtain ⟨s, -, hs, -⟩ := withIteration_eq_ok hsteady
  exact ⟨_, (s, v''), ⟨_, widenError_eq_ok.1 hdoping, hrelax, widenError_eq_ok.1 hsolution⟩, hs⟩

/-- What a sweep of some steps has done: the field that it has relaxed, the fields behind the rounds
of its steps, and its reports. -/
structure Swept (plan : Plan α) (reporter : Reporter ω) (mesh : Topology α)
    (table : RegionTable M α) (initial : NodeField α) (w : ω) (steps : Nat) (relaxed : NodeField α)
    (rounds : List (List (NodeField α))) (final : NodeField α) (w' : ω) : Prop where
  ends : sweep { plan with steps } reporter mesh table (initial, w) = .ok () (final, w')
  relaxes : ∃ v : ω, relax { mesh, table, settings := plan.equilibrium } (initial, v) =
    .ok () (relaxed, v)
  goes : ∃ s v t, TwoCarrier.start { mesh, table, settings := plan.twoCarrier } relaxed = .ok s ∧
    StepsTo plan reporter { mesh, table, settings := plan.twoCarrier } 0 (s, v) rounds (t, w') ∧
    t.field = final
  count : rounds.length = steps
  recorded : Recorded reporter (sweepEntries plan initial relaxed rounds) w w'

theorem Begun.exists_swept {x y : TwoCarrierState α × ω}
    (h : Begun plan reporter mesh table initial w relaxed x) {steps : Nat}
    (hsteps : biasSteps plan reporter { mesh, table, settings := plan.twoCarrier } steps 0 x =
      .ok () y) :
    ∃ rounds, Swept plan reporter mesh table initial w steps relaxed rounds y.1.field y.2 := by
  obtain ⟨rounds, hrounds, hcount, hrecord⟩ := recorded_biasSteps hsteps
  obtain ⟨v, -, hrelax, -⟩ := h.before
  refine ⟨rounds, ?_, ⟨v, hrelax⟩, ⟨x.1, x.2, y.1, h.start, hrounds, rfl⟩, hcount,
    h.recorded.append hrecord⟩
  rw [h.sweep_eq steps, hsteps]

/-- **What a sweep reports.** -/
theorem exists_swept {steps : Nat} {final : NodeField α}
    (h : sweep { plan with steps } reporter mesh table (initial, w) = .ok () (final, w')) :
    ∃ relaxed rounds,
      Swept plan reporter mesh table initial w steps relaxed rounds final w' := by
  obtain ⟨relaxed, x, hbegun⟩ := exists_begun h
  rw [hbegun.sweep_eq steps] at h
  split at h
  · next t v hsteps =>
    cases h
    obtain ⟨rounds, hswept⟩ := hbegun.exists_swept hsteps
    exact ⟨relaxed, rounds, hswept⟩
  · cases h

/-- **Where a sweep fails.** One that has come to its steps fails in one of them, behind those of a
sweep that succeeds. -/
theorem exists_failed_step {begun final : NodeField α} {v : ω} {e : SweepError α}
    (hbegun : sweep { plan with steps := 0 } reporter mesh table (initial, w) = .ok () (begun, v))
    (h : sweep plan reporter mesh table (initial, w) = .error e (final, w')) :
    ∃ k relaxed rounds reached v', k < plan.steps ∧
      sweep { plan with steps := k + 1 } reporter mesh table (initial, w) =
        .error e (final, w') ∧
      Swept plan reporter mesh table initial w k relaxed rounds reached v' ∧
      Reaches reporter (StepFile k) v' w' := by
  obtain ⟨relaxed, x, hx⟩ := exists_begun hbegun
  have hsteps := hx.sweep_eq plan.steps
  rw [show sweep { plan with steps := plan.steps } reporter mesh table (initial, w) =
    .error e (final, w') from h] at hsteps
  split at hsteps
  · cases hsteps
  · next e t v' herror =>
    cases hsteps
    obtain ⟨k, y, hk, hbefore, hfails, hstep⟩ := biasSteps_eq_error herror
    obtain ⟨rounds, hswept⟩ := hx.exists_swept hbefore
    have hreaches := reaches_of_biasStep plan reporter
      { mesh, table, settings := plan.twoCarrier } k y
    rw [Nat.zero_add] at hstep
    rw [hstep] at hreaches
    refine ⟨k, relaxed, rounds, y.1.field, y.2, hk, ?_, hswept, hreaches.left⟩
    rw [hx.sweep_eq (k + 1), hfails]

/-- Each of the steps has made a round. -/
theorem StepsTo.ne_nil {p : Problem M α} {k : Nat} {x y : TwoCarrierState α × ω}
    {rounds : List (List (NodeField α))} (h : StepsTo plan reporter p k x rounds y) :
    ∀ fields ∈ rounds, fields ≠ [] := by
  induction h with
  | nil => exact fun _ hfields => absurd hfields List.not_mem_nil
  | cons _ hrounds _ ih =>
    obtain ⟨_, _, _, _, _, _, hrounds⟩ := hrounds
    intro fields hfields
    rcases List.mem_cons.1 hfields with rfl | hfields
    · rintro rfl
      cases hrounds
    · exact ih fields hfields

end Sweeps

/-! ### The main result -/

section Files

variable {M α : Type} [BinaryScalar α] [MaterialModel M α] [BEq M] {plan : Plan α}
  {mesh : Topology α} {table : RegionTable M α} {initial relaxed final : NodeField α}
  {rounds : List (List (NodeField α))} {output : Path} {tree tree' : FileTree} {steps : Nat}

/-- What a sweep leaves in its directory. -/
structure Filed (plan : Plan α) (output : Path) (initial relaxed : NodeField α)
    (rounds : List (List (NodeField α))) (tree tree' : FileTree) : Prop where
  distinct : ((sweepEntries plan initial relaxed rounds).map Entry.file).Nodup
  holds : Holds output tree' (sweepEntries plan initial relaxed rounds)
  /-- A heading and a line for every node. -/
  lines : ∀ e ∈ sweepEntries plan initial relaxed rounds, ∃ values : List String,
    e.lines = s!"### {e.quantity.name}" :: values ∧ values.length = e.field.nodeCount
  /-- A step and its last round agree. -/
  agree : plan.writeIterations = true → ∀ k fields, rounds[k]? = some fields →
    ∀ q ∈ solutionQuantities,
      tree'.read (output.child (fileName q (stepSuffix k))) =
        tree'.read (output.child (fileName q (roundSuffix k fields.length)))
  others : ∀ name, IsFileName name →
    ¬Named (sweepEntries plan initial relaxed rounds) name →
      tree'.read (output.child name) = tree.read (output.child name)

theorem Swept.filed
    (h : Swept plan (FileTree.reporter output) mesh table initial tree steps relaxed rounds final
      tree') : Filed plan output initial relaxed rounds tree tree' := by
  have hdistinct := (distinct_sweepEntries plan initial relaxed rounds).nodup_files
  have hholds := h.recorded.holds hdistinct
  refine ⟨hdistinct, hholds, fun e _ => e.lines_eq, ?_, ?_⟩
  · intro hwrite k fields hfields q hq
    obtain ⟨s, v, t, -, hsteps, -⟩ := h.goes
    have hne := hsteps.ne_nil fields (List.mem_of_getElem? hfields)
    obtain ⟨field, hstep, hround⟩ := exists_last_mem_stepEntries k hwrite hne hq
    have hmem : ∀ {e}, e ∈ stepEntries plan k fields →
        e ∈ sweepEntries plan initial relaxed rounds :=
      fun he => mem_sweepEntries_iff.2 (.inr (.inr ⟨k, fields, hfields, he⟩))
    exact (hholds _ (hmem hstep)).trans (hholds _ (hmem hround)).symm
  · intro name hname hfree
    exact h.recorded.reaches.read_eq (fun _ => isFileName_of_named) hname hfree

/-- No step reports under the name of an entry of the steps before it. -/
theorem Swept.kept
    (h : Swept plan (FileTree.reporter output) mesh table initial tree steps relaxed rounds final
      tree') {tree'' : FileTree}
    (hreaches : Reaches (FileTree.reporter output) (StepFile steps) tree' tree'') :
    Holds output tree'' (sweepEntries plan initial relaxed rounds) := by
  refine h.filed.holds.of_reaches hreaches ?_ ?_
  · rintro name (hname | ⟨q, s, -, rfl⟩)
    · exact isFileName_of_mem_diagnosticFiles hname
    · exact isFileName_fileName q s
  · rintro e he (hname | ⟨q, s, hs, hname⟩)
    · exact fileName_notMem_diagnosticFiles _ _ hname
    · obtain ⟨-, hstamp⟩ := fileName_inj.1 hname
      have hlt := step_lt_of_mem_sweepEntries he (hstamp ▸ hs)
      rw [h.count] at hlt
      exact lt_irrefl _ hlt

end Files

/-- **A sweep overwrites none of its results.** Whoever takes its reports, a sweep that succeeds has
reported its entries, each once and in their order, with nothing but diagnostics in between; and one
that fails in a step has done so for the steps before it, and then reported under the names of that
step only. On a file tree all entries have different files. These hold what was reported, also
after a step that fails, the file of a step that of its last round, and no other file of the
directory has changed, diagnostics apart. -/
theorem sweep_overwrites_nothing {M α : Type} [BinaryScalar α] [MaterialModel M α] [BEq M]
    (plan : Plan α) (mesh : Topology α) (table : RegionTable M α) (initial : NodeField α) :
    (∀ (ω : Type) (reporter : Reporter ω) w w' final,
      sweep plan reporter mesh table (initial, w) = .ok () (final, w') →
      ∃ relaxed rounds,
        Swept plan reporter mesh table initial w plan.steps relaxed rounds final w') ∧
    (∀ (ω : Type) (reporter : Reporter ω) w v w' begun e final,
      sweep { plan with steps := 0 } reporter mesh table (initial, w) = .ok () (begun, v) →
      sweep plan reporter mesh table (initial, w) = .error e (final, w') →
      ∃ k relaxed rounds reached v', k < plan.steps ∧
        sweep { plan with steps := k + 1 } reporter mesh table (initial, w) =
          .error e (final, w') ∧
        Swept plan reporter mesh table initial w k relaxed rounds reached v' ∧
        Reaches reporter (StepFile k) v' w') ∧
    ∀ output tree tree' steps relaxed rounds final,
      Swept plan (FileTree.reporter output) mesh table initial tree steps relaxed rounds final
        tree' →
      Filed plan output initial relaxed rounds tree tree' ∧
        ∀ tree'', Reaches (FileTree.reporter output) (StepFile steps) tree' tree'' →
          Holds output tree'' (sweepEntries plan initial relaxed rounds) := by
  refine ⟨fun ω reporter w w' final h => exists_swept h, ?_, ?_⟩
  · exact fun ω reporter w v w' begun e final hbegun h => exists_failed_step hbegun h
  · exact fun output tree tree' steps relaxed rounds final h => ⟨h.filed, fun _ => h.kept⟩

/-- A tree with a directory for the results. -/
def outputTree : FileTree :=
  FileTree.empty.put ["out"] .directory

/-- The tree with a directory in the place of a result of the second step. -/
def blockedTree : FileTree :=
  outputTree.put ["out", "psi_1"] .directory

theorem exists_of_not_succeeds {ε ε' σ τ : Type} {s : σ} {next : σ → EStateM.Result ε' τ Unit}
    (h : succeeds (.ok s : Except ε σ) next = false) : ∃ e t, next s = .error e t := by
  cases hnext : next s with
  | ok u t => simp [succeeds, hnext] at h
  | error e t => exact ⟨e, t, rfl⟩

/-- A sweep of two steps on the insulator files its results, and one whose second step cannot
keeps those of the first. -/
theorem sweep_overwrites_nothing_insulator :
    (∃ final tree relaxed rounds,
      sweep insulatorPlan (FileTree.reporter ⟨"out"⟩) insulator.mesh insulator.table
        (insulatorField, outputTree) = .ok () (final, tree) ∧ rounds.length = 2 ∧
      Filed insulatorPlan ⟨"out"⟩ insulatorField relaxed rounds outputTree tree) ∧
    ∃ e final tree relaxed rounds,
      sweep insulatorPlan (FileTree.reporter ⟨"out"⟩) insulator.mesh insulator.table
        (insulatorField, blockedTree) = .error e (final, tree) ∧ rounds.length = 1 ∧
      Holds ⟨"out"⟩ tree (sweepEntries insulatorPlan insulatorField relaxed rounds) := by
  let swept (plan : Plan ℚ) (tree : FileTree) : Bool :=
    succeeds (.ok insulatorField : Except Empty _) fun f =>
      sweep plan (FileTree.reporter ⟨"out"⟩) insulator.mesh insulator.table (f, tree)
  have hreporter : FileTree.reporter ⟨"out"⟩ = fun file lines => replace fun tree =>
      tree.writeLines (Path.child ⟨"out"⟩ file) lines := rfl
  have hswept : swept insulatorPlan outputTree = true := by
    simp only [swept, hreporter, FileTree.writeLines, FileTree.write, FileTree.walk_eq]
    decide +kernel
  have hblocked : swept insulatorPlan blockedTree = false ∧
      swept { insulatorPlan with steps := 1 } blockedTree = true ∧
      swept { insulatorPlan with steps := 0 } blockedTree = true := by
    simp only [swept, hreporter, FileTree.writeLines, FileTree.write, FileTree.walk_eq]
    decide +kernel
  obtain ⟨hfails, hone, hzero⟩ := hblocked
  obtain ⟨_, ⟨final, tree⟩, hf, hends⟩ := exists_of_succeeds hswept
  cases hf
  obtain ⟨e, ⟨final', tree'⟩, herror⟩ := exists_of_not_succeeds hfails
  obtain ⟨_, ⟨begun, v⟩, hf, hbegun⟩ := exists_of_succeeds hzero
  cases hf
  obtain ⟨_, ⟨first, v'⟩, hf, hfirst⟩ := exists_of_succeeds hone
  cases hf
  obtain ⟨hall, hfailed, hfiles⟩ := sweep_overwrites_nothing insulatorPlan insulator.mesh
    insulator.table insulatorField
  constructor
  · obtain ⟨relaxed, rounds, h⟩ := hall _ _ _ _ _ hends
    exact ⟨final, tree, relaxed, rounds, hends, h.count, (hfiles _ _ _ _ _ _ _ h).1⟩
  · obtain ⟨k, relaxed, rounds, reached, v'', hk, hstep, h, hreaches⟩ :=
      hfailed _ _ _ _ _ _ _ _ hbegun herror
    refine ⟨e, final', tree', relaxed, rounds, herror, ?_, (hfiles _ _ _ _ _ _ _ h).2 _ hreaches⟩
    -- the first step succeeds
    have hne : k ≠ 0 := by
      rintro rfl
      rw [hfirst] at hstep
      cases hstep
    rw [h.count]
    change k < 2 at hk
    omega

end CarrierTransport.Run
