import CarrierTransport.Proofs.Newton.Contacts
import CarrierTransport.Proofs.Run.Records

/-!
# The reports of the steps of a sweep

A run that succeeds has made rounds up to the first that leaves a converged state
(`NewtonStep.RoundsTo`), and its observer has been shown the field behind each of them. So a step of
a sweep that succeeds has recorded its entries (`recorded_biasStep`), and so have steps one after
the other (`recorded_biasSteps`). However a step ends, all its reports are under names of its own
(`reaches_of_biasStep`).
-/

namespace CarrierTransport

open CarrierTransport.Configuration (Plan)
open LinearSystem (BlockMatrix SolveObserver Workspace)
open Newton
open Physics (MaterialModel)
open State (NodeField Quantity)
open Transition

/-! ### Rounds -/

namespace Newton.NewtonStep

variable {α σ ω : Type} {step : NewtonStep α σ ω} {observe : Observer α ω}

/-- Rounds from one of a given number to the first that leaves a converged state, and the fields
behind them. -/
inductive RoundsTo (step : NewtonStep α σ ω) (observe : Observer α ω) :
    Nat → σ × ω → List (NodeField α) → σ × ω → Prop
  | last {number : Nat} {x y : σ × ω} (hround : step.round observe number x = .ok () y)
      (hconverged : step.isConverged y.1 = true) :
      RoundsTo step observe number x [step.field y.1] y
  | more {number : Nat} {x y z : σ × ω} {fields : List (NodeField α)}
      (hround : step.round observe number x = .ok () y)
      (hopen : step.isConverged y.1 = false)
      (hrest : RoundsTo step observe (number + 1) y fields z) :
      RoundsTo step observe number x (step.field y.1 :: fields) z

theorem exists_roundsTo {budget done count : Nat} {x z : σ × ω}
    (h : step.rounds observe budget done x = .ok count z) :
    ∃ fields, step.RoundsTo observe (done + 1) x fields z ∧ done + fields.length = count := by
  induction budget generalizing done x with
  | zero => cases h
  | succ budget ih =>
    obtain ⟨_, y, hround, -⟩ := bind_eq_ok.1 h
    rw [rounds_of_round hround] at h
    split_ifs at h with hconverged
    · cases h
      exact ⟨_, .last hround hconverged, rfl⟩
    · obtain ⟨fields, hrest, hcount⟩ := ih h
      refine ⟨_, .more hround (Bool.eq_false_iff.2 hconverged) hrest, ?_⟩
      rw [List.length_cons]
      omega

/-- The last of the rounds leaves the state that the rounds lead to. -/
theorem RoundsTo.getLast?_eq {number : Nat} {x z : σ × ω} {fields : List (NodeField α)}
    (h : step.RoundsTo observe number x fields z) : fields.getLast? = some (step.field z.1) := by
  induction h with
  | last => rfl
  | more _ _ hrest ih =>
    rw [List.getLast?_cons, ih]
    rfl

/-- A run keeps of the world what its phases and its observer keep of it. -/
theorem run_world (seen : ω → Prop)
    (hsetup : ∀ s w, seen w → Ends (fun _ x => seen x.2) (fun _ x => seen x.2) (step.setup (s, w)))
    (hsolve : ∀ s w, seen w → Ends (fun _ x => seen x.2) (fun _ x => seen x.2) (step.solve (s, w)))
    (hupdate : ∀ s w, seen w →
      Ends (fun _ x => seen x.2) (fun _ x => seen x.2) (step.update (s, w)))
    (hobserve : ∀ number field w, seen w →
      Ends (fun _ => seen) (fun _ => seen) (observe number field w))
    (s : σ) {w : ω} (hw : seen w) :
    Ends (fun _ x => seen x.2) (fun _ x => seen x.2) (step.run observe (s, w)) := by
  have hkeeps : step.Keeps (fun _ => True) (fun _ => True) (fun _ => True) seen := by
    constructor
    case setup =>
      intro s w _ hw
      refine (hsetup s w hw).mono ?_ ?_
      · exact fun _ _ h => ⟨⟨trivial, trivial⟩, h⟩
      · exact fun _ _ h => ⟨trivial, h⟩
    case solve =>
      intro s w _ hw
      refine (hsolve s w hw).mono ?_ ?_
      · exact fun _ _ h => ⟨⟨trivial, trivial⟩, h⟩
      · exact fun _ _ h => ⟨trivial, h⟩
    case update =>
      intro s w _ hw
      refine (hupdate s w hw).mono ?_ ?_
      · exact fun _ _ h => ⟨trivial, h⟩
      · exact fun _ _ h => ⟨trivial, h⟩
  refine (hkeeps.run observe (fun number s w _ hw => hobserve number _ w hw) trivial hw).mono ?_ ?_
  · exact fun _ _ h => h.2
  · exact fun _ _ h => h.2

end Newton.NewtonStep

/-! ### Worlds -/

namespace Newton.TwoCarrier

variable {α ω : Type} {observer : SolveObserver α ω} {s t : TwoCarrierState α} {w w' : ω}

theorem lookIn_eq_ok {observe : BlockMatrix α → EStateM StorageError ω Unit}
    {x y : (BlockMatrix α × Workspace α) × ω} {u : Unit}
    (h : SolveObserver.lookIn observe x = .ok u y) : observe x.1.1 x.2 = .ok () y.2 := by
  obtain ⟨⟨m, ws⟩, w⟩ := x
  obtain ⟨⟨m', w'⟩, hlook, rfl⟩ := zoom_eq_ok.1 h
  unfold SolveObserver.look at hlook
  dsimp only at hlook
  split at hlook
  · next hobserve =>
    cases hlook
    exact hobserve
  · cases hlook

/-- A solve that succeeds has been seen before and after. -/
theorem solve_eq_ok [Scalar α] {u : Unit} (h : solve observer (s, w) = .ok u (t, w')) :
    ∃ m m' v, observer.before m w = .ok () v ∧ observer.after m' v = .ok () w' := by
  obtain ⟨⟨⟨m, ws⟩, w₃⟩, hobserved, ht⟩ := zoom_eq_ok.1 (widenError_eq_ok.1 h)
  obtain ⟨_, ⟨x, v⟩, hbefore, hobserved⟩ := bind_eq_ok.1 hobserved
  obtain ⟨_, ⟨y, v'⟩, hsolve, hafter⟩ := bind_eq_ok.1 hobserved
  obtain ⟨-, rfl⟩ := onFirst_eq_ok.1 hsolve
  cases ht
  exact ⟨_, _, _, lookIn_eq_ok hbefore, lookIn_eq_ok hafter⟩

/-- What an observer keeps of the world a solve keeps. -/
theorem solve_ends [Scalar α] {seen : ω → Prop}
    (hbefore : ∀ m w, seen w → Ends (fun _ => seen) (fun _ => seen) (observer.before m w))
    (hafter : ∀ m w, seen w → Ends (fun _ => seen) (fun _ => seen) (observer.after m w))
    (s : TwoCarrierState α) (hw : seen w) :
    Ends (fun _ x => seen x.2) (fun _ x => seen x.2) (solve observer (s, w)) := by
  refine .widenError _ (.zoom ?_)
  refine ((lookIn_ends hbefore _ hw).mono (fun _ _ h => h.2) fun _ _ h => h.2).bind ?_
  rintro _ x hx
  refine (ends_onFirst _ hx).bind ?_
  rintro _ ⟨x, w⟩ hx
  exact (lookIn_ends hafter x hx).mono (fun _ _ h => h.2) fun _ _ h => h.2

end Newton.TwoCarrier

/-! ### Reports of a step -/

namespace Run

section Writes

variable {α ω : Type} [BinaryScalar α] {reporter : Reporter ω} {field : NodeField α} {w w' : ω}

theorem recorded_writeFields {quantities : List Quantity} {s : Stamp} {u : Unit}
    (h : writeFields reporter quantities s.text field w = .ok u w') :
    Recorded reporter (fieldEntries quantities s field) w w' := by
  induction quantities generalizing w with
  | nil =>
    cases h
    exact .nil _
  | cons q quantities ih =>
    obtain ⟨_, v, hfirst, hrest⟩ := bind_eq_ok.1 h
    exact .entry (e := ⟨q, s, field⟩) (widenError_eq_ok.1 hfirst) (ih hrest)

theorem report_ends {names : String → Prop} {file : String} (hfile : names file)
    (lines : List String) {v : ω} (hv : Reaches reporter names w v) :
    Ends (fun _ => Reaches reporter names w) (fun _ => Reaches reporter names w)
      (reporter file lines v) := by
  have hreport := hv.report hfile lines
  cases hr : reporter file lines v with
  | ok u v' =>
    rw [hr] at hreport
    exact .ok hreport
  | error e v' =>
    rw [hr] at hreport
    exact .error hreport

theorem writeFields_ends {names : String → Prop} {quantities : List Quantity} {s : Stamp}
    (hnames : ∀ q, names (fileName q s.text)) {v : ω} (hv : Reaches reporter names w v) :
    Ends (fun _ => Reaches reporter names w) (fun _ => Reaches reporter names w)
      (writeFields reporter quantities s.text field v) := by
  induction quantities generalizing v with
  | nil => exact .ok hv
  | cons q quantities ih =>
    exact (Ends.widenError _ (report_ends (hnames q) (field.lines q) hv)).bind fun _ _ hv => ih hv

end Writes

section Steps

variable {M α ω : Type} [BinaryScalar α] [MaterialModel M α] [BEq M] {plan : Plan α}
  {reporter : Reporter ω} {p : Problem M α} {k : Nat}

/-- The observer of the solves of a sweep. -/
def diagnosing (plan : Plan α) (reporter : Reporter ω) : SolveObserver α ω :=
  if plan.dumpDiagnostics then SolveObserver.ofReporter reporter else .silent

theorem recorded_solve {s t : TwoCarrierState α} {w w' : ω} {u : Unit}
    (h : TwoCarrier.solve (diagnosing plan reporter) (s, w) = .ok u (t, w')) :
    Recorded reporter ([] : List (Entry α)) w w' := by
  obtain ⟨m, m', v, hbefore, hafter⟩ := TwoCarrier.solve_eq_ok h
  unfold diagnosing at hbefore hafter
  split_ifs at hbefore hafter
  · exact .diagnostics (by decide) hbefore (.diagnostics (by decide) hafter (.nil _))
  · cases hbefore
    cases hafter
    exact .nil _

theorem recorded_round {number : Nat} {x y : TwoCarrierState α × ω} {u : Unit}
    (h : (TwoCarrier.step p (diagnosing plan reporter)).round (observeRound plan reporter k) number
      x = .ok u y) :
    Recorded reporter
      (if plan.writeIterations then
        fieldEntries solutionQuantities (.round k number) y.1.field else []) x.2 y.2 := by
  obtain ⟨_, ⟨s₁, w₁⟩, hsolve, hadvanced⟩ := bind_eq_ok.1 h
  obtain ⟨_, ⟨s₂, w₂⟩, hupdate, hassembled⟩ := bind_eq_ok.1 hadvanced
  obtain ⟨_, ⟨s₃, w₃⟩, hsetup, hshown⟩ := bind_eq_ok.1 hassembled
  obtain ⟨_, _, hget, hobserved⟩ := bind_eq_ok.1 hshown
  cases hget
  obtain ⟨hfield, hobserve⟩ := onSecond_eq_ok.1 hobserved
  have hworld : w₃ = w₁ := (onFirst_eq_ok.1 hsetup).2.trans (onFirst_eq_ok.1 hupdate).2
  have hsolved : Recorded reporter ([] : List (Entry α)) x.2 w₃ := hworld ▸ recorded_solve hsolve
  rw [hfield]
  suffices hshown : Recorded reporter (if plan.writeIterations then
      fieldEntries solutionQuantities (.round k number) s₃.field else []) w₃ y.2 from
    hsolved.append hshown
  unfold observeRound at hobserve
  split_ifs at hobserve ⊢
  · exact recorded_writeFields (s := .round k number) (widenError_eq_ok.1 hobserve)
  · cases hobserve
    exact .nil _

theorem recorded_rounds {number : Nat} {x y : TwoCarrierState α × ω} {fields : List (NodeField α)}
    (h : (TwoCarrier.step p (diagnosing plan reporter)).RoundsTo (observeRound plan reporter k)
      number x fields y) :
    Recorded reporter (if plan.writeIterations then roundEntries k number fields else [])
      x.2 y.2 := by
  induction h with
  | last hround _ =>
    have hrecord := recorded_round hround
    split_ifs at hrecord ⊢ <;> exact hrecord.append (.nil _)
  | more hround _ _ ih =>
    have hrecord := recorded_round hround
    split_ifs at hrecord ih ⊢ <;> exact hrecord.append ih

/-- The fields behind the rounds of a step that starts from a state. -/
def StepRounds (plan : Plan α) (reporter : Reporter ω) (p : Problem M α) (k : Nat)
    (x : TwoCarrierState α × ω) (fields : List (NodeField α)) : Prop :=
  ∃ s y z, TwoCarrier.setVoltage p (Scalar.count k * plan.voltageStep) x.1 = .ok () s ∧
    (TwoCarrier.step p (diagnosing plan reporter)).run (observeRound plan reporter k) (s, x.2) =
      .ok fields.length z ∧
    (TwoCarrier.step p (diagnosing plan reporter)).setup (s, x.2) = .ok () y ∧
    (TwoCarrier.step p (diagnosing plan reporter)).RoundsTo (observeRound plan reporter k) 1 y
      fields z

/-- **What a step reports.** -/
theorem recorded_biasStep {x y : TwoCarrierState α × ω} {u : Unit}
    (h : biasStep plan reporter p k x = .ok u y) :
    ∃ fields, StepRounds plan reporter p k x fields ∧ fields.getLast? = some y.1.field ∧
      Recorded reporter (stepEntries plan k fields) x.2 y.2 := by
  obtain ⟨_, ⟨s, w⟩, hvoltage, h₁⟩ := bind_eq_ok.1 h
  obtain ⟨hvoltage, rfl⟩ := onFirst_eq_ok.1 hvoltage
  obtain ⟨count, z, hrun, h₂⟩ := bind_eq_ok.1 h₁
  obtain ⟨_, _, hget, hreport⟩ := bind_eq_ok.1 h₂
  cases hget
  obtain ⟨hfield, hreport⟩ := onSecond_eq_ok.1 hreport
  obtain ⟨_, r, hsetup, hrounds⟩ := bind_eq_ok.1 hrun
  obtain ⟨fields, hfields, hcount⟩ := NewtonStep.exists_roundsTo hrounds
  rw [Nat.zero_add] at hfields hcount
  subst hcount
  have hlast : fields.getLast? = some y.1.field := by
    rw [hfields.getLast?_eq, hfield]
    rfl
  refine ⟨fields, ⟨s, r, z, hvoltage, hrun, hsetup, hfields⟩, hlast, ?_⟩
  have hworld : r.2 = x.2 := (onFirst_eq_ok.1 hsetup).2
  have hrecord := recorded_rounds hfields
  rw [hworld] at hrecord
  refine hrecord.append ?_
  rw [hlast, hfield]
  have hwritten := recorded_writeFields (s := .step k) (widenError_eq_ok.1 hreport)
  simpa using hwritten

/-- A solve reports diagnostics at most. -/
theorem reaches_of_solve {names : String → Prop} (hnames : ∀ file ∈ diagnosticFiles, names file)
    (plan : Plan α) (reporter : Reporter ω) {w v : ω} (s : TwoCarrierState α)
    (hv : Reaches reporter names w v) :
    Ends (fun _ x => Reaches reporter names w x.2) (fun _ x => Reaches reporter names w x.2)
      (TwoCarrier.solve (diagnosing plan reporter) (s, v)) := by
  unfold diagnosing
  split_ifs
  · refine TwoCarrier.solve_ends (fun m v hv => ?_) (fun m v hv => ?_) s hv
    · exact report_ends (hnames _ (by decide)) m.systemLines hv
    · exact report_ends (hnames _ (by decide)) m.solutionLines hv
  · have hsilent : ∀ v, Reaches reporter names w v →
        Ends (fun (_ : Unit) => Reaches reporter names w)
          (fun (_ : StorageError) => Reaches reporter names w) (.ok () v) :=
      fun _ hv => .ok hv
    exact TwoCarrier.solve_ends (fun _ => hsilent) (fun _ => hsilent) s hv

/-- The names that a step reports under. -/
def StepFile (k : Nat) (name : String) : Prop :=
  name ∈ diagnosticFiles ∨ ∃ q s, Stamp.step? s = some k ∧ name = fileName q s.text

/-- However a step ends, it has reported under its own names. -/
theorem reaches_of_biasStep (plan : Plan α) (reporter : Reporter ω) (p : Problem M α) (k : Nat)
    (x : TwoCarrierState α × ω) :
    Ends (fun _ y => Reaches reporter (StepFile k) x.2 y.2)
      (fun _ y => Reaches reporter (StepFile k) x.2 y.2) (biasStep plan reporter p k x) := by
  obtain ⟨s, w⟩ := x
  have hstamped : ∀ (s : Stamp) (field : NodeField α) v, s.step? = some k →
      Reaches reporter (StepFile k) w v →
      Ends (fun _ => Reaches reporter (StepFile k) w) (fun _ => Reaches reporter (StepFile k) w)
        (writeFields reporter solutionQuantities s.text field v) :=
    fun s field v hs hv => writeFields_ends (fun q => .inr ⟨q, s, hs, rfl⟩) hv
  have hobserve : ∀ number (field : NodeField α) v, Reaches reporter (StepFile k) w v →
      Ends (fun _ => Reaches reporter (StepFile k) w) (fun _ => Reaches reporter (StepFile k) w)
        (observeRound plan reporter k number field v) := by
    intro number field v hv
    unfold observeRound
    split_ifs
    · exact .widenError _ (hstamped (.round k number) field v rfl hv)
    · exact .ok hv
  have hdiagnostics : ∀ file ∈ diagnosticFiles, StepFile k file := fun _ => .inl
  refine (ends_onFirst _ (s := (s, w)) .refl).bind ?_
  rintro _ ⟨s, v⟩ hv
  refine (NewtonStep.run_world (Reaches reporter (StepFile k) w) (fun s v hv => ?_)
    (fun s v hv => ?_) (fun s v hv => ?_) hobserve s hv).bind ?_
  · exact ends_onFirst (TwoCarrier.setup p) (s := (s, v)) hv
  · exact reaches_of_solve hdiagnostics plan reporter s hv
  · exact ends_onFirst (TwoCarrier.updateInPlace p.settings) (s := (s, v)) hv
  rintro _ ⟨s, v⟩ hv
  exact .onSecond (.widenError _ (hstamped (.step k) s.field v rfl hv))

/-- Steps of a sweep from one of a given number on, all of which succeed, and the fields behind the
rounds of each of them. -/
inductive StepsTo (plan : Plan α) (reporter : Reporter ω) (p : Problem M α) :
    Nat → TwoCarrierState α × ω → List (List (NodeField α)) → TwoCarrierState α × ω → Prop
  | nil {k : Nat} (x : TwoCarrierState α × ω) : StepsTo plan reporter p k x [] x
  | cons {k : Nat} {x y z : TwoCarrierState α × ω} {fields : List (NodeField α)}
      {rounds : List (List (NodeField α))} (hstep : biasStep plan reporter p k x = .ok () y)
      (hrounds : StepRounds plan reporter p k x fields)
      (hrest : StepsTo plan reporter p (k + 1) y rounds z) :
      StepsTo plan reporter p k x (fields :: rounds) z

/-- **What some steps report.** -/
theorem recorded_biasSteps {count first : Nat} {x y : TwoCarrierState α × ω} {u : Unit}
    (h : biasSteps plan reporter p count first x = .ok u y) :
    ∃ rounds, StepsTo plan reporter p first x rounds y ∧ rounds.length = count ∧
      Recorded reporter (stepsEntries plan first rounds) x.2 y.2 := by
  induction count generalizing first x with
  | zero =>
    cases h
    exact ⟨[], .nil _, rfl, .nil _⟩
  | succ count ih =>
    obtain ⟨_, z, hstep, hrest⟩ := bind_eq_ok.1 h
    obtain ⟨fields, hfields, -, hrecord⟩ := recorded_biasStep hstep
    obtain ⟨rounds, hrounds, hcount, hrecords⟩ := ih hrest
    exact ⟨fields :: rounds, .cons hstep hfields hrounds, by rw [List.length_cons, hcount],
      hrecord.append hrecords⟩

/-- How many steps a plan has is nothing to a step. -/
theorem biasSteps_with (steps count first : Nat) :
    biasSteps { plan with steps } reporter p count first =
      biasSteps plan reporter p count first := by
  induction count generalizing first with
  | zero => rfl
  | succ count ih =>
    rw [biasSteps, biasSteps, ih]
    rfl

/-- Steps fail in one of them, behind others that succeed. -/
theorem biasSteps_eq_error {count first : Nat} {x z : TwoCarrierState α × ω} {e : NewtonError α}
    (h : biasSteps plan reporter p count first x = .error e z) :
    ∃ k y, k < count ∧ biasSteps plan reporter p k first x = .ok () y ∧
      biasSteps plan reporter p (k + 1) first x = .error e z ∧
      biasStep plan reporter p (first + k) y = .error e z := by
  induction count generalizing first x with
  | zero => cases h
  | succ count ih =>
    obtain hstep | ⟨_, y, hstep, hrest⟩ := bind_eq_error.1 h
    · exact ⟨0, x, by omega, rfl, bind_eq_error.2 (.inl hstep), hstep⟩
    · obtain ⟨k, z, hk, hbefore, hfails, hlast⟩ := ih hrest
      refine ⟨k + 1, z, by omega, ?_, ?_, ?_⟩
      · exact bind_eq_ok.2 ⟨(), y, hstep, hbefore⟩
      · exact bind_eq_error.2 (.inr ⟨(), y, hstep, hfails⟩)
      · rwa [show first + (k + 1) = first + 1 + k by omega]

end Steps

end Run

end CarrierTransport
