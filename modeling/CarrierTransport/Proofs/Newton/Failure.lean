import Mathlib
import CarrierTransport.Proofs.Newton.History

/-!
# What a failed phase leaves behind

A phase that fails does not touch the field. Of the three phases only the update writes to it, and
an update in place fails before its first write if at all (`TwoCarrier.Fitting.updateInPlace_eq`).
So a run that ends in an error, in whichever phase and after however many rounds, ends with the
field of the last update that was completed (`failed_phases_keep_field`).

To say which updates a run has completed, the run is made with a list beside it in which every
completed update leaves its field (`NewtonStep.recorded`).
-/

namespace CarrierTransport.Newton

open LinearSystem (SolveObserver)
open Physics (MaterialModel)
open State (NodeField)
open Transition

namespace NewtonStep

variable {α σ ω : Type}

/-! ### Recorded runs -/

/-- A transition beside which nothing happens to a list. -/
def beside {τ : Type} (phase : EStateM (NewtonError α) (σ × ω) Unit) :
    EStateM (NewtonError α) (σ × ω × τ) Unit :=
  zoom (fun x => (x.1, x.2.1)) (fun y x => (y.1, y.2, x.2.2)) phase

/-- An iteration that keeps a list of the fields that its updates have led to. -/
def recorded (step : NewtonStep α σ ω) : NewtonStep α σ (ω × List (NodeField α)) where
  setup := beside step.setup
  solve := beside step.solve
  update := do
    beside step.update
    modify fun x => (x.1, x.2.1, x.2.2 ++ [step.field x.1])
  isConverged := step.isConverged
  maximumIterations := step.maximumIterations
  field := step.field

/-- An observer that sees nothing of a list. -/
def Observer.beside {τ : Type} (observe : Observer α ω) : Observer α (ω × τ) :=
  fun number field => onFirst (observe number field)

/-- The fields that the completed updates of a run have led to, in their order. -/
def updates (step : NewtonStep α σ ω) (observe : Observer α ω) (s : σ) (w : ω) :
    List (NodeField α) :=
  (left (step.recorded.run observe.beside (s, w, []))).2.2

/-- A state with a list is that state. -/
def Records (x : σ × ω) (y : σ × ω × List (NodeField α)) : Prop :=
  x = (y.1, y.2.1)

variable {step : NewtonStep α σ ω} {observe : Observer α ω}

theorem beside_alike (phase : EStateM (NewtonError α) (σ × ω) Unit) {x : σ × ω}
    {y : σ × ω × List (NodeField α)} (h : Records x y) :
    EndAlike Records Records (phase x) (beside phase y) := by
  obtain rfl : x = _ := h
  rw [beside, zoom]
  cases phase (y.1, y.2.1) with
  | ok b z => exact .ok b rfl
  | error e z => exact .error e rfl

theorem recorded_round_alike (number : Nat) {x : σ × ω} {y : σ × ω × List (NodeField α)}
    (h : Records x y) :
    EndAlike Records Records (step.round observe number x)
      (step.recorded.round observe.beside number y) := by
  refine (beside_alike step.solve h).bind fun _ x y h => ?_
  have hupdate : EndAlike Records Records (step.update x) (step.recorded.update y) := by
    change EndAlike _ _ _ (EStateM.bind (beside step.update) _ y)
    rw [EStateM.bind]
    generalize hx : step.update x = r
    have hphase := beside_alike step.update h
    rw [hx] at hphase
    generalize beside step.update y = r' at hphase
    cases hphase with
    | ok b h => exact .ok b h
    | error e h => exact .error e h
  refine hupdate.bind fun _ x y h => ?_
  refine (beside_alike step.setup h).bind fun _ x y h => ?_
  obtain rfl : x = _ := h
  change EndAlike _ _ (onSecond (observe number (step.field y.1)) (y.1, y.2.1))
    (onSecond (onFirst (observe number (step.field y.1))) y)
  rw [onSecond, onSecond, onFirst]
  cases observe number (step.field y.1) y.2.1 with
  | ok b w => exact .ok b rfl
  | error e w => exact .error e rfl

theorem recorded_run_alike (step : NewtonStep α σ ω) (observe : Observer α ω) (s : σ) (w : ω) :
    EndAlike Records Records (step.run observe (s, w))
      (step.recorded.run observe.beside (s, w, [])) := by
  have hstart : Records (s, w) (s, w, ([] : List (NodeField α))) := rfl
  refine run_alike Records (beside_alike step.setup hstart) ?_ ?_ ?_ rfl
  · exact fun number x y h => recorded_round_alike number h
  · rintro _ y rfl
    exact ⟨rfl, rfl⟩
  · exact fun x y h => h

/-! ### Phases that keep the field -/

/-- The phases of a round. -/
def phases (step : NewtonStep α σ ω) : List (EStateM (NewtonError α) (σ × ω) Unit) :=
  [step.setup, step.solve, step.update]

/-- Phases that, from states of a kind, write to the field only in an update that succeeds. -/
structure KeepsField (step : NewtonStep α σ ω) (ready : σ → Prop) : Prop where
  setup : ∀ s w, ready s →
    Ends (fun _ x => ready x.1 ∧ step.field x.1 = step.field s)
      (fun _ x => ready x.1 ∧ step.field x.1 = step.field s) (step.setup (s, w))
  solve : ∀ s w, ready s →
    Ends (fun _ x => ready x.1 ∧ step.field x.1 = step.field s)
      (fun _ x => ready x.1 ∧ step.field x.1 = step.field s) (step.solve (s, w))
  update : ∀ s w, ready s →
    Ends (fun _ x => ready x.1) (fun _ x => ready x.1 ∧ x = (s, w)) (step.update (s, w))

/-- The field of a state is the last of a list, or a given one if the list is empty. -/
def LastOf (step : NewtonStep α σ ω) (field : NodeField α) (x : σ × ω × List (NodeField α)) :
    Prop :=
  step.field x.1 = x.2.2.getLast?.getD field

variable {ready : σ → Prop} {field : NodeField α}

theorem beside_ends {phase : EStateM (NewtonError α) (σ × ω) Unit}
    {x : σ × ω × List (NodeField α)}
    (h : Ends (fun _ y => ready y.1 ∧ step.field y.1 = step.field x.1)
      (fun _ y => ready y.1 ∧ step.field y.1 = step.field x.1) (phase (x.1, x.2.1)))
    (hx : step.LastOf field x) :
    Ends (fun _ y => ready y.1 ∧ step.LastOf field y) (fun _ y => ready y.1 ∧ step.LastOf field y)
      (beside phase x) := by
  refine .zoom (h.mono ?_ ?_)
  · exact fun _ y hy => ⟨hy.1, hy.2.trans hx⟩
  · exact fun _ y hy => ⟨hy.1, hy.2.trans hx⟩

theorem KeepsField.recorded_round (h : step.KeepsField ready) (observe : Observer α ω)
    (number : Nat) (x : σ × ω × List (NodeField α)) (hx : ready x.1 ∧ step.LastOf field x) :
    Ends (fun _ y => ready y.1 ∧ step.LastOf field y) (fun _ y => ready y.1 ∧ step.LastOf field y)
      (step.recorded.round observe.beside number x) := by
  refine (beside_ends (h.solve _ _ hx.1) hx.2).bind fun _ x hx => ?_
  have hupdate : Ends (fun _ y => ready y.1 ∧ step.LastOf field y)
      (fun _ y => ready y.1 ∧ step.LastOf field y) (step.recorded.update x) := by
    have hbeside : Ends (fun _ y => ready y.1) (fun _ y => ready y.1 ∧ step.LastOf field y)
        (beside step.update x) := by
      refine .zoom ((h.update _ _ hx.1).mono ?_ ?_)
      · exact fun _ y hy => hy
      · rintro _ _ ⟨hy, rfl⟩
        exact ⟨hy, hx.2⟩
    refine hbeside.bind fun _ y hy => .ok ⟨hy, ?_⟩
    simp [LastOf]
  refine hupdate.bind fun _ x hx => ?_
  refine (beside_ends (h.setup _ _ hx.1) hx.2).bind fun _ x hx => ?_
  obtain ⟨s, w, fields⟩ := x
  change Ends _ _ (onSecond (onFirst (observe number (step.field s))) (s, w, fields))
  refine .onSecond ((ends_onFirst (Q := (· = fields)) _ rfl).mono ?_ ?_)
  · rintro _ ⟨w, _⟩ rfl
    exact hx
  · rintro _ ⟨w, _⟩ rfl
    exact hx

/-- The field at the end of a run is that of the last completed update. -/
theorem KeepsField.field_run (h : step.KeepsField ready) (observe : Observer α ω) {s : σ}
    (hs : ready s) (w : ω) :
    step.field (left (step.run observe (s, w))).1 =
      (step.updates observe s w).getLast?.getD (step.field s) := by
  have hsetup : Ends (fun _ y => ready y.1 ∧ step.LastOf (step.field s) y)
      (fun _ y => ready y.1 ∧ step.LastOf (step.field s) y)
      (step.recorded.setup (s, w, [])) :=
    beside_ends (h.setup s w hs) rfl
  have hrun : Ends (fun _ y => ready y.1 ∧ step.LastOf (step.field s) y)
      (fun _ y => ready y.1 ∧ step.LastOf (step.field s) y)
      (step.recorded.run observe.beside (s, w, [])) :=
    run_ends hsetup (fun number x hx => h.recorded_round observe number x hx) fun _ x hx => hx
  have hrecords := (recorded_run_alike step observe s w).left
  rw [show left (step.run observe (s, w)) = _ from hrecords]
  exact hrun.left.2

/-- What every update that succeeds keeps of the field, whole runs keep, however they end. -/
theorem KeepsField.run_keeps (h : step.KeepsField ready) {P : NodeField α → Prop}
    (hupdate : ∀ s w t, ready s → P (step.field s) → step.update (s, w) = .ok () t →
      P (step.field t.1))
    (observe : Observer α ω) {s : σ} (hs : ready s) (hfield : P (step.field s)) (w : ω) :
    P (step.field (left (step.run observe (s, w))).1) := by
  have hkeeps : step.Keeps (fun s => ready s ∧ P (step.field s)) (fun _ => True) (fun _ => True)
      fun _ => True := by
    constructor
    case setup =>
      intro s w hs _
      refine (h.setup s w hs.1).mono ?_ ?_
      · exact fun _ x hx => ⟨⟨⟨hx.1, hx.2.symm ▸ hs.2⟩, trivial⟩, trivial⟩
      · exact fun _ x hx => ⟨⟨hx.1, hx.2.symm ▸ hs.2⟩, trivial⟩
    case solve =>
      intro s w hs _
      refine (h.solve s w hs.1.1).mono ?_ ?_
      · exact fun _ x hx => ⟨⟨⟨hx.1, hx.2.symm ▸ hs.1.2⟩, trivial⟩, trivial⟩
      · exact fun _ x hx => ⟨⟨hx.1, hx.2.symm ▸ hs.1.2⟩, trivial⟩
    case update =>
      intro s w hs _
      have hends := h.update s w hs.1.1
      cases hr : step.update (s, w) with
      | ok u t =>
        rw [hr] at hends
        cases hends with
        | ok ht => exact .ok ⟨⟨ht, hupdate s w t hs.1.1 hs.1.2 hr⟩, trivial⟩
      | error e t =>
        rw [hr] at hends
        cases hends with
        | error ht =>
          obtain ⟨ht, rfl⟩ := ht
          exact .error ⟨⟨ht, hs.1.2⟩, trivial⟩
  have hobserve : ∀ number s w, ready s ∧ P (step.field s) → True →
      Ends (fun _ _ => True) (fun _ _ => True) (observe number (step.field s) w) :=
    fun number s w _ _ => ends_of_forall _ (fun _ _ => trivial) fun _ _ => trivial
  exact (hkeeps.run observe hobserve ⟨hs, hfield⟩ trivial).left.1.2

/-- Phases that fail without a trace in the field, and so do whole runs. -/
structure FailsCleanly (step : NewtonStep α σ ω) (s : σ) : Prop where
  /-- A phase that fails leaves the field as it was. -/
  phase : ∀ phase ∈ step.phases, ∀ w e t, phase (s, w) = .error e t →
    step.field t.1 = step.field s
  /-- An update that fails leaves everything as it was. -/
  update : ∀ w e t, step.update (s, w) = .error e t → t = (s, w)
  /-- A run that is recorded is the run. -/
  recorded : ∀ observe w, EndAlike Records Records (step.run observe (s, w))
    (step.recorded.run observe.beside (s, w, []))
  /-- A run, however it ends, ends with the field of its last completed update. -/
  run : ∀ observe w, step.field (left (step.run observe (s, w))).1 =
    (step.updates observe s w).getLast?.getD (step.field s)

theorem KeepsField.failsCleanly (h : step.KeepsField ready) {s : σ} (hs : ready s) :
    step.FailsCleanly s := by
  have hupdate : ∀ w e t, step.update (s, w) = .error e t → t = (s, w) := by
    intro w e t he
    have hends := h.update s w hs
    rw [he] at hends
    cases hends with
    | error hfailed => exact hfailed.2
  constructor
  case phase =>
    intro phase hphase w e t he
    simp only [phases, List.mem_cons, List.not_mem_nil, or_false] at hphase
    rcases hphase with rfl | rfl | rfl
    · have hends := h.setup s w hs
      rw [he] at hends
      cases hends with
      | error hfailed => exact hfailed.2
    · have hends := h.solve s w hs
      rw [he] at hends
      cases hends with
      | error hfailed => exact hfailed.2
    · rw [hupdate w e t he]
  case update => exact hupdate
  case recorded => exact fun observe w => recorded_run_alike step observe s w
  case run => exact fun observe w => h.field_run observe hs w

end NewtonStep

/-! ### Both iterations -/

section Iterations

variable {M α ω : Type} [Scalar α] [MaterialModel M α] [BEq M]

theorem Poisson.field_setup (p : Problem M α) (s : PoissonState α) :
    Ends (fun _ t => t.field = s.field) (fun _ t => t.field = s.field) (setup p s) := by
  rw [setup_eq]
  split
  · exact .error rfl
  · split
    · exact .error rfl
    · exact .ok rfl

theorem Poisson.keepsField (p : Problem M α) :
    (step p : NewtonStep α (PoissonState α) ω).KeepsField fun _ => True := by
  constructor
  case setup =>
    intro s w _
    refine .onFirst ((field_setup p s).mono ?_ ?_)
    · exact fun _ t ht => ⟨trivial, ht⟩
    · exact fun _ t ht => ⟨trivial, ht⟩
  case solve =>
    intro s w _
    refine .onFirst (.widenError _ (.zoom (ends_of_forall _ ?_ ?_)))
    · exact fun _ t => ⟨trivial, rfl⟩
    · exact fun _ t => ⟨trivial, rfl⟩
  case update => exact fun s w _ => .ok trivial

theorem TwoCarrier.field_setup (p : Problem M α) (s : TwoCarrierState α) :
    Ends (fun _ t => t.field = s.field) (fun _ t => t.field = s.field) (setup p s) := by
  rw [setup_eq]
  split
  · exact .error rfl
  · split
    · exact .error rfl
    · exact .ok rfl

theorem TwoCarrier.keepsField (p : Problem M α) (observer : SolveObserver α ω) :
    (step p observer).KeepsField (Shaped p) := by
  constructor
  case setup =>
    intro s w hs
    have hshaped := (setup_alike hs.alike).mono (fun _ _ h => h.1.left) fun _ _ h => h.left
    exact .onFirst (hshaped.ends.and (field_setup p s))
  case solve =>
    intro s w hs
    have hshaped := (solve_alike observer hs.assembled w).mono (fun _ _ h => h.1.left)
      fun _ _ h => h.1.left
    refine hshaped.ends.and (.widenError _ (.zoom (ends_of_forall _ ?_ ?_)))
    · exact fun _ t => rfl
    · exact fun _ t => rfl
  case update =>
    intro s w hs
    have hshaped := (update_alike p.settings hs.assembled).mono (fun _ _ h => h.1.left)
      fun _ _ h => h.left
    have hends := hshaped.ends
    rw [← hs.fitting.updateInPlace_eq] at hends
    refine .onFirst ?_
    cases hr : updateInPlace p.settings s with
    | ok b t =>
      rw [hr] at hends
      cases hends with
      | ok ht => exact .ok ht
    | error e t =>
      obtain ⟨rfl, -⟩ := hs.fitting.of_updateInPlace_error hr
      exact .error ⟨hs, rfl⟩

/-- **A phase that fails does not touch the field.** In every state of an equilibrium iteration and
in every state that calls of a two-carrier solver lead to, a phase that fails leaves the field as it
was, and an update that fails everything. So a run that ends in an error, whatever its observer
does, ends with the field of the last update that was completed. -/
theorem failed_phases_keep_field (p : Problem M α) :
    (∀ s, (Poisson.step p : NewtonStep α _ ω).FailsCleanly s) ∧
      ∀ s, TwoCarrier.Reachable p s → ∀ observer : SolveObserver α ω,
        (TwoCarrier.step p observer).FailsCleanly s :=
  ⟨fun _ => (Poisson.keepsField p).failsCleanly trivial,
    fun _ hs observer => (TwoCarrier.keepsField p observer).failsCleanly hs.shaped⟩

end Iterations

/-- A slab of silicon whose densities are below their floor and whose tolerances nothing meets. -/
def starvedSlab : Problem Physics.Material Float where
  mesh := slab.mesh
  table := { regions := #[⟨.silicon, 0, 0⟩], temperature := 300 }
  settings := { Settings.ofTolerances 0 0 2 with densityFloor := 2 }

/-- Whether a run fails with an error of a kind after the given number of updates. -/
def failsAfter {σ : Type} (start : Except (BuildError Float) σ) (step : NewtonStep Float σ Unit)
    (kind : NewtonError Float → Bool) (count : Nat) : Bool :=
  match start with
  | .error _ => false
  | .ok s => match step.run .silent (s, ()) with
    | .ok _ _ => false
    | .error e _ => kind e && (step.updates .silent s ()).length = count

theorem exists_of_failsAfter {σ : Type} {start : Except (BuildError Float) σ}
    {step : NewtonStep Float σ Unit} {kind : NewtonError Float → Bool} {count : Nat}
    (h : failsAfter start step kind count = true) :
    ∃ s e t, start = .ok s ∧ step.run .silent (s, ()) = .error e t ∧ kind e = true ∧
      (step.updates .silent s ()).length = count := by
  unfold failsAfter at h
  split at h
  · cases h
  · next s =>
    split at h
    · cases h
    · next e t hrun =>
      rw [Bool.and_eq_true, decide_eq_true_eq] at h
      exact ⟨s, e, t, rfl, hrun, h⟩

/-- A run that spends its budget ends with the field of its last update, a run whose first update
finds no damping factor with the field it started from. -/
theorem failed_phases_keep_field_starvedSlab :
    (∃ s e t field, Poisson.start starvedSlab neutralField = .ok s ∧
      (Poisson.step starvedSlab).run .silent (s, ()) = .error e t ∧
      e matches .iterationBudget _ ∧
      ((Poisson.step starvedSlab).updates .silent s ())[1]? = some field ∧ t.1.field = field) ∧
    ∃ s e t, TwoCarrier.start starvedSlab neutralField = .ok s ∧
      (TwoCarrier.step starvedSlab .silent).run .silent (s, ()) = .error e t ∧
      e matches .dampingExhausted _ ∧ t.1.field = s.field := by
  have hpoisson : failsAfter (Poisson.start starvedSlab neutralField) (Poisson.step starvedSlab)
      (· matches .iterationBudget _) 2 = true := by
    decide +kernel
  have htwoCarrier : failsAfter (TwoCarrier.start starvedSlab neutralField)
      (TwoCarrier.step starvedSlab .silent) (· matches .dampingExhausted _) 0 = true := by
    decide +kernel
  constructor
  · obtain ⟨s, e, t, hs, hrun, hkind, hcount⟩ := exists_of_failsAfter hpoisson
    have hfield := ((failed_phases_keep_field starvedSlab).1 s).run .silent ()
    rw [hrun, List.getLast?_eq_getElem?, hcount] at hfield
    have hlast := List.getElem?_eq_getElem (hcount ▸ Nat.one_lt_two)
    rw [hlast] at hfield
    exact ⟨s, e, t, _, hs, hrun, hkind, hlast, hfield⟩
  · obtain ⟨s, e, t, hs, hrun, hkind, hcount⟩ := exists_of_failsAfter htwoCarrier
    have hclean := (failed_phases_keep_field starvedSlab).2 s (.start hs)
      (.silent : SolveObserver Float Unit)
    have hfield := hclean.run .silent ()
    rw [hrun, List.eq_nil_of_length_eq_zero hcount] at hfield
    exact ⟨s, e, t, hs, hrun, hkind, hfield⟩

end CarrierTransport.Newton
