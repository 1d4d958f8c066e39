import Mathlib
import CarrierTransport.Proofs.Newton.Failure

/-!
# The protocol of an iteration

Whatever the phases of an iteration do, the order of its calls is fixed: a setup, then round after
round a solve, an update, a setup and a look of the observer (`NewtonStep.schedule`). A run makes
the calls of this schedule one by one. It ends at the first that fails, behind the first round that
leaves a converged state, or with the last round of its budget (`NewtonStep.Ending`), and there is
no other way for it to end (`NewtonStep.run_follows_schedule`).

What a run has called is read off a run beside which every call leaves its name in a list
(`NewtonStep.traced`).
-/

namespace CarrierTransport.Newton.NewtonStep

open Transition

/-! ### Calls -/

/-- A call that an iteration makes. -/
inductive Call where
  | setup
  | solve
  | update
  /-- Shows the observer the field after the round of this number. -/
  | observe (number : Nat)
deriving DecidableEq, Repr

/-- The number of the round that an observer is shown. -/
def Call.shown? : Call → Option Nat
  | .observe number => some number
  | _ => none

def roundCalls (number : Nat) : List Call :=
  [.solve, .update, .setup, .observe number]

/-- The calls of so many whole rounds, with the setup before them. -/
def schedule (rounds : Nat) : List Call :=
  .setup :: (List.range' 1 rounds).flatMap roundCalls

theorem schedule_succ (rounds : Nat) :
    schedule (rounds + 1) = schedule rounds ++ roundCalls (rounds + 1) := by
  simp [schedule, List.range'_concat, Nat.add_comm 1]

theorem schedule_mono {rounds rounds' : Nat} (h : rounds ≤ rounds') :
    schedule rounds <+: schedule rounds' := by
  induction rounds', h using Nat.le_induction with
  | base => exact List.prefix_rfl
  | succ rounds' _ ih =>
    rw [schedule_succ]
    exact ih.trans (List.prefix_append _ _)

theorem length_schedule (rounds : Nat) : (schedule rounds).length = 4 * rounds + 1 := by
  induction rounds with
  | zero => rfl
  | succ rounds ih =>
    rw [schedule_succ, List.length_append, ih]
    simp [roundCalls]
    omega

/-- An observer is shown the rounds from the first on, each once. -/
theorem filterMap_schedule (rounds : Nat) :
    (schedule rounds).filterMap Call.shown? = List.range' 1 rounds := by
  induction rounds with
  | zero => rfl
  | succ rounds ih =>
    rw [schedule_succ, List.filterMap_append, ih, List.range'_concat, Nat.one_mul,
      Nat.add_comm 1]
    rfl

/-! ### Making calls -/

section Perform

variable {α σ ω : Type} (step : NewtonStep α σ ω) (observe : Observer α ω)

def perform : Call → EStateM (NewtonError α) (σ × ω) Unit
  | .setup => step.setup
  | .solve => step.solve
  | .update => step.update
  | .observe number => fun x => onSecond (observe number (step.field x.1)) x

/-- Makes some calls in order; the first that fails is the last that is made. -/
def performAll : List Call → EStateM (NewtonError α) (σ × ω) Unit
  | [] => pure ()
  | call :: calls => do
    step.perform observe call
    performAll calls

/-- At least one round is made. -/
def budget : Nat :=
  max 1 step.maximumIterations

end Perform

section Runs

variable {α σ ω : Type} {step : NewtonStep α σ ω} {observe : Observer α ω}
  {calls calls' : List Call} {x y t : σ × ω} {e : NewtonError α} {u : Unit}

theorem performAll_append (calls calls' : List Call) (x : σ × ω) :
    step.performAll observe (calls ++ calls') x =
      (step.performAll observe calls >>= fun _ => step.performAll observe calls') x := by
  induction calls generalizing x with
  | nil => rfl
  | cons call calls ih =>
    change EStateM.bind _ _ x = EStateM.bind (EStateM.bind _ _) _ x
    simp only [EStateM.bind]
    cases step.perform observe call x with
    | ok u y => exact ih y
    | error e y => rfl

theorem performAll_append_of_ok (h : step.performAll observe calls x = .ok u y) :
    step.performAll observe (calls ++ calls') x = step.performAll observe calls' y := by
  rw [performAll_append]
  exact bind_of_ok h

/-- What begins calls that all succeed succeeds. -/
theorem exists_performAll_of_begins (hbegins : calls <+: calls')
    (h : step.performAll observe calls' x = .ok u t) :
    ∃ y, step.performAll observe calls x = .ok () y := by
  obtain ⟨rest, rfl⟩ := hbegins
  rw [performAll_append] at h
  obtain ⟨_, y, hy, -⟩ := bind_eq_ok.1 h
  exact ⟨y, hy⟩

/-- A call fails at the end of some that succeed, and what comes after it is not made. -/
def FailsAt (step : NewtonStep α σ ω) (observe : Observer α ω) (x : σ × ω)
    (before : List Call) (call : Call) (e : NewtonError α) (t : σ × ω) : Prop :=
  ∃ y, step.performAll observe before x = .ok () y ∧ step.perform observe call y = .error e t

theorem FailsAt.performAll_eq {before : List Call} {call : Call}
    (h : step.FailsAt observe x before call e t) (after : List Call) :
    step.performAll observe (before ++ call :: after) x = .error e t := by
  obtain ⟨y, hbefore, hcall⟩ := h
  rw [performAll_append_of_ok hbefore]
  exact bind_of_error hcall

/-- Calls fail at one place. -/
theorem FailsAt.unique {before before' : List Call} {call call' : Call} {e' : NewtonError α}
    {t' : σ × ω} (h : step.FailsAt observe x before call e t)
    (h' : step.FailsAt observe x before' call' e' t') (hbegins : before ++ [call] <+: calls)
    (hbegins' : before' ++ [call'] <+: calls) :
    before = before' ∧ call = call' ∧ e = e' ∧ t = t' := by
  -- of two failures the one with fewer calls before it would end the others before they are made
  have hlength : ∀ {b b' : List Call} {c c' : Call} {e e' : NewtonError α} {t t' : σ × ω},
      step.FailsAt observe x b c e t → step.FailsAt observe x b' c' e' t' →
      b ++ [c] <+: calls → b' ++ [c'] <+: calls → b'.length ≤ b.length := by
    intro b b' c c' e e' t t' h h' hb hb'
    by_contra hlt
    have hwithin : b ++ [c] <+: b' := by
      refine List.prefix_of_prefix_length_le hb ((List.prefix_append _ _).trans hb') ?_
      simp
      omega
    obtain ⟨y, hy, -⟩ := h'
    obtain ⟨z, hz⟩ := exists_performAll_of_begins hwithin hy
    rw [h.performAll_eq []] at hz
    cases hz
  have hsame : before ++ [call] = before' ++ [call'] := by
    obtain ⟨rest, rfl⟩ := hbegins
    refine (List.append_inj hbegins'.choose_spec ?_).1.symm
    have hle := hlength h h' (List.prefix_append _ _) hbegins'
    have hge := hlength h' h hbegins' (List.prefix_append _ _)
    simp
    omega
  obtain ⟨rfl, hcall⟩ := List.append_inj' hsame rfl
  cases hcall
  have hfails := (h.performAll_eq []).symm.trans (h'.performAll_eq [])
  cases hfails
  exact ⟨rfl, rfl, rfl, rfl⟩

/-! ### How a run ends -/

/-- A round of the schedule is completed and the state behind it is not converged. -/
def Unconverged (step : NewtonStep α σ ω) (observe : Observer α ω) (x : σ × ω) (round : Nat) :
    Prop :=
  ∃ t, step.performAll observe (schedule round) x = .ok () t ∧ step.isConverged t.1 = false

/-- The result of a run that starts from a state, and the calls that it has made. -/
inductive Ending (step : NewtonStep α σ ω) (observe : Observer α ω) (x : σ × ω) :
    EStateM.Result (NewtonError α) (σ × ω) Nat → List Call → Prop
  /-- All calls succeed up to the first round of the budget that leaves a converged state. -/
  | converged {round : Nat} {t : σ × ω} (hfirst : 1 ≤ round) (hbudget : round ≤ step.budget)
      (hcalls : step.performAll observe (schedule round) x = .ok () t)
      (hconverged : step.isConverged t.1 = true)
      (hbefore : ∀ j, 1 ≤ j → j < round → step.Unconverged observe x j) :
      Ending step observe x (.ok round t) (schedule round)
  /-- All calls of the budget succeed, and no round of it leaves a converged state. -/
  | exhausted {t : σ × ω} (hcalls : step.performAll observe (schedule step.budget) x = .ok () t)
      (hbefore : ∀ j, 1 ≤ j → j ≤ step.budget → step.Unconverged observe x j) :
      Ending step observe x (.error (.iterationBudget step.budget) t) (schedule step.budget)
  /-- A call of the budget fails, and no round completed before it leaves a converged state. -/
  | failed {before : List Call} {call : Call} {e : NewtonError α} {t : σ × ω}
      (hbudget : before ++ [call] <+: schedule step.budget)
      (hfails : step.FailsAt observe x before call e t)
      (hbefore : ∀ j, 1 ≤ j → schedule j <+: before → step.Unconverged observe x j) :
      Ending step observe x (.error e t) (before ++ [call])

theorem Unconverged.absurd {round : Nat} (h : step.Unconverged observe x round)
    (hcalls : step.performAll observe (schedule round) x = .ok u t)
    (hconverged : step.isConverged t.1 = true) : False := by
  obtain ⟨t', ht', hopen⟩ := h
  rw [hcalls] at ht'
  cases ht'
  rw [hconverged] at hopen
  cases hopen

/-- A call that fails does so behind every round that is completed. -/
theorem FailsAt.behind_schedule {before : List Call} {call : Call} {round : Nat}
    (h : step.FailsAt observe x before call e t)
    (hbudget : before ++ [call] <+: schedule step.budget) (hround : round ≤ step.budget)
    (hcalls : step.performAll observe (schedule round) x = .ok u y) :
    schedule round <+: before := by
  have hwithin := NewtonStep.schedule_mono hround
  refine List.prefix_of_prefix_length_le hwithin ((List.prefix_append _ _).trans hbudget) ?_
  by_contra hlt
  have hfailed : before ++ [call] <+: schedule round := by
    refine List.prefix_of_prefix_length_le hbudget hwithin ?_
    simp
    omega
  obtain ⟨z, hz⟩ := exists_performAll_of_begins hfailed hcalls
  rw [h.performAll_eq []] at hz
  cases hz

/-- A run ends in one way. -/
theorem Ending.unique {r r' : EStateM.Result (NewtonError α) (σ × ω) Nat}
    (h : step.Ending observe x r calls) (h' : step.Ending observe x r' calls') :
    r = r' ∧ calls = calls' := by
  have hfirst : 1 ≤ step.budget := le_max_left _ _
  cases h with
  | converged hround hbudget hcalls hconverged hbefore =>
    cases h' with
    | converged hround' hbudget' hcalls' hconverged' hbefore' =>
      rename_i k t k' t'
      rcases lt_trichotomy k k' with hlt | rfl | hlt
      · exact ((hbefore' k hround hlt).absurd hcalls hconverged).elim
      · rw [hcalls] at hcalls'
        cases hcalls'
        exact ⟨rfl, rfl⟩
      · exact ((hbefore k' hround' hlt).absurd hcalls' hconverged').elim
    | exhausted hcalls' hbefore' =>
      exact ((hbefore' _ hround hbudget).absurd hcalls hconverged).elim
    | failed hbudget' hfails hbefore' =>
      have hbegins := hfails.behind_schedule hbudget' hbudget hcalls
      exact ((hbefore' _ hround hbegins).absurd hcalls hconverged).elim
  | exhausted hcalls hbefore =>
    cases h' with
    | converged hround' hbudget' hcalls' hconverged' hbefore' =>
      exact ((hbefore _ hround' hbudget').absurd hcalls' hconverged').elim
    | exhausted hcalls' hbefore' =>
      rw [hcalls] at hcalls'
      cases hcalls'
      exact ⟨rfl, rfl⟩
    | failed hbudget' hfails hbefore' =>
      obtain ⟨y, hy⟩ := exists_performAll_of_begins hbudget' hcalls
      rw [hfails.performAll_eq []] at hy
      cases hy
  | failed hbudget hfails hbefore =>
    cases h' with
    | converged hround' hbudget' hcalls' hconverged' hbefore' =>
      have hbegins := hfails.behind_schedule hbudget hbudget' hcalls'
      exact ((hbefore _ hround' hbegins).absurd hcalls' hconverged').elim
    | exhausted hcalls' hbefore' =>
      obtain ⟨y, hy⟩ := exists_performAll_of_begins hbudget hcalls'
      rw [hfails.performAll_eq []] at hy
      cases hy
    | failed hbudget' hfails' hbefore' =>
      obtain ⟨rfl, rfl, rfl, rfl⟩ := hfails.unique hfails' hbudget hbudget'
      exact ⟨rfl, rfl⟩

/-! ### Traced runs -/

/-- Notes a call in a list before it is made. -/
def note (call : Call) (phase : EStateM (NewtonError α) (σ × ω) Unit) :
    EStateM (NewtonError α) (σ × ω × List Call) Unit := do
  modify fun x => (x.1, x.2.1, x.2.2 ++ [call])
  beside phase

/-- An iteration that keeps a list of the calls that are made. -/
def traced (step : NewtonStep α σ ω) : NewtonStep α σ (ω × List Call) where
  setup := note .setup step.setup
  solve := note .solve step.solve
  update := note .update step.update
  isConverged := step.isConverged
  maximumIterations := step.maximumIterations
  field := step.field

/-- An observer that notes in a list when it is called. -/
def Observer.traced (observe : Observer α ω) : Observer α (ω × List Call) := fun number field => do
  modify fun x => (x.1, x.2 ++ [.observe number])
  onFirst (observe number field)

/-- The calls that a run makes, in their order. -/
def trace (step : NewtonStep α σ ω) (observe : Observer α ω) (s : σ) (w : ω) : List Call :=
  (left (step.traced.run observe.traced (s, w, []))).2.2

/-- A result with a list beside its state. -/
def withLog {β τ : Type} (log : τ) :
    EStateM.Result (NewtonError α) (σ × ω) β → EStateM.Result (NewtonError α) (σ × ω × τ) β
  | .ok b x => .ok b (x.1, x.2, log)
  | .error e x => .error e (x.1, x.2, log)

theorem perform_traced (step : NewtonStep α σ ω) (observe : Observer α ω) (call : Call) (x : σ × ω)
    (log : List Call) :
    step.traced.perform observe.traced call (x.1, x.2, log) =
      withLog (log ++ [call]) (step.perform observe call x) := by
  have hnote : ∀ phase : EStateM (NewtonError α) (σ × ω) Unit,
      note call phase (x.1, x.2, log) = withLog (log ++ [call]) (phase x) := by
    intro phase
    change beside phase (x.1, x.2, log ++ [call]) = _
    rw [beside, zoom]
    cases phase x <;> rfl
  cases call with
  | setup => exact hnote step.setup
  | solve => exact hnote step.solve
  | update => exact hnote step.update
  | observe number =>
    obtain ⟨s, w⟩ := x
    have hobserve : observe.traced number (step.field s) (w, log) =
        onFirst (observe number (step.field s)) (w, log ++ [.observe number]) := rfl
    change onSecond (observe.traced number (step.field s)) (s, w, log) =
      withLog _ (onSecond (observe number (step.field s)) (s, w))
    simp only [onSecond, hobserve, onFirst]
    cases observe number (step.field s) w <;> rfl

/-- Calls that are logged are made until one fails. -/
theorem performAll_cases (step : NewtonStep α σ ω) (observe : Observer α ω) (calls : List Call)
    (x : σ × ω) (log : List Call) :
    (∃ t, step.performAll observe calls x = .ok () t ∧
      step.traced.performAll observe.traced calls (x.1, x.2, log) =
        .ok () (t.1, t.2, log ++ calls)) ∨
    ∃ before call after e t, calls = before ++ call :: after ∧
      step.FailsAt observe x before call e t ∧
      step.traced.performAll observe.traced calls (x.1, x.2, log) =
        .error e (t.1, t.2, log ++ (before ++ [call])) := by
  induction calls generalizing x log with
  | nil => exact .inl ⟨x, rfl, by rw [List.append_nil]; rfl⟩
  | cons call calls ih =>
    have htraced := perform_traced step observe call x log
    cases hcall : step.perform observe call x with
    | error e t =>
      rw [hcall] at htraced
      exact .inr ⟨[], call, calls, e, t, rfl, ⟨x, rfl, hcall⟩, bind_of_error htraced⟩
    | ok u y =>
      rw [hcall] at htraced
      have hnext : step.performAll observe (call :: calls) x = step.performAll observe calls y :=
        bind_of_ok hcall
      have hnext' : step.traced.performAll observe.traced (call :: calls) (x.1, x.2, log) =
          step.traced.performAll observe.traced calls (y.1, y.2, log ++ [call]) :=
        bind_of_ok htraced
      rw [hnext, hnext']
      obtain ⟨t, ht, ht'⟩ | ⟨before, last, after, e, t, rfl, hfails, ht⟩ := ih y (log ++ [call])
      · refine .inl ⟨t, ht, ht'.trans ?_⟩
        rw [List.append_assoc, List.singleton_append]
      · obtain ⟨z, hz, hlast⟩ := hfails
        refine .inr ⟨call :: before, last, after, e, t, rfl, ⟨z, ?_, hlast⟩, ht.trans ?_⟩
        · exact (bind_of_ok hcall).trans hz
        · rw [List.append_assoc, List.singleton_append, List.cons_append]

/-- A round makes the calls of a round. -/
theorem round_eq_performAll (step : NewtonStep α σ ω) (observe : Observer α ω) (number : Nat)
    (x : σ × ω) :
    step.round observe number x = step.performAll observe (roundCalls number) x := by
  change EStateM.bind step.solve _ x = EStateM.bind step.solve _ x
  rw [EStateM.bind, EStateM.bind]
  cases step.solve x with
  | error e y => rfl
  | ok _ y =>
    change EStateM.bind step.update _ y = EStateM.bind step.update _ y
    rw [EStateM.bind, EStateM.bind]
    cases step.update y with
    | error e y => rfl
    | ok _ y =>
      change EStateM.bind step.setup _ y = EStateM.bind step.setup _ y
      rw [EStateM.bind, EStateM.bind]
      cases step.setup y with
      | error e y => rfl
      | ok _ y =>
        change step.perform observe (.observe number) y = EStateM.bind (step.perform observe _) _ y
        rw [EStateM.bind]
        cases step.perform observe (.observe number) y <;> rfl

/-- Either ends a run or leaves the rest of its rounds to it. -/
theorem rounds_succ (budget done : Nat) (x : σ × ω) :
    step.rounds observe (budget + 1) done x =
      match step.performAll observe (roundCalls (done + 1)) x with
      | .ok _ y =>
        if step.isConverged y.1 then .ok (done + 1) y else step.rounds observe budget (done + 1) y
      | .error e y => .error e y := by
  rw [← round_eq_performAll]
  change EStateM.bind (step.round observe (done + 1)) _ x = _
  rw [EStateM.bind]
  cases step.round observe (done + 1) x with
  | error e y => rfl
  | ok _ y =>
    change (if step.isConverged y.1 then pure (done + 1)
      else step.rounds observe budget (done + 1) : EStateM _ _ _) y = _
    simp only
    split_ifs <;> rfl

/-- Behind some rounds that are completed and have not led to a converged state, a run ends as the
outcomes of the calls say, and they are noted. -/
theorem rounds_ending {budget done : Nat} (hbudget : done + budget = step.budget)
    (hcalls : step.performAll observe (schedule done) x = .ok () t)
    (hopen : ∀ j, 1 ≤ j → j ≤ done → step.Unconverged observe x j) :
    ∃ calls, step.Ending observe x (step.rounds observe budget done t) calls ∧
      step.traced.rounds observe.traced budget done (t.1, t.2, schedule done) =
        withLog calls (step.rounds observe budget done t) := by
  induction budget generalizing done t with
  | zero =>
    obtain rfl : done = step.budget := hbudget
    exact ⟨_, .exhausted hcalls hopen, rfl⟩
  | succ budget ih =>
    have hwithin : schedule (done + 1) <+: schedule step.budget := schedule_mono (by omega)
    rw [rounds_succ, rounds_succ]
    obtain ⟨y, hy, hy'⟩ | ⟨before, call, after, e, y, hsplit, hfails, hy'⟩ :=
      performAll_cases step observe (roundCalls (done + 1)) t (schedule done)
    · rw [hy, hy', ← schedule_succ]
      have hdone : step.performAll observe (schedule (done + 1)) x = .ok () y := by
        rw [schedule_succ, performAll_append_of_ok hcalls, hy]
      change ∃ calls, step.Ending observe x (if step.isConverged y.1 then _ else _) calls ∧
        (if step.isConverged y.1 then _ else _) =
          withLog calls (if step.isConverged y.1 then _ else _)
      cases hconverged : step.isConverged y.1 with
      | true =>
        refine ⟨_, .converged (by omega) (by omega) hdone hconverged ?_, rfl⟩
        exact fun j hj hlt => hopen j hj (by omega)
      | false =>
        refine ih (by omega) hdone fun j hj hle => ?_
        rcases Nat.lt_or_eq_of_le hle with hlt | rfl
        · exact hopen j hj (by omega)
        · exact ⟨y, hdone, hconverged⟩
    · have hfail : step.FailsAt observe x (schedule done ++ before) call e y := by
        obtain ⟨z, hz, hcall⟩ := hfails
        exact ⟨z, by rw [performAll_append_of_ok hcalls, hz], hcall⟩
      rw [hy', hsplit, hfails.performAll_eq after]
      refine ⟨schedule done ++ before ++ [call], .failed ?_ hfail ?_, ?_⟩
      · refine List.IsPrefix.trans ⟨after, ?_⟩ hwithin
        rw [schedule_succ, hsplit]
        simp
      · intro j hj hbegins
        -- less than a round has been completed since
        have hlength := congrArg List.length hsplit
        have hle := hbegins.length_le
        simp only [roundCalls, List.length_append, List.length_cons, List.length_nil,
          length_schedule] at hlength hle
        exact hopen j hj (by omega)
      · rw [List.append_assoc]
        rfl

/-- A run ends as the outcomes of its calls say, and they are noted. -/
theorem run_ending (step : NewtonStep α σ ω) (observe : Observer α ω) (s : σ) (w : ω) :
    step.Ending observe (s, w) (step.run observe (s, w)) (step.trace observe s w) ∧
      step.traced.run observe.traced (s, w, []) =
        withLog (step.trace observe s w) (step.run observe (s, w)) := by
  suffices h : ∃ calls, step.Ending observe (s, w) (step.run observe (s, w)) calls ∧
      step.traced.run observe.traced (s, w, []) = withLog calls (step.run observe (s, w)) by
    obtain ⟨calls, hending, htraced⟩ := h
    have hcalls : step.trace observe s w = calls := by
      rw [trace, htraced]
      cases step.run observe (s, w) <;> rfl
    rw [hcalls]
    exact ⟨hending, htraced⟩
  change ∃ calls, step.Ending observe (s, w) (EStateM.bind step.setup _ (s, w)) calls ∧
    EStateM.bind (step.traced.perform observe.traced .setup) _ (s, w, []) =
      withLog calls (EStateM.bind step.setup _ (s, w))
  have htraced := perform_traced step observe .setup (s, w) []
  rw [EStateM.bind, EStateM.bind, htraced, perform]
  cases hsetup : step.setup (s, w) with
  | error e t =>
    have hfails : step.FailsAt observe (s, w) [] .setup e t := ⟨(s, w), rfl, hsetup⟩
    refine ⟨_, .failed (schedule_mono (Nat.zero_le _)) hfails ?_, rfl⟩
    intro j hj hbegins
    cases List.prefix_nil.1 hbegins
  | ok u t =>
    refine rounds_ending (Nat.zero_add _) ?_ ?_
    · change EStateM.bind step.setup _ (s, w) = _
      rw [EStateM.bind, hsetup]
      rfl
    · intro j hj hle
      omega

theorem Ending.within_budget {r : EStateM.Result (NewtonError α) (σ × ω) Nat}
    (h : step.Ending observe x r calls) : calls <+: schedule step.budget := by
  cases h with
  | converged hround hbudget hcalls hconverged hbefore => exact schedule_mono hbudget
  | exhausted hcalls hbefore => exact List.prefix_rfl
  | failed hbudget hfails hbefore => exact hbudget

end Runs

/-- An iteration that has converged after so many updates. -/
def countdown (maximumIterations : Nat) : NewtonStep Unit Nat Unit where
  setup := pure ()
  solve := pure ()
  update := modify fun x => (x.1 - 1, x.2)
  isConverged := fun left => left == 0
  maximumIterations := maximumIterations
  field := fun _ => ⟨#[]⟩

/-- A round is made even without a budget. -/
example : (countdown 0).run .silent (3, ()) = .error (.iterationBudget 1) (2, ()) := rfl

/-- An observer that fails cuts its round short. -/
example : (countdown 3).trace
    (fun number _ => if number = 2 then throw (.dampingExhausted 7) else pure ()) 3 () =
    schedule 2 := rfl

end CarrierTransport.Newton.NewtonStep
