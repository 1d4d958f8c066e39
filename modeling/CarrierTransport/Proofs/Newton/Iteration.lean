import Mathlib
import CarrierTransport.Newton.Iteration
import CarrierTransport.Proofs.Transition

/-!
# Whole iterations

An iteration that succeeds ends with a round after which its flags are set. The state it leaves
behind was assembled by the setup of that round, from the state that the update of that round left
(`NewtonStep.run_eq_ok`). What came before, and what the observer does to the world outside, has no
part in it.

An invariant of whole iterations needs a look at the first setup and at one round only
(`NewtonStep.run_ends`), or at the phases (`NewtonStep.Keeps.run`), and so does what two iterations
have in common that run side by side (`NewtonStep.run_alike`).
-/

namespace CarrierTransport.Newton.NewtonStep

open Transition

variable {α σ ω : Type} {step : NewtonStep α σ ω} {observe : Observer α ω}

/-- The last phases of a round: an update, then a setup. -/
def EndedBy (step : NewtonStep α σ ω) (s : σ) : Prop :=
  ∃ before after w w' w'',
    step.update (before, w) = .ok () (after, w') ∧ step.setup (after, w') = .ok () (s, w'')

/-- The observer of a round sees the state and leaves it as it is. -/
theorem endedBy_of_round {number : Nat} {s t : σ × ω}
    (h : step.round observe number s = .ok () t) : step.EndedBy t.1 := by
  obtain ⟨_, r, -, h⟩ := bind_eq_ok.1 h
  obtain ⟨_, ⟨after, w'⟩, hupdate, h⟩ := bind_eq_ok.1 h
  obtain ⟨_, ⟨s', w''⟩, hsetup, h⟩ := bind_eq_ok.1 h
  obtain ⟨_, q, hget, h⟩ := bind_eq_ok.1 h
  cases hget
  obtain ⟨hfirst, -⟩ := onSecond_eq_ok.1 h
  rw [hfirst]
  exact ⟨r.1, after, r.2, w', w'', hupdate, hsetup⟩

theorem rounds_eq_ok {budget done count : Nat} {s t : σ × ω}
    (h : step.rounds observe budget done s = .ok count t) :
    step.isConverged t.1 = true ∧ step.EndedBy t.1 ∧ done < count ∧ count ≤ done + budget := by
  induction budget generalizing done s with
  | zero => cases h
  | succ budget ih =>
    obtain ⟨_, r, hround, h⟩ := bind_eq_ok.1 h
    obtain ⟨_, q, hget, h⟩ := bind_eq_ok.1 h
    cases hget
    dsimp only at h
    split at h
    · next hconverged =>
      cases h
      exact ⟨hconverged, endedBy_of_round hround, by omega, by omega⟩
    · obtain ⟨hconverged, hended, hlt, hle⟩ := ih h
      exact ⟨hconverged, hended, by omega, by omega⟩

/-- Behind a round that succeeds an iteration is over or goes on. -/
theorem rounds_of_round {budget done : Nat} {s t : σ × ω} {u : Unit}
    (h : step.round observe (done + 1) s = .ok u t) :
    step.rounds observe (budget + 1) done s =
      if step.isConverged t.1 then .ok (done + 1) t
      else step.rounds observe budget (done + 1) t := by
  refine (bind_of_ok h).trans ?_
  change (if step.isConverged t.1 then pure (done + 1)
    else step.rounds observe budget (done + 1) : EStateM _ _ _) t = _
  split_ifs <;> rfl

/-- **How a successful iteration ended.** Its flags are set, its state comes from an update and a
setup, and it has made at least one round and no more than the budget allows. -/
theorem run_eq_ok {count : Nat} {s t : σ × ω} (h : step.run observe s = .ok count t) :
    step.isConverged t.1 = true ∧ step.EndedBy t.1 ∧ 1 ≤ count ∧
      count ≤ max 1 step.maximumIterations := by
  obtain ⟨_, r, -, h⟩ := bind_eq_ok.1 h
  obtain ⟨hconverged, hended, hlt, hle⟩ := rounds_eq_ok h
  exact ⟨hconverged, hended, hlt, by omega⟩

/-! ### Whole iterations -/

/-- What holds after the first setup and is kept by every round holds at the end. -/
theorem run_ends {settled : σ × ω → Prop} {failed : NewtonError α → σ × ω → Prop} {s : σ × ω}
    (hsetup : Ends (fun _ => settled) failed (step.setup s))
    (hround : ∀ number s, settled s → Ends (fun _ => settled) failed (step.round observe number s))
    (hbudget : ∀ done s, settled s → failed (.iterationBudget done) s) :
    Ends (fun _ => settled) failed (step.run observe s) := by
  have hrounds : ∀ budget done s, settled s →
      Ends (fun _ => settled) failed (step.rounds observe budget done s) := by
    intro budget
    induction budget with
    | zero => exact fun done s hs => .error (hbudget done s hs)
    | succ budget ih =>
      intro done s hs
      refine (hround (done + 1) s hs).bind fun _ t ht => ?_
      change Ends _ _ ((if step.isConverged t.1 then pure (done + 1)
        else step.rounds observe budget (done + 1) : EStateM _ _ _) t)
      split_ifs
      · exact .ok ht
      · exact ih (done + 1) t ht
  exact hsetup.bind fun _ t ht => hrounds _ 0 t ht

/-- Phases that keep a property of the state and of the world outside. What a setup and a solve
leave behind besides is what the next phase needs. -/
structure Keeps (step : NewtonStep α σ ω) (ready assembled solved : σ → Prop) (seen : ω → Prop) :
    Prop where
  setup : ∀ s w, ready s → seen w →
    Ends (fun _ x => (ready x.1 ∧ assembled x.1) ∧ seen x.2) (fun _ x => ready x.1 ∧ seen x.2)
      (step.setup (s, w))
  solve : ∀ s w, ready s ∧ assembled s → seen w →
    Ends (fun _ x => (ready x.1 ∧ solved x.1) ∧ seen x.2) (fun _ x => ready x.1 ∧ seen x.2)
      (step.solve (s, w))
  update : ∀ s w, ready s ∧ solved s → seen w →
    Ends (fun _ x => ready x.1 ∧ seen x.2) (fun _ x => ready x.1 ∧ seen x.2) (step.update (s, w))

/-- Whole iterations keep what the phases and the observer keep. -/
theorem Keeps.run {ready assembled solved : σ → Prop} {seen : ω → Prop}
    (h : step.Keeps ready assembled solved seen) (observe : Observer α ω)
    (hobserve : ∀ number s w, ready s → seen w →
      Ends (fun _ => seen) (fun _ => seen) (observe number (step.field s) w))
    {s : σ} {w : ω} (hs : ready s) (hw : seen w) :
    Ends (fun _ x => ready x.1 ∧ seen x.2) (fun _ x => ready x.1 ∧ seen x.2)
      (step.run observe (s, w)) := by
  have hround : ∀ number x, (ready x.1 ∧ assembled x.1) ∧ seen x.2 →
      Ends (fun _ x => (ready x.1 ∧ assembled x.1) ∧ seen x.2) (fun _ x => ready x.1 ∧ seen x.2)
        (step.round observe number x) := by
    rintro number ⟨s, w⟩ ⟨hs, hw⟩
    refine (h.solve s w hs hw).bind ?_
    rintro _ ⟨s, w⟩ ⟨hs, hw⟩
    refine (h.update s w hs hw).bind ?_
    rintro _ ⟨s, w⟩ ⟨hs, hw⟩
    refine (h.setup s w hs hw).bind ?_
    rintro _ ⟨s, w⟩ ⟨hs, hw⟩
    change Ends _ _ (onSecond (observe number (step.field s)) (s, w))
    refine .onSecond ((hobserve number s w hs.1 hw).mono ?_ ?_)
    · exact fun _ w hw => ⟨hs, hw⟩
    · exact fun _ w hw => ⟨hs.1, hw⟩
  have hrun : Ends (fun _ x => (ready x.1 ∧ assembled x.1) ∧ seen x.2)
      (fun _ x => ready x.1 ∧ seen x.2) (step.run observe (s, w)) :=
    run_ends (h.setup s w hs hw) hround fun _ x hx => ⟨hx.1.1, hx.2⟩
  exact hrun.mono (fun _ x hx => ⟨hx.1.1, hx.2⟩) fun _ x hx => hx

/-- Two iterations side by side: states that the first setups relate are related by every round,
which leaves states with the same flags. -/
theorem run_alike {σ' ω' : Type} {step' : NewtonStep α σ' ω'} {observe' : Observer α ω'}
    (entered : σ × ω → σ' × ω' → Prop) {settled failed : σ × ω → σ' × ω' → Prop} {s : σ × ω}
    {t : σ' × ω'} (hsetup : EndAlike entered failed (step.setup s) (step'.setup t))
    (hround : ∀ number s t, entered s t →
      EndAlike settled failed (step.round observe number s) (step'.round observe' number t))
    (hsettled : ∀ s t, settled s t →
      entered s t ∧ step.isConverged s.1 = step'.isConverged t.1)
    (hbudget : ∀ s t, entered s t → failed s t)
    (hmaximum : step.maximumIterations = step'.maximumIterations) :
    EndAlike settled failed (step.run observe s) (step'.run observe' t) := by
  have hrounds : ∀ budget done s t, entered s t → EndAlike settled failed
      (step.rounds observe budget done s) (step'.rounds observe' budget done t) := by
    intro budget
    induction budget with
    | zero => exact fun done s t hst => .error _ (hbudget s t hst)
    | succ budget ih =>
      intro done s t hst
      refine (hround (done + 1) s t hst).bind fun _ s' t' hst' => ?_
      obtain ⟨hentered, hconverged⟩ := hsettled s' t' hst'
      change EndAlike settled failed
        ((if step.isConverged s'.1 then pure (done + 1)
          else step.rounds observe budget (done + 1) : EStateM _ _ _) s')
        ((if step'.isConverged t'.1 then pure (done + 1)
          else step'.rounds observe' budget (done + 1) : EStateM _ _ _) t')
      rw [hconverged]
      split_ifs
      · exact .ok _ hst'
      · exact ih (done + 1) s' t' hentered
  refine hsetup.bind fun _ s' t' hst => ?_
  rw [hmaximum]
  exact hrounds _ 0 s' t' hst

end CarrierTransport.Newton.NewtonStep
