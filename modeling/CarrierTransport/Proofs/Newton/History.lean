import Mathlib
import CarrierTransport.Proofs.Newton.Convergence
import CarrierTransport.Proofs.Newton.Phases

/-!
# An iteration does not remember

A solver is used again and again: its voltage is set, its phases are called one by one or as whole
runs, and any of these calls may fail and leave the state as far as it came (`Poisson.Reachable`,
`TwoCarrier.Reachable`). Whatever has happened to a state, a run from it ends as one from a new
state with the same field does, shows its observer the same fields, and leaves everything the same
but the arrays it factored in (`run_forgets`).

This holds over every scalar type, so it is a statement about which numbers are read, not about what
they are.
-/

namespace CarrierTransport.Newton

open LinearSystem (SolveObserver)
open Physics (MaterialModel)
open State (NodeField)
open Transition

/-! ### What an observer sees -/

namespace NewtonStep

variable {α σ ω : Type}

/-- An observer that also keeps a list of what it is called with. -/
def Observer.logged (observe : Observer α ω) : Observer α (ω × List (Nat × NodeField α)) :=
  fun number field => do
    modify fun (w, calls) => (w, calls ++ [(number, field)])
    onFirst (observe number field)

/-- What an observer is called with in a run. -/
def calls (step : NewtonStep α σ (ω × List (Nat × NodeField α))) (observe : Observer α ω) (s : σ)
    (w : ω) : List (Nat × NodeField α) :=
  (left (step.run observe.logged (s, (w, [])))).2.2

end NewtonStep

/-! ### The equilibrium iteration -/

namespace Poisson

variable {M α : Type} [Scalar α] [MaterialModel M α] [BEq M]

/-- The states that calls of an equilibrium solver lead to, whether they succeed or fail. -/
inductive Reachable (p : Problem M α) : PoissonState α → Prop
  | start {field : NodeField α} {s : PoissonState α} (h : Poisson.start p field = .ok s) :
      Reachable p s
  | setVoltage {s : PoissonState α} (h : Reachable p s) (voltage : α) :
      Reachable p (left (Poisson.setVoltage p voltage s))
  | setup {s : PoissonState α} (h : Reachable p s) : Reachable p (left (Poisson.setup p s))
  | solve {s : PoissonState α} (h : Reachable p s) : Reachable p (left (Poisson.solve s))
  | update {s : PoissonState α} (h : Reachable p s) : Reachable p (Poisson.update p s)
  | run {s : PoissonState α} (h : Reachable p s) {ω : Type} (observe : NewtonStep.Observer α ω)
      (w : ω) : Reachable p (left ((step p).run observe (s, w))).1

variable {p : Problem M α} {s : PoissonState α}

omit [MaterialModel M α] [BEq M] in
theorem Shaped.alike (h : Shaped p s) : Alike p s s :=
  ⟨h, h, rfl⟩

omit [MaterialModel M α] [BEq M] in
theorem Shaped.assembled (h : Shaped p s) : Assembled p s s :=
  ⟨h.alike, rfl, rfl, rfl⟩

theorem Reachable.shaped (h : Reachable p s) : Shaped p s := by
  induction h with
  | start h => exact (shaped_start h).1
  | setVoltage _ voltage ih => exact (setVoltage_alike ih.alike voltage).left.left
  | setup _ ih =>
    exact ((setup_alike ih.alike).mono (fun _ _ h => h.1.toAlike) fun _ _ h => h).left.left
  | solve _ ih =>
    exact ((solve_alike ih.assembled).mono (fun _ _ h => h.toAlike) fun _ _ h => h).left.left
  | update _ ih => exact (update_alike ih.assembled).1.left
  | @run s _ ω observe w ih =>
    have hrun := (lockstep p ω).run observe w ih.alike
    exact (hrun.mono (fun x y h => h.1.1.toAlike) fun x y h => h.1).left.left

theorem Reachable.two_le (h : Reachable p s) : 2 ≤ p.nodeCount := by
  induction h with
  | start h =>
    obtain ⟨_, hvalid, -⟩ := except_bind_eq_ok.1 h
    rw [Problem.validate] at hvalid
    split_ifs at hvalid with hcount
    exact not_lt.1 hcount
  | setVoltage _ _ ih => exact ih
  | setup _ ih => exact ih
  | solve _ ih => exact ih
  | update _ ih => exact ih
  | run _ _ _ ih => exact ih

omit [MaterialModel M α] [BEq M] in
theorem Shaped.exists_start (h : Shaped p s) (hcount : 2 ≤ p.nodeCount) :
    ∃ t, Poisson.start p s.field = .ok t := by
  obtain ⟨base, hbase, -⟩ := h.equipped
  have hvalid : p.validate s.field = .ok () := by
    rw [Problem.validate, if_neg (not_lt.2 hcount), if_neg (not_not.2 h.nodes)]
  exact ⟨_, except_bind_eq_ok.2 ⟨(), hvalid, except_bind_eq_ok.2 ⟨base, hbase, rfl⟩⟩⟩

end Poisson

/-! ### The two-carrier iteration -/

namespace TwoCarrier

variable {M α : Type} [Scalar α] [MaterialModel M α] [BEq M]

/-- The states that calls of a two-carrier solver lead to, whether they succeed or fail. -/
inductive Reachable (p : Problem M α) : TwoCarrierState α → Prop
  | start {field : NodeField α} {s : TwoCarrierState α} (h : TwoCarrier.start p field = .ok s) :
      Reachable p s
  | setVoltage {s : TwoCarrierState α} (h : Reachable p s) (voltage : α) :
      Reachable p (left (TwoCarrier.setVoltage p voltage s))
  | setup {s : TwoCarrierState α} (h : Reachable p s) : Reachable p (left (TwoCarrier.setup p s))
  | solve {s : TwoCarrierState α} (h : Reachable p s) {ω : Type} (observer : SolveObserver α ω)
      (w : ω) : Reachable p (left (TwoCarrier.solve observer (s, w))).1
  | update {s : TwoCarrierState α} (h : Reachable p s) :
      Reachable p (left (replace (TwoCarrier.update p.settings) s))
  | run {s : TwoCarrierState α} (h : Reachable p s) {ω : Type} (observer : SolveObserver α ω)
      (observe : NewtonStep.Observer α ω) (w : ω) :
      Reachable p (left ((step p observer).run observe (s, w))).1

variable {p : Problem M α} {s : TwoCarrierState α}

omit [BEq M] in
theorem Shaped.alike (h : Shaped p s) : Alike p s s :=
  ⟨h, h, rfl⟩

omit [BEq M] in
theorem Shaped.assembled (h : Shaped p s) : Assembled p s s :=
  ⟨h.alike, rfl, rfl, rfl⟩

theorem Reachable.shaped (h : Reachable p s) : Shaped p s := by
  induction h with
  | start h => exact (shaped_start h).1
  | setVoltage _ voltage ih => exact (setVoltage_alike ih.alike voltage).left.left
  | setup _ ih =>
    exact ((setup_alike ih.alike).mono (fun _ _ h => h.1.toAlike) fun _ _ h => h).left.left
  | solve _ observer w ih =>
    have hsolve := solve_alike observer ih.assembled w
    exact (hsolve.mono (fun _ _ h => h.1.toAlike) fun _ _ h => h.1).left.left
  | update _ ih =>
    exact ((update_alike p.settings ih.assembled).mono (fun _ _ h => h.1) fun _ _ h => h).left.left
  | run _ observer observe w ih =>
    have hrun := (lockstep p observer).run observe w ih.alike
    exact (hrun.mono (fun x y h => h.1.1.toAlike) fun x y h => h.1).left.left

/-- An update in place leads on as well, wherever it ends. -/
theorem Reachable.updateInPlace (h : Reachable p s) :
    Reachable p (left (TwoCarrier.updateInPlace p.settings s)) := by
  rw [h.shaped.fitting.updateInPlace_eq]
  exact h.update

theorem Reachable.two_le (h : Reachable p s) : 2 ≤ p.nodeCount := by
  induction h with
  | start h =>
    obtain ⟨_, hvalid, -⟩ := except_bind_eq_ok.1 h
    rw [Problem.validate] at hvalid
    split_ifs at hvalid with hcount
    exact not_lt.1 hcount
  | setVoltage _ _ ih => exact ih
  | setup _ ih => exact ih
  | solve _ _ _ ih => exact ih
  | update _ ih => exact ih
  | run _ _ _ _ ih => exact ih

omit [BEq M] in
theorem Shaped.exists_start (h : Shaped p s) (hcount : 2 ≤ p.nodeCount) :
    ∃ t, TwoCarrier.start p s.field = .ok t := by
  obtain ⟨base, hbase, -⟩ := h.equipped
  have hvalid : p.validate s.field = .ok () := by
    rw [Problem.validate, if_neg (not_lt.2 hcount), if_neg (not_not.2 h.nodes)]
  exact ⟨_, except_bind_eq_ok.2 ⟨(), hvalid, except_bind_eq_ok.2 ⟨s.blockSizes, h.sizes,
    except_bind_eq_ok.2 ⟨base, hbase, rfl⟩⟩⟩⟩

end TwoCarrier

/-! ### Runs -/

section Runs

variable {M α : Type} [Scalar α] [MaterialModel M α] [BEq M]

/-- **A run does not remember what came before.** From a state that any calls have led to, and from
a new state with the same field, a run ends alike: with the same number of rounds or the same error,
the same world outside and the same field, having called its observer alike; if it succeeds, the
states agree in all but the workspace. -/
theorem run_forgets (p : Problem M α) :
    (∀ s, Poisson.Reachable p s → ∃ t, Poisson.start p s.field = .ok t ∧ t.field = s.field ∧
      ∀ (ω : Type) (observe : NewtonStep.Observer α ω) (w : ω),
        EndAlike (fun x y => x.2 = y.2 ∧ y.1 = { x.1 with workspace := y.1.workspace })
          (fun x y => x.2 = y.2 ∧ y.1.field = x.1.field)
          ((Poisson.step p).run observe (s, w)) ((Poisson.step p).run observe (t, w)) ∧
        (Poisson.step p).calls observe s w = (Poisson.step p).calls observe t w) ∧
    (∀ s, TwoCarrier.Reachable p s → ∃ t, TwoCarrier.start p s.field = .ok t ∧
      t.field = s.field ∧
      ∀ (ω : Type) (observer : SolveObserver α ω)
        (logging : SolveObserver α (ω × List (Nat × NodeField α)))
        (observe : NewtonStep.Observer α ω) (w : ω),
        EndAlike (fun x y => x.2 = y.2 ∧ y.1 = { x.1 with workspace := y.1.workspace })
          (fun x y => x.2 = y.2 ∧ y.1.field = x.1.field)
          ((TwoCarrier.step p observer).run observe (s, w))
          ((TwoCarrier.step p observer).run observe (t, w)) ∧
        (TwoCarrier.step p logging).calls observe s w =
          (TwoCarrier.step p logging).calls observe t w) := by
  constructor
  · intro s hs
    obtain ⟨t, ht⟩ := hs.shaped.exists_start hs.two_le
    obtain ⟨hshaped, hfield⟩ := Poisson.shaped_start ht
    have halike : Poisson.Alike p s t := ⟨hs.shaped, hshaped, hfield⟩
    refine ⟨t, ht, hfield, fun ω observe w => ⟨?_, ?_⟩⟩
    · refine ((Poisson.lockstep p ω).run observe w halike).mono ?_ ?_
      · exact fun x y h => ⟨h.2, h.1.1.eq h.1.2⟩
      · exact fun x y h => ⟨h.2, h.1.field⟩
    · have hrun := (Poisson.lockstep p _).run observe.logged (w, []) halike
      exact congrArg Prod.snd (hrun.mono (fun x y h => h.2) fun x y h => h.2).left
  · intro s hs
    obtain ⟨t, ht⟩ := hs.shaped.exists_start hs.two_le
    obtain ⟨hshaped, hfield⟩ := TwoCarrier.shaped_start ht
    have halike : TwoCarrier.Alike p s t := ⟨hs.shaped, hshaped, hfield⟩
    refine ⟨t, ht, hfield, fun ω observer logging observe w => ⟨?_, ?_⟩⟩
    · refine ((TwoCarrier.lockstep p observer).run observe w halike).mono ?_ ?_
      · exact fun x y h => ⟨h.2, h.1.1.eq h.1.2⟩
      · exact fun x y h => ⟨h.2, h.1.field⟩
    · have hrun := (TwoCarrier.lockstep p logging).run observe.logged (w, []) halike
      exact congrArg Prod.snd (hrun.mono (fun x y h => h.2) fun x y h => h.2).left

end Runs

/-- An uncharged field on the slab. -/
def neutralField : NodeField Float :=
  ⟨#[⟨0, 0, 0, 0, 0, 0, 0, 0⟩, ⟨0, 0, 0, 0, 0, 0, 0, 0⟩]⟩

/-- A second run on the slab calls its observer like a first one. -/
theorem run_forgets_slab :
    (∃ s, Poisson.start slab neutralField = .ok s ∧
      ∃ t, Poisson.start slab (left ((Poisson.step slab).run .silent (s, ()))).1.field = .ok t ∧
        (Poisson.step slab).calls .silent (left ((Poisson.step slab).run .silent (s, ()))).1 () =
          (Poisson.step slab).calls .silent t ()) ∧
    (∃ s, TwoCarrier.start slab neutralField = .ok s ∧
      ∃ t, TwoCarrier.start slab
          (left ((TwoCarrier.step slab .silent).run .silent (s, ()))).1.field = .ok t ∧
        (TwoCarrier.step slab .silent).calls .silent
            (left ((TwoCarrier.step slab .silent).run .silent (s, ()))).1 () =
          (TwoCarrier.step slab .silent).calls .silent t ()) := by
  have hpoisson : (Poisson.start slab neutralField).isOk = true := by decide +kernel
  have htwoCarrier : (TwoCarrier.start slab neutralField).isOk = true := by decide +kernel
  constructor
  · cases hs : Poisson.start slab neutralField with
    | error e =>
      rw [hs] at hpoisson
      cases hpoisson
    | ok s =>
      have hreachable : Poisson.Reachable slab _ := (Poisson.Reachable.start hs).run .silent ()
      obtain ⟨t, ht, -, halike⟩ := (run_forgets slab).1 _ hreachable
      exact ⟨s, rfl, t, ht, (halike Unit .silent ()).2⟩
  · cases hs : TwoCarrier.start slab neutralField with
    | error e =>
      rw [hs] at htwoCarrier
      cases htwoCarrier
    | ok s =>
      have hreachable : TwoCarrier.Reachable slab _ :=
        (TwoCarrier.Reachable.start hs).run .silent .silent ()
      obtain ⟨t, ht, -, halike⟩ := (run_forgets slab).2 _ hreachable
      exact ⟨s, rfl, t, ht, (halike Unit .silent .silent .silent ()).2⟩

end CarrierTransport.Newton
