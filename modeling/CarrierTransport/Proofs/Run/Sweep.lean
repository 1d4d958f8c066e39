import Mathlib
import CarrierTransport.Proofs.Newton.Contacts
import CarrierTransport.Run.Sweep

/-!
# The contacts during runs and sweeps

Over an exact scalar type the contacts of a device stay where a voltage has put them: in every field
that a run shows its observer and in the one it ends with. A sweep sets the voltage of every step
anew, from a doping that nothing changes, so after a step the contacts are exactly at the voltage of
that step and no error is handed on (`contacts_held`).
-/

namespace CarrierTransport

open CarrierTransport.Configuration (Plan)
open LinearSystem (BlockMatrix SolveObserver)
open Newton
open Physics (MaterialModel)
open State (NodeField NodeState)
open Transition

/-! ### What observers see -/

/-- An observer of solves beside a world that it does not look at. -/
def LinearSystem.SolveObserver.beside {α ω : Type} (observer : SolveObserver α ω) (τ : Type) :
    SolveObserver α (ω × τ) where
  before m := onFirst (observer.before m)
  after m := onFirst (observer.after m)

namespace Newton.NewtonStep

variable {α σ ω : Type} {ready assembled solved : σ → Prop} {s : σ}

/-- What the phases keep holds of the state that a run ends with. -/
theorem Keeps.left {step : NewtonStep α σ ω}
    (h : step.Keeps ready assembled solved fun _ => True) (observe : Observer α ω) (hs : ready s)
    (w : ω) : ready (left (step.run observe (s, w))).1 := by
  refine (h.run observe (fun number s w _ _ => ?_) hs trivial).left.1
  cases observe number (step.field s) w with
  | ok b v => exact .ok trivial
  | error e v => exact .error trivial

/-- What the phases keep holds of every field that a run shows its observer. -/
theorem Keeps.calls {step : NewtonStep α σ (ω × List (Nat × NodeField α))}
    (good : NodeField α → Prop)
    (h : step.Keeps ready assembled solved fun w => ∀ call ∈ w.2, good call.2)
    (hgood : ∀ s, ready s → good (step.field s)) (observe : Observer α ω) (hs : ready s) (w : ω) :
    ∀ call ∈ step.calls observe s w, good call.2 := by
  refine (h.run observe.logged (fun number s w hs hw => ?_) hs (by simp)).left.2
  refine ends_onFirst (Q := fun calls => ∀ call ∈ calls, good call.2)
    (s := (w.1, w.2 ++ [(number, step.field s)])) (observe number (step.field s)) ?_
  intro call hcall
  rcases List.mem_append.1 hcall with hcall | hcall
  · exact hw call hcall
  · rw [List.mem_singleton.1 hcall]
    exact hgood s hs

end Newton.NewtonStep

/-! ### Runs -/

namespace Newton

section Voltage

variable {M α : Type} [Scalar α] [MaterialModel M α] {p : Problem M α} {v : α}

theorem Poisson.atBias_setVoltage {s t : PoissonState α} (hs : Poisson.Shaped p s)
    (htwo : 2 ≤ p.nodeCount) {u : Unit} (h : Poisson.setVoltage p v s = .ok u t) :
    Poisson.Shaped p t ∧ AtBias p v s.field t.field ∧
      p.AtContacts SameDoping s.field t.field := by
  have hshaped := (Poisson.setVoltage_alike ⟨hs, hs, rfl⟩ v).left.left
  rw [h] at hshaped
  obtain ⟨f, hf, rfl⟩ := zoom_eq_ok.1 h
  exact ⟨hshaped, atBias_of_placeContacts htwo hf⟩

theorem TwoCarrier.atBias_setVoltage {s t : TwoCarrierState α} (hs : TwoCarrier.Shaped p s)
    (htwo : 2 ≤ p.nodeCount) {u : Unit} (h : TwoCarrier.setVoltage p v s = .ok u t) :
    TwoCarrier.Shaped p t ∧ AtBias p v s.field t.field ∧
      p.AtContacts SameDoping s.field t.field := by
  have hshaped := (TwoCarrier.setVoltage_alike ⟨hs, hs, rfl⟩ v).left.left
  rw [h] at hshaped
  obtain ⟨f, hf, rfl⟩ := zoom_eq_ok.1 h
  exact ⟨hshaped, atBias_of_placeContacts htwo hf⟩

end Voltage

section Runs

variable {M α : Type} [ExactScalar α] [MaterialModel M α] [BEq M] {p : Problem M α}

/-- The equilibrium iteration keeps the potentials of the contacts if it adds its increments. -/
theorem Poisson.keeps_potentials (hp : p.Anchored)
    (hadditive : p.settings.potentialUpdate = .additive) (f : NodeField α) (ω : Type)
    (seen : ω → Prop) :
    (Poisson.step p : NewtonStep α (PoissonState α) ω).Keeps
      (fun s => Poisson.Shaped p s ∧ p.AtContacts SamePotential f s.field)
      (fun s => p.Grounded s.assembly.matrix) (fun s => p.Still s.assembly.matrix) seen :=
  Poisson.keeps (fun _ _ _ h h' => h.trans h')
    (fun _ hs hgrounded => Poisson.solve_still hp hs hgrounded)
    (fun _ hs hstill => Poisson.samePotential_update hadditive hs hstill) f ω seen

theorem Poisson.run_held (hp : p.Anchored) (hadditive : p.settings.potentialUpdate = .additive)
    {v : α} {s t : PoissonState α} (hs : Poisson.Shaped p s) (htwo : 2 ≤ p.nodeCount)
    (h : Poisson.setVoltage p v s = .ok () t) {ω : Type} (observe : NewtonStep.Observer α ω)
    (w : ω) :
    AtBias p v s.field (left ((Poisson.step p).run observe (t, w))).1.field ∧
      ∀ call ∈ (Poisson.step p).calls observe t w, AtBias p v s.field call.2 := by
  obtain ⟨ht, hbias, -⟩ := Poisson.atBias_setVoltage hs htwo h
  have hstart : Poisson.Shaped p t ∧ p.AtContacts SamePotential t.field t.field :=
    ⟨ht, .refl (fun _ => ⟨⟨rfl, rfl⟩, rfl⟩) t.field⟩
  have hkeeps := Poisson.keeps_potentials hp hadditive t.field
  constructor
  · exact hbias.of_samePotential ((hkeeps ω _).left observe hstart w).2
  · exact (hkeeps _ _).calls (AtBias p v s.field) (fun s hs => hbias.of_samePotential hs.2) observe
      hstart w

/-- A two-carrier run keeps its contacts, whoever looks at its solves. -/
theorem TwoCarrier.run_kept (hp : p.Anchored) {s : TwoCarrierState α} (hs : TwoCarrier.Shaped p s)
    {ω : Type} (observer : SolveObserver α ω) (observe : NewtonStep.Observer α ω) (w : ω) :
    TwoCarrier.Shaped p (left ((TwoCarrier.step p observer).run observe (s, w))).1 ∧
      p.AtContacts (SameCarriers p.settings.densityFloor) s.field
        (left ((TwoCarrier.step p observer).run observe (s, w))).1.field := by
  have hlook : ∀ (look : BlockMatrix α → EStateM StorageError ω Unit) m w,
      Ends (fun _ _ => True) (fun _ _ => True) (look m w) := by
    intro look m w
    cases look m w with
    | ok b v => exact .ok trivial
    | error e v => exact .error trivial
  have hkeeps := TwoCarrier.keeps hp observer (fun _ => True)
    (fun m w _ => hlook observer.before m w) (fun m w _ => hlook observer.after m w) s.field
  exact hkeeps.left observe ⟨hs, .refl (SameCarriers.refl _) s.field⟩ w

/-- The contacts of a field are at a voltage, and their carriers are those of the field that a run
starts with, unless that has fewer than the floor. -/
structure TwoCarrier.Held (p : Problem M α) (v : α) (doped start f : NodeField α) : Prop where
  bias : AtBias p v doped f
  carriers : p.AtContacts (SameCarriers p.settings.densityFloor) start f

theorem TwoCarrier.run_held (hp : p.Anchored) {v : α} {s t : TwoCarrierState α}
    (hs : TwoCarrier.Shaped p s) (htwo : 2 ≤ p.nodeCount)
    (h : TwoCarrier.setVoltage p v s = .ok () t) {ω : Type} (observer : SolveObserver α ω)
    (observe : NewtonStep.Observer α ω) (w : ω) :
    TwoCarrier.Held p v s.field t.field
        (left ((TwoCarrier.step p observer).run observe (t, w))).1.field ∧
      ∀ call ∈ (TwoCarrier.step p (observer.beside _)).calls observe t w,
        TwoCarrier.Held p v s.field t.field call.2 := by
  obtain ⟨ht, hbias, -⟩ := TwoCarrier.atBias_setVoltage hs htwo h
  have hheld : ∀ f, p.AtContacts (SameCarriers p.settings.densityFloor) t.field f →
      TwoCarrier.Held p v s.field t.field f :=
    fun f hf => ⟨hbias.of_samePotential (hf.mono fun _ _ h => h.toSamePotential), hf⟩
  constructor
  · exact hheld _ (TwoCarrier.run_kept hp ht observer observe w).2
  · have hkeeps := fun good : List (Nat × NodeField α) → Prop =>
      TwoCarrier.keeps hp (observer.beside _) (fun w => good w.2)
        (fun m w hw => ends_onFirst (observer.before m) hw)
        (fun m w hw => ends_onFirst (observer.after m) hw) t.field
    exact (hkeeps fun calls => ∀ call ∈ calls, TwoCarrier.Held p v s.field t.field call.2).calls
      (TwoCarrier.Held p v s.field t.field) (fun s hs => hheld _ hs.2) observe
      ⟨ht, .refl (SameCarriers.refl _) t.field⟩ w

end Runs

end Newton

/-! ### Sweeps -/

namespace Run

/-- Where the doping is the same the contacts are at the same voltage. -/
theorem atBias_of_sameDoping {M α : Type} [Scalar α] [MaterialModel M α] {p : Problem M α} {v : α}
    {doped doped' f : NodeField α} (htwo : 2 ≤ p.nodeCount) (hnodes : doped.nodeCount = p.nodeCount)
    (h : p.AtContacts SameDoping doped doped') (hf : AtBias p v doped' f) : AtBias p v doped f := by
  have hnode : ∀ node, p.IsContact node →
      builtInPotential p doped' node = builtInPotential p doped node := by
    intro node hnode
    have hlt : node < doped.nodes.size := by
      rw [NodeField.nodeCount] at hnodes
      rcases hnode with rfl | rfl
      · omega
      · rw [Problem.lastNode]
        omega
    exact builtInPotential_of_sameDoping h hnode (Array.getElem?_eq_getElem hlt)
  obtain ⟨⟨b, hb, hfirst⟩, ⟨b', hb', hlast⟩⟩ := hf
  rw [hnode 0 (.inl rfl)] at hb
  rw [hnode _ (.inr rfl)] at hb'
  exact ⟨⟨b, hb, hfirst⟩, ⟨b', hb', hlast⟩⟩

theorem withIteration_eq_ok {α σ ω : Type} {start : NodeField α → Except (BuildError α) σ}
    {field : σ → NodeField α} {iterate : EStateM (SweepError α) (σ × ω) Unit} {f f' : NodeField α}
    {w w' : ω} (h : withIteration start field iterate (f, w) = .ok () (f', w')) :
    ∃ s s', start f = .ok s ∧ iterate (s, w) = .ok () (s', w') ∧ field s' = f' := by
  rw [withIteration] at h
  split at h
  · cases h
  · next s hs =>
    split at h
    · next s' _ hiterate =>
      cases h
      exact ⟨s, s', hs, hiterate, rfl⟩
    · cases h

/-- Relaxing a field changes no doping at the contacts. -/
theorem sameDoping_of_relax {M α ω : Type} [BinaryScalar α] [MaterialModel M α] [BEq M]
    {p : Problem M α} {f f' : NodeField α} {w w' : ω} (h : relax p (f, w) = .ok () (f', w')) :
    f.nodeCount = p.nodeCount ∧ 2 ≤ p.nodeCount ∧ f'.nodeCount = p.nodeCount ∧
      p.AtContacts SameDoping f f' := by
  obtain ⟨s, s', hs, hiterate, rfl⟩ := withIteration_eq_ok h
  have htwo := (Poisson.Reachable.start hs).two_le
  obtain ⟨hshaped, rfl⟩ := Poisson.shaped_start hs
  obtain ⟨_, ⟨t, v⟩, hvoltage, hrun⟩ := bind_eq_ok.1 (widenError_eq_ok.1 hiterate)
  obtain ⟨ht, -, hdoping⟩ := Poisson.atBias_setVoltage hshaped htwo (onFirst_eq_ok.1 hvoltage).1
  obtain ⟨count, r, hrun, hdone⟩ := bind_eq_ok.1 hrun
  cases hdone
  have htrans : ∀ s s' s'' : NodeState α, SameDoping s s' → SameDoping s' s'' → SameDoping s s'' :=
    fun _ _ _ h h' => h.trans h'
  have hkeeps := Poisson.keeps (p := p) htrans
    (fun s hs _ => (Poisson.solve_shaped hs).mono (fun _ _ h => ⟨h, trivial⟩) fun _ _ h => h)
    (fun s _ _ => Poisson.sameDoping_update p s) s.field ω fun _ => True
  have hkept := hkeeps.left .silent ⟨ht, hdoping⟩ v
  rw [hrun] at hkept
  exact ⟨hshaped.nodes, htwo, hkept.1.nodes, hkept.2⟩

section Bias

variable {M α ω : Type} [ExactBinaryScalar α] [MaterialModel M α] [BEq M] {plan : Plan α}
  {reporter : Reporter ω} {p : Problem M α} {s t : TwoCarrierState α} {w w' : ω}

/-- After a step the contacts are at its voltage, whatever came before. -/
theorem of_biasStep (hp : p.Anchored) (hs : TwoCarrier.Shaped p s) (htwo : 2 ≤ p.nodeCount)
    {step : Nat} (h : biasStep plan reporter p step (s, w) = .ok () (t, w')) :
    TwoCarrier.Shaped p t ∧ AtBias p ((step : α) * plan.voltageStep) s.field t.field ∧
      p.AtContacts SameDoping s.field t.field := by
  obtain ⟨_, ⟨r, v⟩, hvoltage, h⟩ := bind_eq_ok.1 h
  obtain ⟨hr, hbias, hdoping⟩ :=
    TwoCarrier.atBias_setVoltage hs htwo (onFirst_eq_ok.1 hvoltage).1
  obtain ⟨count, ⟨q, v'⟩, hrun, h⟩ := bind_eq_ok.1 h
  obtain ⟨_, _, hget, h⟩ := bind_eq_ok.1 h
  cases hget
  obtain ⟨rfl, -⟩ := onSecond_eq_ok.1 h
  have hkept := TwoCarrier.run_kept hp hr
    (if plan.dumpDiagnostics then SolveObserver.ofReporter reporter else .silent)
    (observeRound plan reporter step) v
  rw [hrun] at hkept
  obtain ⟨ht, hcarriers⟩ := hkept
  rw [ExactScalar.count_eq] at hbias
  refine ⟨ht, hbias.of_samePotential (hcarriers.mono fun _ _ h => h.toSamePotential), ?_⟩
  exact hdoping.trans (fun _ _ _ h h' => h.trans h') (hcarriers.mono fun _ _ h => h.toSameDoping)

/-- After some steps the contacts are at the voltage of the last of them. -/
theorem of_biasSteps (hp : p.Anchored) (hs : TwoCarrier.Shaped p s) (htwo : 2 ≤ p.nodeCount)
    {count first : Nat} (h : biasSteps plan reporter p (count + 1) first (s, w) = .ok () (t, w')) :
    AtBias p (((first + count : Nat) : α) * plan.voltageStep) s.field t.field := by
  induction count generalizing first s w with
  | zero =>
    obtain ⟨_, r, hstep, hdone⟩ := bind_eq_ok.1 h
    cases hdone
    exact (of_biasStep hp hs htwo hstep).2.1
  | succ count ih =>
    obtain ⟨_, ⟨r, v⟩, hstep, h⟩ := bind_eq_ok.1 h
    obtain ⟨hr, -, hdoping⟩ := of_biasStep hp hs htwo hstep
    have hrest := ih hr h
    rw [show first + 1 + count = first + (count + 1) by omega] at hrest
    exact atBias_of_sameDoping htwo hs.nodes hdoping hrest

end Bias

/-! ### The main result -/

/-- **Contacts stay where they were put.** After a voltage has been set, every field that a run of
either solver shows its observer, and the one it ends with, however it ends, has the contacts at
their built-in potentials, the last one raised by the voltage; a two-carrier run also keeps carriers
there that are not below the floor. After some steps of a sweep, and after a whole one, the contacts
are exactly at the voltage of the last step. -/
theorem contacts_held :
    (∀ {M α : Type} [ExactScalar α] [MaterialModel M α] [BEq M] (p : Problem M α), p.Anchored →
      ∀ v : α,
      (p.settings.potentialUpdate = .additive → ∀ s t, Poisson.Reachable p s →
        Poisson.setVoltage p v s = .ok () t →
        ∀ (ω : Type) (observe : NewtonStep.Observer α ω) (w : ω),
          AtBias p v s.field (left ((Poisson.step p).run observe (t, w))).1.field ∧
          ∀ call ∈ (Poisson.step p).calls observe t w, AtBias p v s.field call.2) ∧
      ∀ s t, TwoCarrier.Reachable p s → TwoCarrier.setVoltage p v s = .ok () t →
        ∀ (ω : Type) (observer : SolveObserver α ω) (observe : NewtonStep.Observer α ω) (w : ω),
          TwoCarrier.Held p v s.field t.field
            (left ((TwoCarrier.step p observer).run observe (t, w))).1.field ∧
          ∀ call ∈ (TwoCarrier.step p (observer.beside _)).calls observe t w,
            TwoCarrier.Held p v s.field t.field call.2) ∧
    ∀ {M α ω : Type} [ExactBinaryScalar α] [MaterialModel M α] [BEq M] (plan : Plan α)
      (reporter : Reporter ω) (p : Problem M α), p.settings = plan.twoCarrier → p.Anchored →
      (∀ s t w w' first count, TwoCarrier.Reachable p s →
        biasSteps plan reporter p (count + 1) first (s, w) = .ok () (t, w') →
        AtBias p (((first + count : Nat) : α) * plan.voltageStep) s.field t.field) ∧
      ∀ f f' w w' count, plan.steps = count + 1 →
        sweep plan reporter p.mesh p.table (f, w) = .ok () (f', w') →
        AtBias p ((count : α) * plan.voltageStep) f f' := by
  constructor
  · intro M α _ _ _ p hp v
    constructor
    · intro hadditive s t hs h ω observe w
      exact Poisson.run_held hp hadditive hs.shaped hs.two_le h observe w
    · intro s t hs h ω observer observe w
      exact TwoCarrier.run_held hp hs.shaped hs.two_le h observer observe w
  · intro M α ω _ _ _ plan reporter p hsettings hp
    constructor
    · intro s t w w' first count hs h
      exact of_biasSteps hp hs.shaped hs.two_le h
    · intro f f' w w' count hsteps h
      obtain ⟨_, _, hget, hreported⟩ := bind_eq_ok.1 h
      cases hget
      obtain ⟨_, ⟨g, v⟩, hreport, hrelaxed⟩ := bind_eq_ok.1 hreported
      obtain rfl : g = f := (onSecond_eq_ok.1 hreport).1
      obtain ⟨_, ⟨relaxed, v'⟩, hrelax, hread⟩ := bind_eq_ok.1 hrelaxed
      obtain ⟨hnodes, htwo, -, hdoping⟩ := sameDoping_of_relax hrelax
      obtain ⟨_, _, hget, hreported'⟩ := bind_eq_ok.1 hread
      cases hget
      obtain ⟨_, ⟨g', v''⟩, hreport', hsteady⟩ := bind_eq_ok.1 hreported'
      obtain rfl : g' = relaxed := (onSecond_eq_ok.1 hreport').1
      obtain ⟨mesh, table, settings⟩ := p
      cases hsettings
      obtain ⟨s, t, hs, hiterate, rfl⟩ := withIteration_eq_ok hsteady
      obtain ⟨hshaped, rfl⟩ := TwoCarrier.shaped_start hs
      rw [hsteps] at hiterate
      have hbias := of_biasSteps hp hshaped htwo (widenError_eq_ok.1 hiterate)
      rw [Nat.zero_add] at hbias
      exact atBias_of_sameDoping htwo hnodes hdoping hbias

/-- Two elements of oxide between three nodes. -/
def insulator : Problem Physics.Material ℚ where
  mesh :=
    { nodes := #[⟨[0], 0⟩, ⟨[0, 1], 0⟩, ⟨[1], 0⟩]
      elements := #[⟨0, 1, 1, 1, 0⟩, ⟨1, 2, 1, 1, 0⟩] }
  table := { regions := #[⟨.siliconDioxide, 0, 0⟩], temperature := 300 }
  settings := .ofTolerances (1 / 1000) (1 / 1000) 5

/-- Two steps on the insulator. -/
def insulatorPlan : Plan ℚ where
  equilibrium := insulator.settings
  twoCarrier := insulator.settings
  dumpDiagnostics := false
  lengthScale := 1
  crossSection := 1
  voltageStep := 1 / 2
  steps := 2
  writeIterations := true

/-- The insulator without charge. -/
def insulatorField : NodeField ℚ :=
  ⟨.replicate 3 ⟨0, 0, 0, 0, 0, 0, 0, 0⟩⟩

/-- Whether a state can be built and a transition of it succeeds. -/
def succeeds {ε ε' σ τ : Type} (start : Except ε σ) (next : σ → EStateM.Result ε' τ Unit) : Bool :=
  match start with
  | .ok s => match next s with
    | .ok () _ => true
    | .error _ _ => false
  | .error _ => false

theorem exists_of_succeeds {ε ε' σ τ : Type} {start : Except ε σ}
    {next : σ → EStateM.Result ε' τ Unit} (h : succeeds start next = true) :
    ∃ s t, start = .ok s ∧ next s = .ok () t := by
  cases start with
  | error e => cases h
  | ok s =>
    cases hnext : next s with
    | ok u t => exact ⟨s, t, rfl, hnext⟩
    | error e t => simp [succeeds, hnext] at h

theorem anchored_insulator : insulator.Anchored := by
  constructor
  · decide +kernel
  · decide +kernel
  · decide +kernel

/-- Runs and sweeps on the insulator keep its contacts. -/
theorem contacts_held_insulator :
    (∃ s t, Poisson.start insulator insulatorField = .ok s ∧
      Poisson.setVoltage insulator 1 s = .ok () t ∧
      AtBias insulator 1 s.field (left ((Poisson.step insulator).run .silent (t, ()))).1.field) ∧
    (∃ s t, TwoCarrier.start insulator insulatorField = .ok s ∧
      TwoCarrier.setVoltage insulator 1 s = .ok () t ∧
      TwoCarrier.Held insulator 1 s.field t.field
        (left ((TwoCarrier.step insulator .silent).run .silent (t, ()))).1.field) ∧
    (∃ s t, TwoCarrier.start insulator insulatorField = .ok s ∧
      biasSteps insulatorPlan (fun _ _ => pure ()) insulator 2 0 (s, ()) = .ok () (t, ()) ∧
      AtBias insulator (1 / 2) s.field t.field) ∧
    ∃ f, sweep insulatorPlan (fun _ _ => pure ()) insulator.mesh insulator.table
        (insulatorField, ()) = .ok () (f, ()) ∧
      AtBias insulator (1 / 2) insulatorField f := by
  have hanchored := anchored_insulator
  have hvoltage : succeeds (Poisson.start insulator insulatorField)
      (Poisson.setVoltage insulator 1) = true := by decide +kernel
  have hvoltage' : succeeds (TwoCarrier.start insulator insulatorField)
      (TwoCarrier.setVoltage insulator 1) = true := by decide +kernel
  have hsteps : succeeds (TwoCarrier.start insulator insulatorField)
      (fun s => biasSteps insulatorPlan (fun _ _ => pure ()) insulator 2 0 (s, ())) = true := by
    decide +kernel
  have hsweep : succeeds (.ok insulatorField : Except Empty _)
      (fun f => sweep insulatorPlan (fun _ _ => pure ()) insulator.mesh insulator.table (f, ())) =
      true := by
    decide +kernel
  have hhalf : (((0 + 1 : Nat) : ℚ) * insulatorPlan.voltageStep) = 1 / 2 := by
    norm_num [insulatorPlan]
  have hhalf' : (((1 : Nat) : ℚ) * insulatorPlan.voltageStep) = 1 / 2 := by
    norm_num [insulatorPlan]
  obtain ⟨s, t, hs, ht⟩ := exists_of_succeeds hvoltage
  obtain ⟨s', t', hs', ht'⟩ := exists_of_succeeds hvoltage'
  obtain ⟨q, ⟨r, _⟩, hq, hr⟩ := exists_of_succeeds hsteps
  obtain ⟨_, ⟨f, _⟩, hf, hswept⟩ := exists_of_succeeds hsweep
  cases hf
  refine ⟨⟨s, t, hs, ht, ?_⟩, ⟨s', t', hs', ht', ?_⟩, ⟨q, r, hq, hr, ?_⟩, ⟨f, hswept, ?_⟩⟩
  · exact ((contacts_held.1 insulator hanchored 1).1 rfl s t (.start hs) ht Unit .silent ()).1
  · exact ((contacts_held.1 insulator hanchored 1).2 s' t' (.start hs') ht' Unit .silent .silent
      ()).1
  · rw [← hhalf]
    exact (contacts_held.2 insulatorPlan _ insulator rfl hanchored).1 q r () () 0 1 (.start hq) hr
  · rw [← hhalf']
    exact (contacts_held.2 insulatorPlan _ insulator rfl hanchored).2 _ f () () 1 rfl hswept

end Run

end CarrierTransport
