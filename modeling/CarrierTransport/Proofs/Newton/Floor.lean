import CarrierTransport.Proofs.Newton.Halving
import CarrierTransport.Proofs.Newton.Protocol
import CarrierTransport.Proofs.Scalar.Comparable

/-!
# Densities at their floor

An update adds to every unknown a share of its increment, and a density that this leads below the
floor, or to what is not a number, it puts at the floor. So whatever the increments are, infinite
ones and ones that are no numbers among them, an update that succeeds leaves the densities of a
semiconductor at the floor or above it. As no other phase writes to the field, this is so from the
first update of a run on (`NewtonStep.KeepsField.settlesOn`).

Over an exact scalar type the floor acts only where the whole increments are applied: the factor
that the search has found keeps the densities above it (`TwoCarrier.followsIncrements_update`).
-/

namespace CarrierTransport.Newton

open LinearSystem (SolveObserver)
open Physics (MaterialKind MaterialModel)
open State (NodeField NodeState Quantity Unknown)
open Transition

/-! ### What a run settles on -/

namespace NewtonStep

section Settling

variable {α σ ω : Type} {step : NewtonStep α σ ω} {ready : σ → Prop} {P : NodeField α → Prop}
  {s : σ} {x t : σ × ω}

/-- From states of a kind every update that succeeds leads to a field with a property, whatever the
field was before. -/
def Establishes (step : NewtonStep α σ ω) (ready : σ → Prop) (P : NodeField α → Prop) : Prop :=
  ∀ s w t, ready s → step.update (s, w) = .ok () t → P (step.field t.1)

/-- Once an update has succeeded the field has a property, whatever is called then. -/
structure SettlesOn (step : NewtonStep α σ ω) (P : NodeField α → Prop) (s : σ) : Prop where
  /-- Calls that succeed lead to such a field if an update is among them. -/
  calls : ∀ observe w calls t, Call.update ∈ calls →
    step.performAll observe calls (s, w) = .ok () t → P (step.field t.1)
  /-- Every update that a run completes leads to such a field. -/
  updates : ∀ observe w, ∀ field ∈ step.updates observe s w, P field
  /-- However a run ends, it ends with such a field if it has completed an update or has started
  from such a field. -/
  run : ∀ observe w, step.updates observe s w ≠ [] ∨ P (step.field s) →
    P (step.field (left (step.run observe (s, w))).1)

theorem KeepsField.update_ends (h : step.KeepsField ready) (hP : step.Establishes ready P)
    (hs : ready s) (w : ω) :
    Ends (fun _ x => ready x.1 ∧ P (step.field x.1)) (fun _ x => ready x.1)
      (step.update (s, w)) := by
  have hends := h.update s w hs
  cases hr : step.update (s, w) with
  | ok u t =>
    rw [hr] at hends
    cases hends with
    | ok hready => exact .ok ⟨hready, hP s w t hs hr⟩
  | error e t =>
    rw [hr] at hends
    cases hends with
    | error hfailed => exact .error hfailed.1

/-- An update establishes the property, and no other call touches the field. -/
theorem KeepsField.perform (h : step.KeepsField ready) (hP : step.Establishes ready P)
    {observe : Observer α ω} {call : Call} (hx : ready x.1)
    (ht : step.perform observe call x = .ok () t) :
    ready t.1 ∧ (call = .update ∨ P (step.field x.1) → P (step.field t.1)) := by
  obtain ⟨s, w⟩ := x
  have hkept : ∀ {r : EStateM.Result (NewtonError α) (σ × ω) Unit},
      Ends (fun _ y => ready y.1 ∧ step.field y.1 = step.field s)
        (fun _ y => ready y.1 ∧ step.field y.1 = step.field s) r → r = .ok () t →
      ready t.1 ∧ step.field t.1 = step.field s := by
    rintro r hends rfl
    cases hends with
    | ok hkept => exact hkept
  cases call with
  | setup =>
    obtain ⟨hready, hfield⟩ := hkept (h.setup s w hx) ht
    exact ⟨hready, fun hs => hfield.symm ▸ hs.resolve_left nofun⟩
  | solve =>
    obtain ⟨hready, hfield⟩ := hkept (h.solve s w hx) ht
    exact ⟨hready, fun hs => hfield.symm ▸ hs.resolve_left nofun⟩
  | update =>
    have hends := h.update_ends hP hx w
    change step.update (s, w) = _ at ht
    rw [ht] at hends
    cases hends with
    | ok hupdated => exact ⟨hupdated.1, fun _ => hupdated.2⟩
  | observe number =>
    obtain ⟨hfirst, -⟩ := onSecond_eq_ok.1 ht
    rw [hfirst]
    exact ⟨hx, fun hs => hs.resolve_left nofun⟩

theorem KeepsField.performAll (h : step.KeepsField ready) (hP : step.Establishes ready P)
    {observe : Observer α ω} {calls : List Call} (hx : ready x.1)
    (ht : step.performAll observe calls x = .ok () t) :
    ready t.1 ∧ (.update ∈ calls ∨ P (step.field x.1) → P (step.field t.1)) := by
  induction calls generalizing x with
  | nil =>
    cases ht
    exact ⟨hx, fun hfield => hfield.resolve_left List.not_mem_nil⟩
  | cons call calls ih =>
    obtain ⟨_, y, hcall, ht⟩ := bind_eq_ok.1 ht
    obtain ⟨hy, hfirst⟩ := h.perform hP hx hcall
    obtain ⟨hready, hrest⟩ := ih hy ht
    refine ⟨hready, fun hfield => hrest ?_⟩
    rcases hfield with hmem | hfield
    · rcases List.mem_cons.1 hmem with hcall | hlater
      · exact .inr (hfirst (.inl hcall.symm))
      · exact .inl hlater
    · exact .inr (hfirst (.inr hfield))

/-- A transition does to a state with a list beside it what it does to the state. -/
theorem ends_beside {τ : Type} {phase : EStateM (NewtonError α) (σ × ω) Unit} {Q R : σ × ω → Prop}
    {s : σ} {w : ω × τ} (h : Ends (fun _ => Q) (fun _ => R) (phase (s, w.1))) :
    Ends (fun _ x => Q (x.1, x.2.1) ∧ x.2.2 = w.2) (fun _ x => R (x.1, x.2.1) ∧ x.2.2 = w.2)
      (beside phase (s, w)) := by
  apply Ends.zoom
  exact h.mono (fun _ _ hx => ⟨hx, rfl⟩) fun _ _ hx => ⟨hx, rfl⟩

/-- Every field in the list that a run is recorded in has the property. -/
theorem KeepsField.forall_updates (h : step.KeepsField ready) (hP : step.Establishes ready P)
    (observe : Observer α ω) (hs : ready s) (w : ω) :
    ∀ field ∈ step.updates observe s w, P field := by
  have hkeeps : step.recorded.Keeps ready (fun _ => True) (fun _ => True)
      fun w => ∀ field ∈ w.2, P field := by
    constructor
    case setup =>
      intro s w hs hw
      refine (ends_beside (h.setup s w.1 hs)).mono ?_ ?_
      · exact fun _ x hx => ⟨⟨hx.1.1, trivial⟩, hx.2.symm ▸ hw⟩
      · exact fun _ x hx => ⟨hx.1.1, hx.2.symm ▸ hw⟩
    case solve =>
      intro s w hs hw
      refine (ends_beside (h.solve s w.1 hs.1)).mono ?_ ?_
      · exact fun _ x hx => ⟨⟨hx.1.1, trivial⟩, hx.2.symm ▸ hw⟩
      · exact fun _ x hx => ⟨hx.1.1, hx.2.symm ▸ hw⟩
    case update =>
      intro s w hs hw
      have hbeside : Ends (fun _ x => (ready x.1 ∧ P (step.field x.1)) ∧ x.2.2 = w.2)
          (fun _ x => ready x.1 ∧ ∀ field ∈ x.2.2, P field) (beside step.update (s, w)) := by
        apply (ends_beside (h.update_ends hP hs.1 w.1)).mono fun _ _ hx => hx
        exact fun _ _ hx => ⟨hx.1, hx.2.symm ▸ hw⟩
      refine hbeside.bind ?_
      rintro _ x ⟨⟨hready, hfield⟩, hfields⟩
      refine .ok ⟨hready, fun field hmem => ?_⟩
      rcases List.mem_append.1 hmem with hbefore | hlast
      · exact hw field (hfields ▸ hbefore)
      · rw [List.mem_singleton.1 hlast]
        exact hfield
  have hobserve : ∀ number s (w : ω × List (NodeField α)), ready s → (∀ field ∈ w.2, P field) →
      Ends (fun _ w => ∀ field ∈ w.2, P field) (fun _ w => ∀ field ∈ w.2, P field)
        (observe.beside number (step.field s) w) :=
    fun number s w _ hw => ends_onFirst (Q := fun fields => ∀ field ∈ fields, P field) _ hw
  exact (hkeeps.run observe.beside hobserve hs (w := (w, [])) nofun).left.2

/-- **A property that every update establishes is one that runs settle on.** -/
theorem KeepsField.settlesOn (h : step.KeepsField ready) (hP : step.Establishes ready P)
    (hs : ready s) : step.SettlesOn P s := by
  constructor
  case calls => exact fun observe w calls t hmem ht => (h.performAll hP hs ht).2 (.inl hmem)
  case updates => exact fun observe w => h.forall_updates hP observe hs w
  case run =>
    intro observe w hstart
    rw [h.field_run observe hs w]
    have hupdates := h.forall_updates hP observe hs w
    cases hlast : (step.updates observe s w).getLast? with
    | none =>
      rw [List.getLast?_eq_none_iff] at hlast
      exact hstart.resolve_left fun hne => hne hlast
    | some field => exact hupdates field (List.mem_of_getLast? hlast)

end Settling

end NewtonStep

/-! ### What an update does -/

namespace TwoCarrier

section Floored

variable {M α : Type} [Scalar α] [MaterialKind M] {p : Problem M α} {s t : TwoCarrierState α}

/-- The densities of all nodes that a semiconductor governs are numbers at the floor or above it. -/
def Floored (p : Problem M α) (field : NodeField α) : Prop :=
  ∀ node, p.Governs node → ∀ u : Unknown, u ≠ .potential →
    Scalar.IsFloored p.settings.densityFloor (field.unknown node u)

/-- A field that is like another one but for the potentials, and for the densities of the nodes that
a semiconductor governs, which are at the floor or above it. -/
structure FlooredFrom (p : Problem M α) (before after : NodeField α) : Prop where
  floored : Floored p after
  density : ∀ node, ¬ p.Governs node → ∀ u : Unknown, u ≠ .potential →
    after.unknown node u = before.unknown node u
  values : ∀ q : Quantity, (∀ u : Unknown, u.quantity ≠ q) → after.values q = before.values q

omit [MaterialKind M] in
theorem get_advance {m : LinearSystem.BlockMatrix α} {share floor : α} {size node : ℕ}
    {state state' : NodeState α} (h : advance m share floor size node state = .ok state')
    {q : Quantity} (hq : ∀ u : Unknown, u.quantity ≠ q) : state'.get q = state.get q := by
  have hkept : ∀ potential electronDensity holeDensity : α,
      { state with potential, electronDensity, holeDensity }.get q = state.get q := by
    intro _ _ _
    cases q with
    | potential => exact absurd rfl (hq .potential)
    | electronDensity => exact absurd rfl (hq .electronDensity)
    | holeDensity => exact absurd rfl (hq .holeDensity)
    | _ => rfl
  obtain ⟨v, -, h⟩ := except_bind_eq_ok.1 h
  split at h
  · obtain ⟨n, -, h⟩ := except_bind_eq_ok.1 h
    obtain ⟨c, -, h⟩ := except_bind_eq_ok.1 h
    cases h
    exact hkept _ _ _
  · cases h
    exact hkept _ state.electronDensity state.holeDensity

theorem values_update (hs : Shaped p s) (h : update p.settings s = .ok t) {q : Quantity}
    (hq : ∀ u : Unknown, u.quantity ≠ q) : t.field.values q = s.field.values q := by
  obtain ⟨field, reports, -, hfield, -, h⟩ := update_eq_ok.1 h
  have hcount : field.nodes.size = s.field.nodes.size := by
    have hcount := nodeCount_advanceField hfield
    rw [hs.fitting.nodes, min_self] at hcount
    exact hcount
  rw [h]
  apply Array.ext_getElem?
  intro node
  rw [NodeField.values, NodeField.values, Array.getElem?_map, Array.getElem?_map]
  rcases Nat.lt_or_ge node s.field.nodes.size with hnode | hnode
  · obtain ⟨m, -, hsize⟩ := getElem?_blockSizes hs.sizes (lt_of_lt_of_eq hnode hs.nodes)
    obtain ⟨state', hstate', hadvance⟩ :=
      getElem?_advanceField hfield (Array.getElem?_eq_getElem hnode) hsize
    rw [hstate', Array.getElem?_eq_getElem hnode, Option.map_some, Option.map_some,
      get_advance hadvance hq]
  · rw [Array.getElem?_eq_none hnode, Array.getElem?_eq_none (hcount.trans_le hnode)]

/-- The floor is what a density comes to that is led below it or to no number. -/
theorem flooredFrom_update [ComparableScalar α]
    (hfloor : Scalar.IsNumber p.settings.densityFloor) (hs : Shaped p s)
    (h : update p.settings s = .ok t) : FlooredFrom p s.field t.field := by
  constructor
  case floored =>
    intro node hnode u hu
    rw [unknown_update hs h node u, if_pos (mem_unknowns_of_governs hs.sizes hnode u)]
    cases u with
    | potential => exact absurd rfl hu
    | electronDensity => exact ComparableScalar.isFloored_larger hfloor _
    | holeDensity => exact ComparableScalar.isFloored_larger hfloor _
  case density =>
    intro node hnode u hu
    rw [unknown_update hs h node u, if_neg]
    exact fun hmem => hnode (governs_of_mem_unknowns hs.sizes hmem hu)
  case values => exact fun q hq => values_update hs h hq

end Floored

section Exact

variable {M α : Type} [ExactScalar α] [MaterialKind M] {p : Problem M α} {s t : TwoCarrierState α}

/-- How far an update has moved the unknowns: with the factor that it has found, if this is to be
applied, and by their whole increments otherwise. -/
structure FollowsIncrements (p : Problem M α) (s t : TwoCarrierState α) : Prop where
  factor : findDamping p.settings s = .ok t.dampingFactor
  apply : p.settings.damping = .apply → ∀ node,
    (node < p.nodeCount → t.field.unknown node .potential =
      s.field.unknown node .potential + t.dampingFactor * increment s node .potential) ∧
    (p.Governs node → ∀ u : Unknown, u ≠ .potential → t.field.unknown node u =
      s.field.unknown node u + t.dampingFactor * increment s node u)
  report : p.settings.damping = .report → ∀ node,
    (node < p.nodeCount → t.field.unknown node .potential =
      s.field.unknown node .potential + increment s node .potential) ∧
    (p.Governs node → ∀ u : Unknown, u ≠ .potential → t.field.unknown node u =
      max (s.field.unknown node u + increment s node u) p.settings.densityFloor)

omit [MaterialKind M] in
theorem moved_of_le {share floor value increment : α} {u : Unknown}
    (h : u ≠ .potential → floor ≤ value + share * increment) :
    moved share floor u value increment = value + share * increment := by
  have hdensity : u ≠ .potential →
      Scalar.larger (value + share * increment) floor = value + share * increment := by
    intro hu
    rw [ExactScalar.larger_eq_max, max_eq_left (h hu)]
  cases u with
  | potential => rfl
  | electronDensity => exact hdensity (by decide)
  | holeDensity => exact hdensity (by decide)

theorem followsIncrements_update (hs : Shaped p s) (h : update p.settings s = .ok t) :
    FollowsIncrements p s t := by
  obtain ⟨_, _, hfactor, -⟩ := update_eq_ok.1 h
  obtain ⟨-, hadmits⟩ := hs.fitting.of_findDamping hfactor
  have hpotential : ∀ node < p.nodeCount, (node, .potential) ∈ unknowns s.blockSizes :=
    fun node hnode => mem_unknowns.2 (getD_blockSizes_pos hs.sizes hnode)
  have hcarrier : ∀ node, p.Governs node → ∀ u, (node, u) ∈ unknowns s.blockSizes :=
    fun node hnode u => mem_unknowns_of_governs hs.sizes hnode u
  constructor
  case factor => exact hfactor
  case apply =>
    intro hdamping node
    have hshare : appliedShare p.settings t.dampingFactor = t.dampingFactor := by
      rw [appliedShare, hdamping]
    have hmoved : ∀ u, (node, u) ∈ unknowns s.blockSizes → t.field.unknown node u =
        s.field.unknown node u + t.dampingFactor * increment s node u := by
      intro u hu
      -- the densities that the search has compared are those that are moved
      rw [unknown_update hs h node u, if_pos hu, hshare, moved_of_le (hadmits node u hu)]
    exact ⟨fun hnode => hmoved _ (hpotential node hnode),
      fun hnode u _ => hmoved u (hcarrier node hnode u)⟩
  case report =>
    intro hdamping node
    have hshare : appliedShare p.settings t.dampingFactor = 1 := by
      rw [appliedShare, hdamping]
      exact ExactScalar.ofDecimal_one
    constructor
    · intro hnode
      rw [unknown_update hs h node _, if_pos (hpotential node hnode), hshare, moved, one_mul]
    · intro hnode u hu
      rw [unknown_update hs h node u, if_pos (hcarrier node hnode u), hshare]
      cases u with
      | potential => exact absurd rfl hu
      | electronDensity => rw [moved, one_mul, ExactScalar.larger_eq_max]
      | holeDensity => rw [moved, one_mul, ExactScalar.larger_eq_max]

end Exact

section Iteration

variable {M α ω : Type} [Scalar α] [ComparableScalar α] [MaterialModel M α] [BEq M]
  {p : Problem M α} {s : TwoCarrierState α}

theorem establishes_floored (hfloor : Scalar.IsNumber p.settings.densityFloor)
    (observer : SolveObserver α ω) : (step p observer).Establishes (Shaped p) (Floored p) := by
  intro s w t hs h
  obtain ⟨hupdate, -⟩ := onFirst_eq_ok.1 h
  exact (flooredFrom_update hfloor hs (update_of_updateInPlace hupdate)).floored

end Iteration

/-! ### A starved slab and a row of silicon -/

/-- The same densities at both nodes of the slab. -/
def flatField (electrons holes : Float) : NodeField Float :=
  ⟨#[⟨0, 0, 0, 0, electrons, holes, 0, 0⟩, ⟨0, 0, 0, 0, electrons, holes, 0, 0⟩]⟩

/-- Increments of the densities of which some are infinite and some no numbers. -/
def wildSolution : Array Float :=
  #[0, 0 / 0, 1 / 0, 0, 1 / 0, 0 / 0]

/-- Whether an update with these increments succeeds on the starved slab. -/
def updatesWith (field : NodeField Float) (x : Array Float) : Bool :=
  match start starvedSlab field with
  | .error _ => false
  | .ok s => x.size = s.assembly.matrix.solution.size &&
    match updateInPlace starvedSlab.settings (withSolution s x) with
    | .error _ _ => false
    | .ok _ _ => true

theorem exists_of_updatesWith {field : NodeField Float} {x : Array Float}
    (h : updatesWith field x = true) :
    ∃ s t, Shaped starvedSlab s ∧ s.assembly.matrix.solution = x ∧
      updateInPlace starvedSlab.settings s = .ok () t := by
  unfold updatesWith at h
  split at h
  · cases h
  · next s hs =>
    rw [Bool.and_eq_true, decide_eq_true_eq] at h
    obtain ⟨hsize, h⟩ := h
    split at h
    · cases h
    · next t ht => exact ⟨_, t, (shaped_start hs).1.withSolution hsize, rfl, ht⟩

/-- The number of updates that a run on the starved slab completes. -/
def completedUpdates (field : NodeField Float) : ℕ :=
  match start starvedSlab field with
  | .error _ => 0
  | .ok s => ((step starvedSlab .silent).updates .silent s ()).length

theorem exists_start_of_completedUpdates {field : NodeField Float}
    (h : 0 < completedUpdates field) :
    ∃ s, start starvedSlab field = .ok s ∧
      (step starvedSlab .silent).updates .silent s () ≠ [] := by
  unfold completedUpdates at h
  split at h
  · exact absurd h (lt_irrefl 0)
  · next s hs => exact ⟨s, hs, List.ne_nil_of_length_pos h⟩

/-- A problem whose damping factors are applied. -/
def damped {M α : Type} (p : Problem M α) : Problem M α :=
  { p with settings := { p.settings with damping := .apply } }

theorem Shaped.damped {M α : Type} [Scalar α] [MaterialKind M] {p : Problem M α}
    {s : TwoCarrierState α} (hs : Shaped p s) : Shaped (damped p) s :=
  ⟨hs.nodes, hs.sizes, hs.equipped⟩

theorem Fitting.exists_updateInPlace {α : Type} [Scalar α] {settings : Settings α}
    {s : TwoCarrierState α} (h : Fitting s) {factor : α}
    (hfactor : findDamping settings s = .ok factor) :
    ∃ t, updateInPlace settings s = .ok () t := by
  cases hr : updateInPlace settings s with
  | ok u t => exact ⟨t, rfl⟩
  | error e t =>
    obtain ⟨-, he⟩ := h.of_updateInPlace_error hr
    rw [hfactor] at he
    cases he

/-! ### The densities after an update -/

/-- **What a two-carrier update leaves.** Over every scalar type whose numbers can be compared, with
a floor that is a number and whatever the increments are, an update that succeeds leaves the
densities of the semiconductors at the floor or above it and changes no other density and nothing
that is no unknown. Over an exact one it moves every unknown by the factor it has found times its
increment, if that factor is to be applied, for then no density comes below the floor; otherwise it
moves them by their whole increments and lifts the densities that come below the floor. Hence the
densities are at the floor or above it from the first update of a run on, whoever looks on and
however the run ends. -/
theorem densities_kept_at_floor :
    (∀ (M α : Type) [Scalar α] [ComparableScalar α] [MaterialKind M] (p : Problem M α)
      (s t : TwoCarrierState α), Scalar.IsNumber p.settings.densityFloor → Shaped p s →
      updateInPlace p.settings s = .ok () t → FlooredFrom p s.field t.field) ∧
    (∀ (M α : Type) [ExactScalar α] [MaterialKind M] (p : Problem M α) (s t : TwoCarrierState α),
      Shaped p s → updateInPlace p.settings s = .ok () t → FollowsIncrements p s t) ∧
    ∀ (M α ω : Type) [Scalar α] [ComparableScalar α] [MaterialModel M α] [BEq M] (p : Problem M α)
      (s : TwoCarrierState α) (observer : SolveObserver α ω),
      Scalar.IsNumber p.settings.densityFloor → Reachable p s →
      (step p observer).SettlesOn (Floored p) s := by
  refine ⟨?_, ?_, ?_⟩
  · intro M α _ _ _ p s t hfloor hs h
    exact flooredFrom_update hfloor hs (update_of_updateInPlace h)
  · intro M α _ _ p s t hs h
    exact followsIncrements_update hs (update_of_updateInPlace h)
  · intro M α ω _ _ _ _ p s observer hfloor hs
    exact (keepsField p observer).settlesOn (establishes_floored hfloor observer) hs.shaped

/-- An increment that is no number leaves a density at the floor, and so does a run on a field whose
densities are none. A density that is led below the floor ends at it, or above it where it follows
half of its increment only. -/
theorem densities_kept_at_floor_starvedSlab :
    (∃ s t, s.assembly.matrix.solution = wildSolution ∧
      updateInPlace starvedSlab.settings s = .ok () t ∧ FlooredFrom starvedSlab s.field t.field) ∧
    (∃ s t t', RowState false drained filled s ∧
      updateInPlace (siliconRow false).settings s = .ok () t ∧
      updateInPlace (damped (siliconRow false)).settings s = .ok () t' ∧
      t.field.unknown 1 .electronDensity = max (2 + -2) 1 ∧
      t'.field.unknown 1 .electronDensity = 2 + 1 / 2 * -2) ∧
    ∃ s, start starvedSlab (flatField (0 / 0) (0 / 0)) = .ok s ∧
      Floored starvedSlab (left ((step starvedSlab .silent).run .silent (s, ()))).1.field := by
  have hnumber : Scalar.IsNumber starvedSlab.settings.densityFloor := by
    unfold Scalar.IsNumber
    decide +kernel
  obtain ⟨hfloored, hexact, hruns⟩ := densities_kept_at_floor
  refine ⟨?_, ?_, ?_⟩
  · have hupdates : updatesWith (flatField 3 3) wildSolution = true := by decide +kernel
    obtain ⟨s, t, hs, hx, ht⟩ := exists_of_updatesWith hupdates
    exact ⟨s, t, hx, ht, hfloored _ _ starvedSlab s t hnumber hs ht⟩
  · have hhalf : rowOutcome false drained filled = some (.ok (1 / 2)) := by decide +kernel
    obtain ⟨s, hs, hfind⟩ := exists_rowState hhalf
    obtain ⟨t, ht⟩ := hs.shaped.fitting.exists_updateInPlace hfind
    have hfind' : findDamping (damped (siliconRow false)).settings s = .ok (1 / 2) := hfind
    obtain ⟨t', ht'⟩ := hs.shaped.fitting.exists_updateInPlace hfind'
    have hgoverns : (siliconRow false).Governs 1 := governs_siliconRow.2 (by decide)
    refine ⟨s, t, t', hs, ht, ht', ?_, ?_⟩
    · have hmoves := hexact _ _ (siliconRow false) s t hs.shaped ht
      rw [(hmoves.report rfl 1).2 hgoverns _ (by decide), hs.unknown, hs.increment (by decide)]
      rfl
    · have hmoves := hexact _ _ (damped (siliconRow false)) s t' hs.shaped.damped ht'
      have hfactor : t'.dampingFactor = 1 / 2 :=
        (Except.ok.inj (hfind'.symm.trans hmoves.factor)).symm
      rw [(hmoves.apply rfl 1).2 hgoverns _ (by decide), hs.unknown, hs.increment (by decide),
        hfactor]
      rfl
  · have hcount : 0 < completedUpdates (flatField (0 / 0) (0 / 0)) := by decide +kernel
    obtain ⟨s, hs, hupdates⟩ := exists_start_of_completedUpdates hcount
    have hsettles := hruns _ _ Unit starvedSlab s .silent hnumber (.start hs)
    exact ⟨s, hs, hsettles.run .silent () (.inl hupdates)⟩

end TwoCarrier

end CarrierTransport.Newton
