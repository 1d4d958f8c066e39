import Mathlib
import CarrierTransport.Proofs.Newton.Contacts
import CarrierTransport.Proofs.Newton.Convergence
import CarrierTransport.Proofs.Newton.Damping
import CarrierTransport.Proofs.State.Unknown

/-!
# Fields that an update does not change

An update adds a share of its increment to every unknown and keeps the densities at their floor
(`TwoCarrier.unknown_update`). The floor can hide an increment: a density that sits on it stays
there if its increment is negative. But the factor found for the increments keeps the densities
above the floor, so a negative increment of such a density is never applied, and over an exact
scalar type an update changes nothing if and only if all increments are zero
(`TwoCarrier.field_update_eq_iff`).

The increments solve the assembled system, which is regular where its solve succeeds. So the field
is a fixed point of the iteration exactly if the right hand side is zero
(`TwoCarrier.update_stands_still_iff`).
-/

namespace CarrierTransport.Newton.TwoCarrier

open LinearSystem (BlockMatrix SolveObserver Workspace)
open LinearSystem.BlockMatrix
open Physics (MaterialKind MaterialModel)
open State (NodeField NodeState PerUnknown Unknown)
open Transition

/-! ### What a solve leaves behind -/

section Solved

variable {M α ω : Type}

theorem fst_of_lookIn {observe : BlockMatrix α → EStateM StorageError ω Unit}
    {x y : (BlockMatrix α × Workspace α) × ω} {v : Unit}
    (h : SolveObserver.lookIn observe x = .ok v y) : y.1 = x.1 := by
  obtain ⟨⟨m, ws⟩, w⟩ := x
  obtain ⟨⟨m', w'⟩, hlook, rfl⟩ := zoom_eq_ok.1 h
  unfold SolveObserver.look at hlook
  dsimp only at hlook
  split at hlook
  · cases hlook
    rfl
  · cases hlook

/-- A solve that succeeds has solved the assembled system, whoever has looked at it. -/
theorem of_solve [Scalar α] [MaterialKind M] {p : Problem M α} {s t : TwoCarrierState α}
    {observer : SolveObserver α ω} {w w' : ω} (hs : Shaped p s)
    (h : solve observer (s, w) = .ok () (t, w')) :
    ∃ m ws, BlockMatrix.solve s.assembly.matrix = .ok () m ∧
      t = { s with assembly := { s.assembly with matrix := m }, workspace := ws } := by
  obtain ⟨⟨⟨m, ws⟩, w₃⟩, hobserved, ht⟩ := zoom_eq_ok.1 (widenError_eq_ok.1 h)
  obtain ⟨_, x, hbefore, hobserved⟩ := bind_eq_ok.1 hobserved
  obtain ⟨_, y, hsolve, hafter⟩ := bind_eq_ok.1 hobserved
  obtain ⟨⟨_, _⟩, w₁⟩ := x
  cases fst_of_lookIn hbefore
  have hlast := fst_of_lookIn hafter
  obtain ⟨hsolve, -⟩ := onFirst_eq_ok.1 hsolve
  rw [← hlast] at hsolve
  obtain ⟨ws', -, hsolveIn⟩ := hs.equipped.solveIn_eq
  rw [hsolveIn] at hsolve
  split at hsolve
  · next hm =>
    cases hsolve
    cases ht
    exact ⟨m, ws, hm, rfl⟩
  · cases hsolve

end Solved

/-! ### What an update does to an unknown -/

section Moved

variable {M α : Type} [Scalar α]

/-- The increment that the last solve has left for an unknown. -/
def increment (s : TwoCarrierState α) (node : Nat) (u : Unknown) : α :=
  s.assembly.matrix.solution.getD (s.assembly.matrix.layout.offset node + u.sub) 0

/-- A value after a share of its increment, a density kept at the floor. -/
def moved (share floor : α) (u : Unknown) (value increment : α) : α :=
  match u with
  | .potential => value + share * increment
  | .electronDensity | .holeDensity => Scalar.larger (value + share * increment) floor

variable {settings : Settings α} {s t : TwoCarrierState α} {node : Nat} {u : Unknown}

theorem Fitting.blockSolution (h : Fitting s) (hu : (node, u) ∈ unknowns s.blockSizes) :
    s.assembly.matrix.blockSolution node u.sub = .ok (increment s node u) := by
  rw [mem_unknowns, ← h.sizes] at hu
  exact blockSolution_of_lt hu

theorem unknown_of_advance {m : BlockMatrix α} {share floor : α} {size : Nat}
    {state state' : NodeState α} (hsize : size = 1 ∨ size = semiconductorBlock)
    (h : advance m share floor size node state = .ok state') (u : Unknown) :
    state'.get u.quantity =
      if u.sub < size then
        moved share floor u (state.get u.quantity)
          (m.solution.getD (m.layout.offset node + u.sub) 0)
      else state.get u.quantity := by
  obtain ⟨v, hv, h⟩ := except_bind_eq_ok.1 h
  obtain ⟨-, rfl⟩ := blockSolution_eq_ok.1 hv
  rcases hsize with rfl | rfl
  · rw [if_neg (by decide)] at h
    cases h
    cases u <;> rfl
  · rw [if_pos rfl] at h
    obtain ⟨n, hn, h⟩ := except_bind_eq_ok.1 h
    obtain ⟨-, rfl⟩ := blockSolution_eq_ok.1 hn
    obtain ⟨q, hq, h⟩ := except_bind_eq_ok.1 h
    obtain ⟨-, rfl⟩ := blockSolution_eq_ok.1 hq
    cases h
    cases u <;> rfl

variable [MaterialKind M] {p : Problem M α}

/-- Every unknown of the system moves by a share of its increment, and nothing else moves. -/
theorem unknown_update (hs : Shaped p s) (h : update settings s = .ok t) (node : Nat)
    (u : Unknown) :
    t.field.unknown node u =
      if (node, u) ∈ unknowns s.blockSizes then
        moved (appliedShare settings t.dampingFactor) settings.densityFloor u
          (s.field.unknown node u) (increment s node u)
      else s.field.unknown node u := by
  obtain ⟨field, reports, -, hfield, -, h⟩ := update_eq_ok.1 h
  rw [h]
  simp only [mem_unknowns]
  rcases Nat.lt_or_ge node p.nodeCount with hnode | hnode
  · have hnode' : node < s.field.nodes.size := lt_of_lt_of_eq hnode hs.nodes.symm
    obtain ⟨m, -, hsize⟩ := getElem?_blockSizes hs.sizes hnode
    obtain ⟨state, hstate, hadvance⟩ :=
      getElem?_advanceField hfield (Array.getElem?_eq_getElem hnode') hsize
    have hblock : ∀ b : Bool, (if b then semiconductorBlock else 1) = 1 ∨
        (if b then semiconductorBlock else 1) = semiconductorBlock := by
      decide
    have hmoved := unknown_of_advance (hblock _) hadvance u
    rw [NodeField.unknown, NodeField.unknown, hstate, Array.getElem?_eq_getElem hnode',
      Array.getD_eq_getD_getElem?, hsize]
    exact hmoved
  · have hcount := nodeCount_advanceField hfield
    have hsizes := size_blockSizes hs.sizes
    have hfield' : field.nodes.size ≤ node := by
      refine le_trans (le_of_eq hcount) ?_
      rw [hsizes]
      exact (min_le_right _ _).trans hnode
    have hnodes : s.field.nodes.size ≤ node := le_trans (le_of_eq hs.nodes) hnode
    rw [NodeField.unknown, NodeField.unknown, Array.getElem?_eq_none hfield',
      Array.getElem?_eq_none hnodes, Array.getD_eq_getD_getElem?,
      Array.getElem?_eq_none (hsizes.trans_le hnode)]
    rfl

end Moved

/-! ### The densities that are damped -/

section Damped

variable {M α : Type} [Scalar α] {s : TwoCarrierState α}

theorem Fitting.dampingTargets_eq (h : Fitting s) :
    dampingTargets s =
      .ok (((unknowns s.blockSizes).filter fun i => i.2 ≠ .potential).map fun i =>
        (s.field.unknown i.1 i.2, increment s i.1 i.2)) := by
  apply Loop.mapM_eq_ok.2
  rw [List.forall₂_map_right_iff, List.forall₂_same]
  rintro ⟨node, u⟩ hu
  exact except_bind_eq_ok.2 ⟨_, h.blockSolution (List.mem_of_mem_filter hu), rfl⟩

variable [MaterialKind M] {p : Problem M α}

/-- The densities of all nodes that a semiconductor governs are at the floor or above it. -/
def AboveFloor (p : Problem M α) (field : NodeField α) : Prop :=
  ∀ node, p.Governs node → p.settings.densityFloor ≤ field.unknown node .electronDensity ∧
    p.settings.densityFloor ≤ field.unknown node .holeDensity

omit [Scalar α] in
/-- A block has no other numbers than those of the three unknowns. -/
theorem exists_unknown_of_lt {sizes : Array Nat} {node k : Nat} (hsizes : blockSizes p = .ok sizes)
    (hk : k < sizes.getD node 0) : ∃ u : Unknown, u.sub = k := by
  obtain ⟨m, -, hk⟩ := exists_governing_of_lt hsizes hk
  have hthree : k < 3 := by
    refine lt_of_lt_of_le hk ?_
    split <;> decide
  interval_cases k
  · exact ⟨.potential, rfl⟩
  · exact ⟨.electronDensity, rfl⟩
  · exact ⟨.holeDensity, rfl⟩

omit [Scalar α] in
/-- A node with more unknowns than the potential is governed by a semiconductor. -/
theorem governs_of_mem_unknowns {sizes : Array Nat} {node : Nat} {u : Unknown}
    (hsizes : blockSizes p = .ok sizes) (hu : (node, u) ∈ unknowns sizes)
    (hcarrier : u ≠ .potential) : p.Governs node := by
  obtain ⟨m, hm, hlt⟩ := exists_governing_of_lt hsizes (mem_unknowns.1 hu)
  refine ⟨m, hm, ?_⟩
  by_contra hinsulator
  rw [if_neg hinsulator] at hlt
  cases u with
  | potential => exact hcarrier rfl
  | electronDensity => exact absurd hlt (by decide)
  | holeDensity => exact absurd hlt (by decide)

theorem AboveFloor.le_unknown {field : NodeField α} (h : AboveFloor p field) {sizes : Array Nat}
    {node : Nat} {u : Unknown} (hsizes : blockSizes p = .ok sizes)
    (hu : (node, u) ∈ unknowns sizes) (hcarrier : u ≠ .potential) :
    p.settings.densityFloor ≤ field.unknown node u := by
  obtain ⟨helectrons, hholes⟩ := h node (governs_of_mem_unknowns hsizes hu hcarrier)
  cases u with
  | potential => exact absurd rfl hcarrier
  | electronDensity => exact helectrons
  | holeDensity => exact hholes

end Damped

/-! ### Updates that change nothing -/

section Exact

variable {M α : Type} [ExactScalar α] {settings : Settings α} {s t : TwoCarrierState α}

/-- A factor that is found keeps the densities above the floor. -/
theorem Fitting.of_findDamping (h : Fitting s) {factor : α}
    (hfactor : findDamping settings s = .ok factor) :
    0 < factor ∧ ∀ node u, (node, u) ∈ unknowns s.blockSizes → u ≠ .potential →
      settings.densityFloor ≤ s.field.unknown node u + factor * increment s node u := by
  obtain ⟨targets, htargets, hfind⟩ := findDamping_eq_ok.1 hfactor
  rw [h.dampingTargets_eq] at htargets
  cases htargets
  obtain ⟨hpos, hall⟩ := Damping.of_find hfind
  refine ⟨hpos, fun node u hu hcarrier => ?_⟩
  apply hall (s.field.unknown node u, increment s node u)
  exact List.mem_map.2 ⟨(node, u), List.mem_filter.2 ⟨hu, by simpa using hcarrier⟩, rfl⟩

/-- A value at the floor or above it, whose increment does not lead below the floor at some factor,
stays where it is only if it has no increment. -/
theorem moved_eq_self_iff {share factor floor value increment : α} {u : Unknown}
    (hshare : 0 < share) (hfactor : 0 < factor) (hvalue : u ≠ .potential → floor ≤ value)
    (hadmits : u ≠ .potential → floor ≤ value + factor * increment) :
    moved share floor u value increment = value ↔ increment = 0 := by
  have hsum : value + share * increment = value ↔ increment = 0 := by
    rw [add_eq_left, mul_eq_zero, or_iff_right hshare.ne']
  have hdensity : u ≠ .potential →
      (Scalar.larger (value + share * increment) floor = value ↔ increment = 0) := by
    intro hu
    rw [ExactScalar.larger_eq_max]
    constructor
    · intro h
      rcases max_choice (value + share * increment) floor with hmax | hmax
      · rw [hmax] at h
        exact hsum.1 h
      · -- the floor hides a negative increment only from a density that sits on it
        have hle : value + share * increment ≤ floor := hmax ▸ le_max_left _ _
        have hat : value = floor := h.symm.trans hmax
        have hnonpos : share * increment ≤ 0 := by linarith
        have hnonneg : 0 ≤ factor * increment := by linarith [hadmits hu]
        apply le_antisymm
        · exact nonpos_of_mul_nonpos_right hnonpos hshare
        · exact nonneg_of_mul_nonneg_right hnonneg hfactor
    · intro h
      rw [hsum.2 h, max_eq_left (hvalue hu)]
  cases u with
  | potential => exact hsum
  | electronDensity => exact hdensity (by decide)
  | holeDensity => exact hdensity (by decide)

variable [MaterialKind M] {p : Problem M α}

/-- **An update changes nothing if and only if nothing has an increment.** -/
theorem field_update_eq_iff (hs : Shaped p s) (hfloor : AboveFloor p s.field)
    (h : update p.settings s = .ok t) :
    (∀ node u, t.field.unknown node u = s.field.unknown node u) ↔
      ∀ node u, (node, u) ∈ unknowns s.blockSizes → increment s node u = 0 := by
  obtain ⟨_, _, hfactor, -⟩ := update_eq_ok.1 h
  obtain ⟨hpos, hadmits⟩ := hs.fitting.of_findDamping hfactor
  have hshare : 0 < appliedShare p.settings t.dampingFactor := by
    unfold appliedShare
    split
    · exact ExactScalar.ofDecimal_pos (by decide) _ _
    · exact hpos
  have hmoved : ∀ node u, (node, u) ∈ unknowns s.blockSizes →
      (t.field.unknown node u = s.field.unknown node u ↔ increment s node u = 0) := by
    intro node u hu
    rw [unknown_update hs h node u, if_pos hu]
    exact moved_eq_self_iff hshare hpos (hfloor.le_unknown hs.sizes hu) (hadmits node u hu)
  constructor
  · intro hsame node u hu
    exact (hmoved node u hu).1 (hsame node u)
  · intro hzero node u
    by_cases hu : (node, u) ∈ unknowns s.blockSizes
    · exact (hmoved node u hu).2 (hzero node u hu)
    · rw [unknown_update hs h node u, if_neg hu]

/-- Without increments the whole of them is admissible. -/
theorem findDamping_of_increments (hs : Shaped p s) (hfloor : AboveFloor p s.field)
    (hzero : ∀ node u, (node, u) ∈ unknowns s.blockSizes → increment s node u = 0) :
    findDamping p.settings s = .ok 1 := by
  refine findDamping_eq_ok.2 ⟨_, hs.fitting.dampingTargets_eq, Damping.find_eq_one ?_⟩
  intro target htarget
  obtain ⟨⟨node, u⟩, hu, rfl⟩ := List.mem_map.1 htarget
  obtain ⟨hu, hcarrier⟩ := List.mem_filter.1 hu
  rw [hzero node u hu, add_zero]
  exact hfloor.le_unknown hs.sizes hu (by simpa using hcarrier)

/-- All rows belong to unknowns, so no unknown has an increment where the solution is zero, and
nowhere else. -/
theorem forall_increment_eq_zero_iff (hs : Shaped p s) :
    (∀ node u, (node, u) ∈ unknowns s.blockSizes → increment s node u = 0) ↔
      ∀ row, s.assembly.matrix.solution.getD row 0 = 0 := by
  constructor
  · intro hzero row
    obtain ⟨base, hbase, hover, -⟩ := hs.equipped
    have hwell := hs.equipped.wellFormed
    have hsize : s.assembly.matrix.solution.size = s.assembly.matrix.layout.total := by
      rw [hwell.solution_size, ← hwell.rhs_size, hover.matrix.rhs_size, hover.matrix.layout]
      exact p.size_rhs_matrix hbase
    rcases Nat.lt_or_ge row s.assembly.matrix.layout.total with hrow | hrow
    · obtain ⟨node, -, hblock⟩ := s.assembly.matrix.layout.exists_block hrow
      obtain ⟨hle, hlt⟩ := s.assembly.matrix.layout.mem_block.1 hblock
      obtain ⟨k, rfl⟩ := Nat.exists_eq_add_of_le hle
      rw [hs.fitting.sizes] at hlt
      have hk : k < s.blockSizes.getD node 0 := by omega
      obtain ⟨u, rfl⟩ := exists_unknown_of_lt hs.sizes hk
      exact hzero node u (mem_unknowns.2 hk)
    · rw [Array.getD_eq_getD_getElem?, Array.getElem?_eq_none (by omega), Option.getD_none]
  · intro hzero node u _
    exact hzero _

/-! ### What such an update reports -/

omit [MaterialKind M] in
theorem eq_zero_of_selectedIncrement {policy : IncrementPolicy} {value maximum v : α}
    (h : selectedIncrement policy 0 value maximum = some v) : v = 0 := by
  cases policy with
  | relativeToValue =>
    cases h
    exact zero_div _
  | relativeToMaximum =>
    simp only [selectedIncrement, zero_div] at h
    split at h
    · cases h
    · exact (Option.some.inj h).symm
  | relativeToBlend =>
    simp only [selectedIncrement, zero_div] at h
    split at h
    · cases h
    · exact (Option.some.inj h).symm

/-- Without increments there is nothing to report. -/
theorem magnitude_incrementReports {m : BlockMatrix α} {field : NodeField α}
    {items : List (Nat × Unknown)} {reports : PerUnknown (IncrementReport α)}
    (hzero : ∀ row, m.solution.getD row 0 = 0) (h : incrementReports m field items = .ok reports)
    (u : Unknown) (policy : IncrementPolicy) :
    ((reports.get u).selected policy).magnitude = 0 := by
  have hvalue : ∀ u policy, ((reports.get u).selected policy).value = 0 := by
    refine Loop.foldlM_invariant (fun _ (reports : PerUnknown (IncrementReport α)) =>
      ∀ u policy, ((reports.get u).selected policy).value = 0) ?_ ?_ h
    · intro u policy
      rw [PerUnknown.get_constant]
      cases policy <;> rfl
    · rintro done ⟨node, w⟩ reports reports' hreports hstep u policy
      obtain ⟨v, hv, hstep⟩ := except_bind_eq_ok.1 hstep
      obtain ⟨-, rfl⟩ := blockSolution_eq_ok.1 hv
      cases hstep
      rw [PerUnknown.get_modify]
      split
      · rw [selected_reportIncrement, hzero]
        split
        · next v hv =>
          unfold Extremum.offerInclusive
          split
          · exact eq_zero_of_selectedIncrement hv
          · exact hreports u policy
        · exact hreports u policy
      · exact hreports u policy
  rw [Extremum.magnitude, hvalue, ExactScalar.abs_eq_abs, abs_zero]

/-- What an update reports that has found nothing to change. -/
structure ReportsRest (settings : Settings α) (t : TwoCarrierState α) : Prop where
  dampingFactor : t.dampingFactor = 1
  increments : ∀ u policy, ((t.increments.get u).selected policy).magnitude = 0
  incrementConverged : 0 < settings.incrementTolerance → t.incrementConverged = true

theorem reportsRest_update (hs : Shaped p s) (hfloor : AboveFloor p s.field)
    (hzero : ∀ row, s.assembly.matrix.solution.getD row 0 = 0) (h : update p.settings s = .ok t) :
    ReportsRest p.settings t := by
  obtain ⟨field, reports, hfactor, -, hreports, h⟩ := update_eq_ok.1 h
  rw [findDamping_of_increments hs hfloor ((forall_increment_eq_zero_iff hs).2 hzero)] at hfactor
  have hone : t.dampingFactor = 1 := (Except.ok.inj hfactor).symm
  have hmagnitude := magnitude_incrementReports hzero hreports
  rw [h]
  constructor
  case dampingFactor => exact hone
  case increments => exact hmagnitude
  case incrementConverged =>
    intro hpos
    dsimp only
    rw [PerUnknown.all_toList]
    intro u
    rw [hmagnitude, decide_eq_true_eq]
    exact hpos

/-! ### Fixed points -/

/-- The update of a state succeeds and leaves the potential and both densities of every node as
they are. -/
def StandsStill (settings : Settings α) (s : TwoCarrierState α) : Prop :=
  ∃ t, updateInPlace settings s = .ok () t ∧
    ∀ node u, t.field.unknown node u = s.field.unknown node u

theorem standsStill_iff (hs : Shaped p s) (hfloor : AboveFloor p s.field) :
    StandsStill p.settings s ↔ ∀ row, s.assembly.matrix.solution.getD row 0 = 0 := by
  rw [← forall_increment_eq_zero_iff hs]
  constructor
  · rintro ⟨t, ht, hsame⟩
    exact (field_update_eq_iff hs hfloor (update_of_updateInPlace ht)).1 hsame
  · intro hzero
    cases ht : updateInPlace p.settings s with
    | ok _ t =>
      exact ⟨t, ht, (field_update_eq_iff hs hfloor (update_of_updateInPlace ht)).2 hzero⟩
    | error e t =>
      -- only the search for a damping factor could fail, and it finds one
      obtain ⟨-, hfactor⟩ := hs.fitting.of_updateInPlace_error ht
      rw [findDamping_of_increments hs hfloor hzero] at hfactor
      cases hfactor

end Exact

section Iteration

variable {M α ω : Type} [ExactScalar α] [MaterialModel M α] [BEq M] {p : Problem M α}
  {s t u : TwoCarrierState α} {observer : SolveObserver α ω} {w w' : ω}

/-- **The fixed points of the iteration are the zeros of the residual.** Where no density is below
the floor and a setup and a solve succeed, the update that follows succeeds and changes nothing if
and only if the assembled right hand side is zero, with either damping policy and whoever looks at
the solve. Such an update damps nothing, reports increments of magnitude zero, and takes them as
converged for every positive tolerance. -/
theorem update_stands_still_iff (hmin : 0 < (Scalar.minPositive : α))
    (htolerance : Scalar.minPositive ≤ p.settings.pivotTolerance) (hs : Reachable p s)
    (hfloor : AboveFloor p s.field) (ht : setup p s = .ok () t)
    (hu : solve observer (t, w) = .ok () (u, w')) :
    (StandsStill p.settings u ↔ ∀ row, t.assembly.matrix.rhs.getD row 0 = 0) ∧
      ∀ v, updateInPlace p.settings u = .ok () v →
        (∀ node q, v.field.unknown node q = u.field.unknown node q) → ReportsRest p.settings v := by
  have hreachable : Reachable p t := by
    have hsetup := hs.setup
    rwa [ht] at hsetup
  have hshaped : Shaped p u := by
    have hsolve := hreachable.solve observer w
    rw [hu] at hsolve
    exact hsolve.shaped
  obtain ⟨m, ws, hm, rfl⟩ := of_solve hreachable.shaped hu
  rw [← (of_setup ht).2] at hfloor
  have hzero : (∀ row, m.solution.getD row 0 = 0) ↔
      ∀ row, t.assembly.matrix.rhs.getD row 0 = 0 := by
    have hequipped := hreachable.shaped.equipped
    refine hequipped.wellFormed.solution_eq_zero_iff hmin ?_ hm
    rw [hequipped.pivotTolerance]
    exact htolerance
  constructor
  · exact (standsStill_iff hshaped hfloor).trans hzero
  · intro v hv hsame
    have hstill := (standsStill_iff hshaped hfloor).1 ⟨v, hv, hsame⟩
    exact reportsRest_update hshaped hfloor hstill (update_of_updateInPlace hv)

end Iteration

/-! ### A bar of silicon -/

/-- Two elements of undoped silicon. -/
def siliconBar : Problem Physics.Material ℚ where
  mesh :=
    { nodes := #[⟨[0], 0⟩, ⟨[0, 1], 0⟩, ⟨[1], 0⟩]
      elements := #[⟨0, 1, 1, 1, 0⟩, ⟨1, 2, 1, 1, 0⟩] }
  table := { regions := #[⟨.silicon, 0, 0⟩], temperature := 300 }
  settings := .ofTolerances (1 / 1000) (1 / 1000) 5

/-- The same densities of electrons and holes at every node of the bar. -/
def evenField (n p : ℚ) : NodeField ℚ :=
  ⟨.replicate 3 ⟨0, 0, 0, 0, n, p, 0, 0⟩⟩

/-- The right hand side that is assembled on a field, if it is and the solve succeeds. -/
def solvedRhs (field : NodeField ℚ) : Option (Array ℚ) :=
  match start siliconBar field with
  | .error _ => none
  | .ok s => match setup siliconBar s with
    | .error _ _ => none
    | .ok () t => match solve .silent (t, ()) with
      | .error _ _ => none
      | .ok () _ => some t.assembly.matrix.rhs

theorem exists_of_solvedRhs {field : NodeField ℚ} {rhs : Array ℚ}
    (h : solvedRhs field = some rhs) :
    ∃ s t u, start siliconBar field = .ok s ∧ setup siliconBar s = .ok () t ∧
      solve .silent (t, ()) = .ok () (u, ()) ∧ t.assembly.matrix.rhs = rhs := by
  unfold solvedRhs at h
  split at h
  · cases h
  · next s hs =>
    split at h
    · cases h
    · next t ht =>
      split at h
      · cases h
      · next u hu => exact ⟨s, t, u.1, hs, ht, hu, Option.some.inj h⟩

theorem aboveFloor_evenField {n p : ℚ} (hn : 1 ≤ n) (hp : 1 ≤ p) :
    AboveFloor siliconBar (evenField n p) := by
  have hone : siliconBar.settings.densityFloor ≤ 1 := by decide +kernel
  rintro node ⟨m, hm, -⟩
  match node, hm with
  | 0, _ => exact ⟨hone.trans hn, hone.trans hp⟩
  | 1, _ => exact ⟨hone.trans hn, hone.trans hp⟩
  | 2, _ => exact ⟨hone.trans hn, hone.trans hp⟩

/-- A neutral bar is a fixed point, a charged one is none. -/
theorem update_stands_still_iff_siliconBar :
    (∃ s t u v, start siliconBar (evenField 1 1) = .ok s ∧ setup siliconBar s = .ok () t ∧
      solve .silent (t, ()) = .ok () (u, ()) ∧ updateInPlace siliconBar.settings u = .ok () v ∧
      ReportsRest siliconBar.settings v) ∧
    ∃ s t u, start siliconBar (evenField 2 1) = .ok s ∧ setup siliconBar s = .ok () t ∧
      solve .silent (t, ()) = .ok () (u, ()) ∧ ¬ StandsStill siliconBar.settings u := by
  have hmin : 0 < (Scalar.minPositive : ℚ) := by decide +kernel
  have htolerance : Scalar.minPositive ≤ siliconBar.settings.pivotTolerance := by decide +kernel
  constructor
  · have hrhs : solvedRhs (evenField 1 1) = some (.replicate 9 0) := by decide +kernel
    obtain ⟨s, t, u, hs, ht, hu, hzero⟩ := exists_of_solvedRhs hrhs
    have hfloor := aboveFloor_evenField le_rfl le_rfl
    rw [← (shaped_start hs).2] at hfloor
    obtain ⟨hiff, hreport⟩ := update_stands_still_iff hmin htolerance (.start hs) hfloor ht hu
    obtain ⟨v, hv, hsame⟩ := hiff.2 fun row => by
      rw [hzero, Array.getD_eq_getD_getElem?, Array.getElem?_replicate]
      split <;> rfl
    exact ⟨s, t, u, v, hs, ht, hu, hv, hreport v hv hsame⟩
  · have hrhs : solvedRhs (evenField 2 1) =
        some #[0, 0, 0, -Physics.elementaryCharge, 0, 0, 0, 0, 0] := by
      decide +kernel
    obtain ⟨s, t, u, hs, ht, hu, hcharge⟩ := exists_of_solvedRhs hrhs
    have hfloor := aboveFloor_evenField one_le_two le_rfl
    rw [← (shaped_start hs).2] at hfloor
    obtain ⟨hiff, -⟩ := update_stands_still_iff hmin htolerance (.start hs) hfloor ht hu
    refine ⟨s, t, u, hs, ht, hu, fun hstill => ?_⟩
    have hrow := hiff.1 hstill 3
    rw [hcharge] at hrow
    exact absurd hrow (by decide +kernel)

end CarrierTransport.Newton.TwoCarrier
