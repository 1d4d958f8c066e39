import Mathlib
import CarrierTransport.Proofs.Mesh.Geometry
import CarrierTransport.Proofs.Newton.Neutrality
import CarrierTransport.Proofs.Newton.OneStep

/-!
# A uniform bar is already solved

The equilibrium iteration has nothing to do on a field if nothing is contributed to the right hand
sides between the contacts, and if the densities of every node follow its potential (`Solved`). On
such a field it makes one round, in which the increment is zero and both reports have converged
(`Solved.run`).

A bar of one layer of silicon starts with the same state at every node. It is neutral there and the
potential rises along no element, so its field is solved before the first round
(`Device.uniform_bar_solved`).
-/

namespace CarrierTransport

open LinearSystem (BlockMatrix)
open Mesh (LineMesh)
open Newton (Problem Settings)
open Physics (Material MaterialModel)
open State (NodeField NodeState)
open Transition

/-! ### Contacts in equilibrium -/

namespace Newton

section Contacts

variable {M α : Type} [ExactScalar α] [MaterialModel M α] {p : Problem M α} {field : NodeField α}

/-- A contact that is at its potential already is left alone. -/
theorem placeContact_eq_self {node : Nat} {offset : α → α} {s : NodeState α}
    (hs : field.nodes[node]? = some s) {b : α} (hb : builtInPotential p field node = .ok b)
    (hsame : offset b = s.potential) : placeContact p node offset field = .ok () field := by
  have hmodify : field.nodes.modify node (fun s => { s with potential := offset b }) =
      field.nodes := by
    refine Array.ext_getElem? fun i => ?_
    rw [Array.getElem?_modify]
    split_ifs with hi
    · rw [← hi, hs, Option.map_some, hsame]
    · rfl
  rw [placeContact_eq, hb]
  dsimp only
  rw [hmodify]

/-- A field in local equilibrium has its contacts where no voltage places them. -/
theorem placeContacts_equilibrium (htwo : 2 ≤ p.nodeCount)
    (h : NodeField.equilibrium p.mesh p.table = .ok field) :
    placeContacts p 0 field = .ok () field := by
  have hplaced : ∀ node < p.nodeCount, ∀ offset : α → α, (∀ b, offset b = b) →
      placeContact p node offset field = .ok () field := by
    intro node hnode offset hoffset
    obtain ⟨s, hs⟩ := p.exists_state (State.nodeCount_equilibrium h) hnode
    obtain ⟨m, donor, acceptor, hm, rfl⟩ := State.of_equilibrium h hs
    refine placeContact_eq_self hs ?_ (hoffset _)
    rw [builtInPotential, hm, hs]
    rfl
  have hlast : p.lastNode < p.nodeCount := by
    rw [Problem.lastNode]
    omega
  exact bind_eq_ok.2 ⟨(), field, hplaced 0 (by omega) id fun _ => rfl,
    hplaced _ hlast _ zero_add⟩

end Contacts

/-! ### Fields that are solved -/

namespace Poisson

section Solved

variable {M α : Type} [ExactScalar α] [MaterialModel M α] [BEq M] {p : Problem M α}
  {field : NodeField α} {s t : PoissonState α} {regions : List Nat} {priority : Nat → Int}

/-- A field that the iteration has nothing to do on: nothing is contributed to the right hand sides
between the contacts, and a node without an increment is left alone. -/
structure Solved (p : Problem M α) (field : NodeField α) : Prop where
  carriers : NonnegativeCarriers field
  sources : ∀ node < p.nodeCount, ¬ p.IsContact node →
    sources node 0 (contributions p field) = 0
  stands : ∀ (node : Nat) state, field.nodes[node]? = some state → advance p 0 node state = state

/-- What the iteration has to be set to. -/
structure Attainable (p : Problem M α) : Prop extends p.Anchored, Tolerated p where
  incrementTolerance : 0 < p.settings.incrementTolerance
  residualTolerance : 0 < p.settings.residualTolerance

/-- On a solved field there is nothing on the right hand side, and so there are no residuals. -/
theorem Solved.setup (hfield : Solved p s.field) (h : Regular p regions priority)
    (hp : Attainable p) (hs : Shaped p s) :
    ∃ t, Poisson.setup p s = .ok () t ∧ t.field = s.field ∧ Shaped p t ∧
      Assembles p s.field t.assembly.matrix ∧ (∀ row, t.assembly.matrix.rhs.getD row 0 = 0) ∧
      t.incrementConverged = s.incrementConverged ∧ t.residualConverged = true := by
  obtain ⟨base, a, t, hbase, hover, hrebuild, ht, rfl⟩ := exists_setup h.closed hs
  obtain ⟨base', hbase', hstart, -⟩ := hs.equipped
  cases hbase.symm.trans hbase'
  obtain ⟨t', ht', hsame, hshaped, hpivots⟩ := setup_pivotsBounded h hs hfield.carriers
  cases ht.symm.trans ht'
  have hassembles := assembles_of_pivotsBounded hbase (slotted_contributions p s.field) hstart
    hrebuild hover hpivots
  have hrhs := hassembles.rhs_of_sources hfield.sources
  obtain ⟨hkept, hresidual⟩ := residualConverged_of_rhs ht
  exact ⟨t, ht, hsame, hshaped, hassembles, hrhs, hkept,
    hresidual hp.residualTolerance hrhs⟩

/-- Without increments a solved field stays as it is. -/
theorem Solved.update (hfield : Solved p s.field)
    (hzero : ∀ node, s.assembly.matrix.solution.getD node 0 = 0) :
    (Poisson.update p s).field = s.field := by
  have hnodes : (Poisson.update p s).field.nodes = s.field.nodes := by
    refine Array.ext_getElem? fun node => ?_
    cases hstate : s.field.nodes[node]? with
    | none => simp [Poisson.update, Array.getElem?_mapIdx, hstate]
    | some state => rw [getElem?_update hstate, hzero, hfield.stands node state hstate]
  exact congrArg NodeField.mk hnodes

/-- A solved field that has been set up is left alone by the first round, which has converged. -/
theorem Solved.leads (hfield : Solved p s.field) (h : Regular p regions priority)
    (hp : Attainable p) (hs : Shaped p s) (hassembles : Assembles p s.field s.assembly.matrix)
    (hrhs : ∀ row, s.assembly.matrix.rhs.getD row 0 = 0) {ω : Type} (w : ω) :
    ∃ u, (step p).Leads (s, w) (u, w) ∧ u.field = s.field ∧
      (step p : NewtonStep α _ ω).isConverged u = true := by
  obtain ⟨m, hm⟩ := hassembles.solve_ok hp.toTolerated
  obtain ⟨x, hx, hxshaped, hxfield, rfl⟩ := solve_of_solve hs hm
  have hzero := (hassembles.wellFormed.solution_eq_zero_iff hp.minPositive
    (hassembles.pivotTolerance ▸ hp.tolerance) hm).2 hrhs
  have hupdate : (Poisson.update p x).field = s.field :=
    ((hxfield ▸ hfield : Solved p x.field).update hzero).trans hxfield
  have hincrement : (Poisson.update p x).incrementConverged = true := by
    refine decide_eq_true ?_
    rw [magnitude_incrementExtremum _ hzero]
    exact hp.incrementTolerance
  obtain ⟨u, hu, hufield, -, -, -, hkept, hresidual⟩ :=
    (hupdate.symm ▸ hfield : Solved p (Poisson.update p x).field).setup h hp
      (update_alike hxshaped.assembled).1.left
  refine ⟨u, ⟨(x, w), (Poisson.update p x, w), onFirst_eq_ok.2 ⟨hx, rfl⟩, rfl,
    onFirst_eq_ok.2 ⟨hu, rfl⟩⟩, hufield.trans hupdate, ?_⟩
  change (_ && _) = true
  rw [hkept, hincrement, hresidual]
  rfl

/-- **On a solved field the iteration makes one round and changes nothing.** -/
theorem Solved.run (hfield : Solved p s.field) (h : Regular p regions priority)
    (hp : Attainable p) (hs : Shaped p s) {ω : Type} {observe : NewtonStep.Observer α ω}
    (hobserve : observe.Willing) (w : ω) :
    ∃ u w', (step p).run observe (s, w) = .ok 1 (u, w') ∧ u.field = s.field := by
  obtain ⟨t, ht, htfield, hshaped, hassembles, hrhs, -⟩ := hfield.setup h hp hs
  rw [← htfield] at hfield hassembles
  obtain ⟨u, hleads, hufield, hconverged⟩ := hfield.leads h hp hshaped hassembles hrhs w
  obtain ⟨w', hround⟩ := hleads.round hobserve 1
  refine ⟨u, w', bind_eq_ok.2 ⟨(), (t, w), onFirst_eq_ok.2 ⟨ht, rfl⟩, ?_⟩, hufield.trans htfield⟩
  obtain ⟨budget, hbudget⟩ : ∃ budget, max 1 (step p : NewtonStep α _ ω).maximumIterations =
      budget + 1 := ⟨_, (Nat.sub_add_cancel (le_max_left _ _)).symm⟩
  rw [hbudget, NewtonStep.rounds_of_round hround, if_pos hconverged]

end Solved

/-- Without an increment the densities follow the potential already. -/
theorem advance_eq_self {M : Type} {p : Problem M ℝ} {φn φp : ℝ} {s : NodeState ℝ}
    (hadditive : p.settings.potentialUpdate = .additive)
    (hs : s.Balanced p.table.temperature φn φp) (node : Nat) : advance p 0 node s = s := by
  have helectrons := hs.electronDensity
  have hholes := hs.holeDensity
  rw [← hs.electronQuasiFermiLevel] at helectrons
  rw [← hs.holeQuasiFermiLevel] at hholes
  simp only [advance, hadditive, reduceCtorEq, false_and, if_false, add_zero]
  change { s with
    electronDensity := s.intrinsicDensity * Real.exp _
    holeDensity := s.intrinsicDensity * Real.exp _ } = s
  rw [← helectrons, ← hholes]

end Poisson

end Newton

/-! ### A bar of one layer -/

namespace Device

/-- A device of a single layer of silicon. -/
structure UniformBar (d : Device ℝ) (layer : Layer ℝ) : Prop where
  layers : d.layers = [layer]
  silicon : layer.material = .silicon
  divisions : 1 ≤ layer.divisions
  thickness : 0 < layer.thickness
  temperature : 0 < d.temperature

/-- The table of a device of one layer. -/
def singleRegion (d : Device ℝ) (layer : Layer ℝ) : RegionTable Material ℝ where
  regions := #[⟨layer.material, layer.donorDensity, layer.acceptorDensity⟩]
  temperature := d.temperature

/-- Poisson's equation on a device of one layer. -/
noncomputable def singleProblem (d : Device ℝ) (layer : Layer ℝ) (mesh : LineMesh ℝ)
    (settings : Settings ℝ) : Problem Material ℝ :=
  ⟨mesh.topology, d.singleRegion layer, settings⟩

/-- Settings that a bar is solved with: contact equations that have a solution, tolerances that zero
is below, no pivot of a row of equal elements refused, and increments that are added. -/
structure Sensible (settings : Settings ℝ) : Prop where
  diagonal : settings.dirichletDiagonal ≠ 0
  incrementTolerance : 0 < settings.incrementTolerance
  residualTolerance : 0 < settings.residualTolerance
  minPositive_le : Scalar.minPositive ≤ settings.pivotTolerance
  le_half : settings.pivotTolerance ≤ 1 / 2
  additive : settings.potentialUpdate = .additive

namespace UniformBar

variable {d : Device ℝ} {layer : Layer ℝ} (h : UniformBar d layer)
  {lengthScale crossSection : ℝ} {mesh : LineMesh ℝ}

include h

theorem regionTable : d.regionTable = .ok (d.singleRegion layer) := by
  simp [Device.regionTable, RegionTable.ofLayers, h.layers, singleRegion]

theorem eq_silicon {r : Nat} {m : Material} (hm : (d.singleRegion layer).material? r = some m) :
    m = .silicon := by
  obtain ⟨info, hinfo, rfl⟩ := Option.map_eq_some_iff.1 hm
  obtain ⟨hr, rfl⟩ := Array.getElem?_eq_some_iff.1 hinfo
  simpa [singleRegion] using h.silicon

theorem exists_mesh (lengthScale crossSection : ℝ) :
    ∃ mesh, d.mesh lengthScale crossSection = .ok mesh := by
  refine Device.exists_mesh (by simp [h.layers]) ?_ lengthScale crossSection
  rw [h.layers]
  simpa using ⟨Nat.one_le_iff_ne_zero.1 h.divisions, h.thickness⟩

variable (hmesh : d.mesh lengthScale crossSection = .ok mesh)

include hmesh

/-- The mesh of the bar is a line in one region. -/
theorem exists_line : ∃ regions priority, Mesh.IsLine mesh.topology regions priority ∧
    regions ≠ [] ∧ ∀ r ∈ regions, r = 0 := by
  obtain ⟨line, hline, rfl⟩ := of_mesh hmesh
  obtain ⟨regions, hne, hlt, hisLine⟩ := Mesh.isLine_generate hline
  refine ⟨regions, _, hisLine _ _, hne, fun r hr => ?_⟩
  have hlt := hlt r hr
  simpa [Device.regions, h.layers] using hlt

/-- All elements of the bar are alike. -/
theorem geometry_element : ∀ element ∈ mesh.topology.elements, element.region = 0 ∧
    element.length = lengthScale * layer.thickness / layer.divisions ∧
    element.area = crossSection := by
  intro element helement
  obtain ⟨line, hline, rfl⟩ := of_mesh hmesh
  obtain ⟨region, hregion, hlength⟩ :=
    Mesh.evenlyDivided_generate hline lengthScale crossSection element helement
  rw [Device.regions, h.layers, List.map_singleton] at hregion
  obtain ⟨hlt, rfl⟩ := List.getElem?_eq_some_iff.1 hregion
  rw [List.length_singleton, Nat.lt_one_iff] at hlt
  simp only [hlt, List.getElem_cons_zero] at hlength
  obtain ⟨segment, -, rfl⟩ : ∃ segment ∈ line.segments, _ = element := by
    simpa [LineMesh.topology] using helement
  exact ⟨hlt, hlength, rfl⟩

/-- Every node starts in the same state. -/
theorem eq_equilibriumState {field : NodeField ℝ}
    (hfield : NodeField.equilibrium mesh.topology (d.singleRegion layer) = .ok field) :
    ∀ s ∈ field.nodes, s = State.equilibriumState Material.silicon d.temperature
      layer.donorDensity layer.acceptorDensity := by
  intro s hs
  obtain ⟨i, hi⟩ := Array.mem_iff_getElem?.1 hs
  obtain ⟨regions, priority, hline, hne, -⟩ := h.exists_line hmesh
  have hlt : i < mesh.topology.nodes.size := by
    rw [← State.nodeCount_equilibrium hfield]
    exact (Array.getElem?_eq_some_iff.1 hi).1
  have hnode := Array.getElem?_eq_getElem hlt
  have hstate := State.nodeEquilibrium_of_equilibrium hfield hnode hi
  obtain ⟨-, m, donor, acceptor, -, -, hm, rfl⟩ := State.of_nodeEquilibrium hstate
  obtain ⟨elements, helements, hcount, hdonor, hacceptor⟩ :=
    (State.localEquilibrium_of_nodeEquilibrium h.temperature hstate).doping
  -- the elements around a node are in the one region that there is, so its doping counts once
  have hregions : (elements.map Mesh.Element.region).toFinset = {0} := by
    refine Finset.eq_singleton_iff_nonempty_unique_mem.2 ⟨?_, fun r hr => ?_⟩
    · obtain ⟨⟨e, he, -⟩, -⟩ := hline.governing hne hnode
      have hlength := (Loop.mapM_eq_some.1 helements).length_eq
      rw [List.toFinset_nonempty_iff, Ne, List.map_eq_nil_iff, ← List.length_eq_zero_iff, ← hlength,
        List.length_eq_zero_iff]
      exact List.ne_nil_of_mem he
    · obtain ⟨element, helement, rfl⟩ := List.mem_map.1 (List.mem_toFinset.1 hr)
      exact Nat.lt_one_iff.1 (hcount element helement)
  rw [hregions, Finset.sum_singleton] at hdonor hacceptor
  obtain rfl := h.eq_silicon hm
  change donor = layer.donorDensity at hdonor
  change acceptor = layer.acceptorDensity at hacceptor
  rw [hdonor, hacceptor]
  rfl

variable {settings : Settings ℝ}

/-- All elements of the bar conduct alike. -/
theorem conductance_eq {e e' : Nat} (he : e < mesh.topology.elements.size)
    (he' : e' < mesh.topology.elements.size) :
    (d.singleProblem layer mesh settings).conductance e =
      (d.singleProblem layer mesh settings).conductance e' := by
  have helement : ∀ {i} (hi : i < mesh.topology.elements.size),
      (d.singleProblem layer mesh settings).mesh.elements[i]? = some mesh.topology.elements[i] :=
    fun hi => Array.getElem?_eq_getElem hi
  obtain ⟨hregion, hlength, harea⟩ := h.geometry_element hmesh _ (Array.getElem_mem he)
  obtain ⟨hregion', hlength', harea'⟩ := h.geometry_element hmesh _ (Array.getElem_mem he')
  rw [Problem.conductance, Problem.conductance, helement he, helement he', Option.elim_some,
    Option.elim_some, hregion, hlength, harea, hregion', hlength', harea']

variable (hlengthScale : 0 < lengthScale) (hcrossSection : 0 < crossSection)
  (hsettings : Sensible settings)

include hlengthScale hcrossSection hsettings

theorem exists_regular : ∃ regions priority,
    Newton.Poisson.Regular (d.singleProblem layer mesh settings) regions priority := by
  obtain ⟨regions, priority, hline, hne, hzero⟩ := h.exists_line hmesh
  refine ⟨regions, priority, hline, hne, geometry hmesh hlengthScale hcrossSection, ?_,
    h.temperature, hsettings.diagonal⟩
  intro r hr
  rw [hzero r hr]
  refine ⟨layer.material, rfl, ?_⟩
  rw [h.silicon]
  exact mul_pos (ExactScalar.ofDecimal_pos (by decide) true 1)
    (ExactScalar.ofDecimal_pos (by decide) true _)

/-- No pivot of the bar is below a half. -/
theorem attainable : Newton.Poisson.Attainable (d.singleProblem layer mesh settings) := by
  obtain ⟨regions, priority, hregular⟩ :=
    h.exists_regular hmesh hlengthScale hcrossSection hsettings
  constructor
  case toAnchored =>
    exact ⟨hsettings.diagonal, Scalar.minPositive_pos, hsettings.minPositive_le⟩
  case toTolerated =>
    constructor
    case contact => exact hsettings.le_half.trans (by norm_num)
    case inner =>
      intro i hi hlt
      have hsize : mesh.topology.elements.size = regions.length := hregular.line.elements_size
      have hpos := hregular.conductance_pos hlt
      rw [hregular.lastNode_eq] at hlt
      have hsame : (d.singleProblem layer mesh settings).conductance (i - 1) =
          (d.singleProblem layer mesh settings).conductance i :=
        h.conductance_eq hmesh (by omega) (by omega)
      rw [hsame, ← two_mul, ← div_div, div_right_comm, div_self hpos.ne']
      exact hsettings.le_half
  case incrementTolerance => exact hsettings.incrementTolerance
  case residualTolerance => exact hsettings.residualTolerance

omit hlengthScale hcrossSection in
/-- The field that the bar starts with is solved. -/
theorem solved {field : NodeField ℝ}
    (hfield : NodeField.equilibrium mesh.topology (d.singleRegion layer) = .ok field) :
    Newton.Poisson.Solved (d.singleProblem layer mesh settings) field := by
  have hsound : (d.singleProblem layer mesh settings).Sound := sound h.regionTable hmesh settings
  have hstate := h.eq_equilibriumState hmesh hfield
  constructor
  case carriers =>
    refine (Newton.Poisson.nonnegative_equilibrium (p := d.singleProblem layer mesh settings)
      Real.exp_pos ?_ hfield).1
    intro r m narrowing hm
    obtain rfl := h.eq_silicon hm
    exact (Physics.Silicon.intrinsicDensity_pos h.temperature narrowing).le
  case sources =>
    intro node hnode _
    rw [Newton.Poisson.contributions, Newton.sources_append, Newton.sources_flatMap]
    have helements : ∀ element ∈ (d.singleProblem layer mesh settings).mesh.elements,
        Newton.sources node 0 (Newton.Poisson.elementContributions
          (d.singleProblem layer mesh settings) field element) = 0 := by
      intro element helement
      have hcarriers : (d.singleProblem layer mesh settings).HoldsCarriers element := by
        obtain ⟨m, hm⟩ := hsound.material element helement
        obtain rfl := h.eq_silicon hm
        exact ⟨_, hm, rfl⟩
      obtain ⟨edge, left, right, hedge, hrise, ⟨hleft, -⟩, hright, -⟩ :=
        Newton.exists_siliconEdge hsound (State.nodeCount_equilibrium hfield) helement hcarriers
      rw [Newton.Poisson.elementContributions, hedge]
      dsimp only
      rw [edge.sources_contributions, hrise, hstate left (Array.mem_of_getElem? hleft),
        hstate right (Array.mem_of_getElem? hright), sub_self, mul_zero]
    have hnodes : Newton.sources node 0 (field.nodes.mapIdx fun i state =>
        Newton.Poisson.nodeContributions (d.singleProblem layer mesh settings) i
          state).toList.flatten = 0 :=
      Newton.sources_items_eq_zero fun i state hi =>
        (Newton.Poisson.uncharged_of_equilibrium hsound h.temperature hfield hi).sources_eq_zero _
    rw [hnodes, add_zero]
    refine List.sum_eq_zero fun x hx => ?_
    obtain ⟨element, helement, rfl⟩ := List.mem_map.1 hx
    exact helements element (Array.mem_toList_iff.1 helement)
  case stands =>
    intro node state hnode
    have hbalanced : state.Balanced d.temperature 0 0 := by
      rw [hstate state (Array.mem_of_getElem? hnode)]
      exact State.balanced_equilibriumState .silicon d.temperature _ _
    exact Newton.Poisson.advance_eq_self hsettings.additive hbalanced node

end UniformBar

/-- **A uniform bar is already solved.** Whatever its doping, its divisions and its dimensions: the
field, the mesh and the solver of a device of one layer of silicon can be built, setting the voltage
to zero changes nothing, and a run whose observer does not fail succeeds after one round, whatever
its budget, and leaves the field as it was built. -/
theorem uniform_bar_solved {d : Device ℝ} {layer : Layer ℝ} (h : UniformBar d layer)
    {lengthScale crossSection : ℝ} (hlengthScale : 0 < lengthScale)
    (hcrossSection : 0 < crossSection) {settings : Settings ℝ} (hsettings : Sensible settings) :
    ∃ table mesh field s, d.regionTable = .ok table ∧
      d.mesh lengthScale crossSection = .ok mesh ∧
      NodeField.equilibrium mesh.topology table = .ok field ∧
      let p : Problem Material ℝ := ⟨mesh.topology, table, settings⟩
      Newton.Poisson.start p field = .ok s ∧ Newton.Poisson.setVoltage p 0 s = .ok () s ∧
        ∀ (ω : Type) (observe : Newton.NewtonStep.Observer ℝ ω) (w : ω), observe.Willing →
          ∃ u w', (Newton.Poisson.step p).run observe (s, w) = .ok 1 (u, w') ∧ u.field = field := by
  obtain ⟨mesh, hmesh⟩ := h.exists_mesh lengthScale crossSection
  have hsound : (d.singleProblem layer mesh settings).Sound := sound h.regionTable hmesh settings
  obtain ⟨field, hfield, hcount⟩ := hsound.exists_equilibrium
  obtain ⟨s, hs⟩ := Newton.Poisson.exists_start hsound hcount
  obtain ⟨hshaped, rfl⟩ := Newton.Poisson.shaped_start hs
  obtain ⟨regions, priority, hregular⟩ :=
    h.exists_regular hmesh hlengthScale hcrossSection hsettings
  have hattainable := h.attainable hmesh hlengthScale hcrossSection hsettings
  have hsolved := h.solved hmesh hsettings hfield
  refine ⟨_, mesh, s.field, s, h.regionTable, hmesh, hfield, hs, ?_, ?_⟩
  · exact zoom_eq_ok.2 ⟨s.field,
      Newton.placeContacts_equilibrium (p := d.singleProblem layer mesh settings) hsound.two_le
        hfield, rfl⟩
  · intro ω observe w hobserve
    exact hsolved.run hregular hattainable hshaped hobserve w

/-- A bar of doped silicon in four elements. -/
noncomputable def dopedBar : Device ℝ where
  temperature := 3e2
  layers := [⟨.silicon, 1, 4, 1e17, 0⟩]

/-- The greatest pivot tolerance that a bar is solved with, and no budget at all. -/
noncomputable def strictSettings : Settings ℝ :=
  { Settings.ofTolerances 1 1 0 with pivotTolerance := 0.5 }

theorem sensible_strictSettings : Sensible strictSettings where
  diagonal := (ExactScalar.ofDecimal_pos (by decide) true _).ne'
  incrementTolerance := one_pos
  residualTolerance := one_pos
  minPositive_le := by
    have hlt : (22250738585072014e-324 : ℚ≥0) < 1 / 2 := by decide +kernel
    calc (Scalar.minPositive : ℝ) = ((22250738585072014e-324 : ℚ≥0) : ℝ) := rfl
      _ ≤ ((1 / 2 : ℚ≥0) : ℝ) := (NNRat.cast_lt.2 hlt).le
      _ = strictSettings.pivotTolerance := by norm_num [strictSettings]
  le_half := by norm_num [strictSettings]
  additive := rfl

theorem uniform_bar_solved_dopedBar :
    ∃ table mesh field s, dopedBar.regionTable = .ok table ∧ dopedBar.mesh 1 1 = .ok mesh ∧
      NodeField.equilibrium mesh.topology table = .ok field ∧
      Newton.Poisson.start ⟨mesh.topology, table, strictSettings⟩ field = .ok s ∧
      ∃ u w, (Newton.Poisson.step ⟨mesh.topology, table, strictSettings⟩).run .silent (s, ()) =
        .ok 1 (u, w) ∧ u.field = field := by
  have hbar : UniformBar dopedBar ⟨.silicon, 1, 4, 1e17, 0⟩ :=
    ⟨rfl, rfl, by norm_num, by norm_num, by norm_num [dopedBar]⟩
  obtain ⟨table, mesh, field, s, htable, hmesh, hfield, hs, -, hrun⟩ :=
    uniform_bar_solved hbar one_pos one_pos sensible_strictSettings
  exact ⟨table, mesh, field, s, htable, hmesh, hfield, hs,
    hrun Unit .silent () fun _ _ w => ⟨w, rfl⟩⟩

end Device

end CarrierTransport
