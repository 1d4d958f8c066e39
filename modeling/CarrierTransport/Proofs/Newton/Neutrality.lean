import Mathlib
import CarrierTransport.Proofs.Newton.FiniteVolume
import CarrierTransport.Proofs.Newton.Handover

/-!
# Neutrality

The field a simulation starts from has the doping of the regions around each node, each region
counted once, and in silicon a potential at which the mobile charge makes up for it. Over the real
numbers it does so exactly: the potential is the hyperbolic arcsine of half the doping over the
intrinsic density, so the difference of the two exponentials of it is the doping again
(`Silicon.neutral`). Nodes that silicon does not govern have no semiconductor around them on an
accepted device, so a first setup of Poisson's equation finds no space charge anywhere
(`Device.equilibrium_neutral`).
-/

namespace CarrierTransport

open Mesh (LineMesh Topology)
open Newton (Contribution Problem Settings)
open Physics (Material MaterialKind elementaryCharge thermalVoltage)
open State (NodeField NodeState)
open Transition

/-! ### Doping -/

section Doping

variable {M α : Type} [ExactScalar α]

namespace RegionTable

/-- The donors of a region, none if there is no such region. -/
def donors (table : RegionTable M α) (region : Nat) : α :=
  (table.regions[region]?).elim 0 RegionInfo.donorDensity

/-- The acceptors of a region, none if there is no such region. -/
def acceptors (table : RegionTable M α) (region : Nat) : α :=
  (table.regions[region]?).elim 0 RegionInfo.acceptorDensity

end RegionTable

/-- The doping of some regions is the sum of theirs, all of which there are. -/
theorem State.of_summedDoping {table : RegionTable M α} {regions : List Nat} {donor acceptor : α}
    (h : State.summedDoping table regions = .ok (donor, acceptor)) :
    (∀ r ∈ regions, r < table.count) ∧ donor = (regions.map table.donors).sum ∧
      acceptor = (regions.map table.acceptors).sum := by
  refine Loop.foldlM_invariant (fun done (doping : α × α) => (∀ r ∈ done, r < table.count) ∧
    doping.1 = (done.map table.donors).sum ∧ doping.2 = (done.map table.acceptors).sum) ?_ ?_ h
  · simp
  · rintro done r ⟨nd, na⟩ ⟨nd', na'⟩ ⟨hdone, hdonor, hacceptor⟩ hstep
    dsimp only at hdonor hacceptor hstep ⊢
    split at hstep
    · next info hinfo =>
      cases hstep
      have hr : r < table.count := (Array.getElem?_eq_some_iff.1 hinfo).1
      refine ⟨?_, ?_, ?_⟩
      · intro r' hr'
        rcases List.mem_append.1 hr' with hr' | hr'
        · exact hdone r' hr'
        · rwa [List.mem_singleton.1 hr']
      · simp [RegionTable.donors, hinfo, hdonor]
      · simp [RegionTable.acceptors, hinfo, hacceptor]
    · cases hstep

/-- Sums over the distinct items of a list, in whatever order it has them. -/
theorem Mesh.sum_ascending (ns : List Nat) (f : Nat → α) :
    ((Mesh.ascending ns).map f).sum = ∑ n ∈ ns.toFinset, f n := by
  have hnodup : (Mesh.ascending ns).Nodup := (Mesh.pairwise_ascending ns).imp fun h => h.ne
  have hsame : (Mesh.ascending ns).toFinset = ns.toFinset := by
    ext n
    rw [List.mem_toFinset, List.mem_toFinset, Mesh.mem_ascending]
  rw [← hsame, List.sum_toFinset _ hnodup]

end Doping

/-! ### Silicon -/

namespace Physics.Silicon

/-- At the built-in potential the electrons less the holes are the donors less the acceptors. -/
theorem neutral {temperature : ℝ} (htemperature : 0 < temperature) (donor acceptor : ℝ) :
    (State.equilibriumState Material.silicon temperature donor acceptor).electronDensity -
        (State.equilibriumState Material.silicon temperature donor acceptor).holeDensity =
      donor - acceptor := by
  have hthermal := thermalVoltage_pos htemperature
  have hintrinsic := intrinsicDensity_pos htemperature (gapNarrowing donor acceptor)
  have hhalf : (Scalar.ofDecimal 5 true 1 : ℝ) = 1 / 2 := by
    rw [ExactScalar.ofDecimal_eq]
    norm_num
  have hexponent : builtInPotential temperature donor acceptor / thermalVoltage temperature =
      Real.arsinh ((donor - acceptor) * (1 / 2) /
        intrinsicDensity temperature (gapNarrowing donor acceptor)) := by
    change thermalVoltage temperature * Real.arsinh ((donor - acceptor) *
      (Scalar.ofDecimal 5 true 1 : ℝ) / _) / thermalVoltage temperature = _
    rw [hhalf, mul_div_cancel_left₀ _ hthermal.ne']
  change intrinsicDensity temperature (gapNarrowing donor acceptor) *
      Real.exp (builtInPotential temperature donor acceptor / thermalVoltage temperature) -
    intrinsicDensity temperature (gapNarrowing donor acceptor) /
      Real.exp (builtInPotential temperature donor acceptor / thermalVoltage temperature) = _
  rw [hexponent]
  generalize intrinsicDensity temperature (gapNarrowing donor acceptor) = ni at hintrinsic ⊢
  generalize hu : Real.arsinh ((donor - acceptor) * (1 / 2) / ni) = u
  have hsinh : Real.sinh u = (donor - acceptor) * (1 / 2) / ni := by
    rw [← hu, Real.sinh_arsinh]
  calc ni * Real.exp u - ni / Real.exp u = 2 * ni * Real.sinh u := by
        rw [Real.sinh_eq, Real.exp_neg]
        ring
    _ = donor - acceptor := by
        rw [hsinh]
        field_simp

end Physics.Silicon

/-! ### The states of a field -/

/-- The state that a node of a mesh starts from. -/
structure State.LocalEquilibrium (mesh : Topology ℝ) (table : RegionTable Material ℝ)
    (node : Mesh.Node) (s : NodeState ℝ) : Prop where
  /-- The doping is that of the distinct regions around the node. -/
  doping : ∃ elements, mesh.bordering? node = some elements ∧
    (∀ element ∈ elements, element.region < table.count) ∧
    s.donorDensity = ∑ r ∈ (elements.map Mesh.Element.region).toFinset, table.donors r ∧
    s.acceptorDensity = ∑ r ∈ (elements.map Mesh.Element.region).toFinset, table.acceptors r
  balanced : s.electronDensity = s.intrinsicDensity *
      Real.exp ((s.potential - s.electronQuasiFermiLevel) / thermalVoltage table.temperature) ∧
    s.holeDensity = s.intrinsicDensity *
      Real.exp ((s.holeQuasiFermiLevel - s.potential) / thermalVoltage table.temperature)
  product : s.electronDensity * s.holeDensity = s.intrinsicDensity ^ 2
  neutral : table.material? node.region = some .silicon →
    s.electronDensity - s.holeDensity = s.donorDensity - s.acceptorDensity ∧
      0 < s.electronDensity ∧ 0 < s.holeDensity ∧ 0 < s.intrinsicDensity

namespace State

variable {mesh : Topology ℝ} {table : RegionTable Material ℝ} {field : NodeField ℝ}

theorem NodeState.Balanced.product {temperature : ℝ} {s : NodeState ℝ}
    (h : s.Balanced temperature 0 0) :
    s.electronDensity * s.holeDensity = s.intrinsicDensity ^ 2 := by
  have hinverse : Real.exp ((s.potential - 0) / thermalVoltage temperature) *
      Real.exp ((0 - s.potential) / thermalVoltage temperature) = 1 := by
    rw [← Real.exp_add, ← add_div, sub_zero, zero_sub, add_neg_cancel, zero_div, Real.exp_zero]
  calc s.electronDensity * s.holeDensity
      = s.intrinsicDensity ^ 2 * (Real.exp ((s.potential - 0) / thermalVoltage temperature) *
          Real.exp ((0 - s.potential) / thermalVoltage temperature)) := by
        rw [h.electronDensity, h.holeDensity]
        ring
    _ = s.intrinsicDensity ^ 2 := by rw [hinverse, mul_one]

theorem localEquilibrium_of_nodeEquilibrium (htemperature : 0 < table.temperature)
    {node : Mesh.Node} {s : NodeState ℝ} (h : nodeEquilibrium mesh table node = .ok s) :
    LocalEquilibrium mesh table node s := by
  obtain ⟨regions, m, donor, acceptor, hregions, hdoping, hm, rfl⟩ := of_nodeEquilibrium h
  obtain ⟨hcount, hdonor, hacceptor⟩ := of_summedDoping hdoping
  have hbalanced := balanced_equilibriumState m table.temperature donor acceptor
  constructor
  case doping =>
    obtain ⟨elements, helements, rfl⟩ := Option.map_eq_some_iff.1 hregions
    refine ⟨elements, helements, ?_, ?_, ?_⟩
    · intro element helement
      exact hcount _ ((Mesh.mem_ascending _ _).2 (List.mem_map_of_mem helement))
    · exact hdonor.trans (Mesh.sum_ascending _ _)
    · exact hacceptor.trans (Mesh.sum_ascending _ _)
  case balanced =>
    rw [hbalanced.electronQuasiFermiLevel, hbalanced.holeQuasiFermiLevel]
    exact ⟨hbalanced.electronDensity, hbalanced.holeDensity⟩
  case product => exact hbalanced.product
  case neutral =>
    intro hsilicon
    cases hm.symm.trans hsilicon
    have hintrinsic : 0 <
        (equilibriumState Material.silicon table.temperature donor acceptor).intrinsicDensity :=
      Physics.Silicon.intrinsicDensity_pos htemperature _
    refine ⟨Physics.Silicon.neutral htemperature donor acceptor, ?_, ?_, hintrinsic⟩
    · exact hbalanced.electronDensity_pos hintrinsic
    · exact hbalanced.holeDensity_pos hintrinsic

end State

/-! ### The first setup -/

namespace Newton

variable {p : Problem Material ℝ} {field : NodeField ℝ}

/-- No charge at a node is contributed to an equation. -/
def Poisson.Uncharged (p : Problem Material ℝ) (node : Nat) (s : NodeState ℝ) : Prop :=
  ∀ i sub amount, .source i sub amount ∈ Poisson.nodeContributions p node s → amount = 0

theorem Poisson.uncharged_of_equilibrium (hp : p.Sound) (htemperature : 0 < p.table.temperature)
    (hfield : NodeField.equilibrium p.mesh p.table = .ok field) {node : Nat} {s : NodeState ℝ}
    (hs : field.nodes[node]? = some s) : Uncharged p node s := by
  have hnode : node < p.nodeCount := by
    rw [Problem.nodeCount, ← State.nodeCount_equilibrium hfield]
    exact (Array.getElem?_eq_some_iff.1 hs).1
  obtain ⟨n, hn, -⟩ := p.exists_node hnode
  have hstate := State.nodeEquilibrium_of_equilibrium hfield hn hs
  obtain ⟨-, -, -, hneutral⟩ := State.localEquilibrium_of_nodeEquilibrium htemperature hstate
  intro i sub amount hmem
  rw [nodeContributions, chargeContributions, hn, Option.map_some, Option.getD_some] at hmem
  simp only [List.mem_append, List.mem_flatMap, List.mem_singleton, reduceCtorEq, or_false] at hmem
  obtain ⟨v, hv, hmem⟩ := hmem
  -- a semiconductor at the node governs it, so there the charges make up for each other
  obtain ⟨element, hborders, hcarriers, rfl⟩ := hp.toClosed.mem_volumes hn hv
  obtain ⟨m, hm, hsemiconductor⟩ := hp.governs node hnode element hborders hcarriers
  obtain rfl := eq_silicon hsemiconductor
  rw [Problem.governing?, hn] at hm
  have hzero : netCharge s = 0 := by
    have hdifference := (hneutral hm).1
    rw [netCharge]
    linarith
  simp only [List.cons_append, List.nil_append, List.mem_cons, reduceCtorEq, List.not_mem_nil,
    or_false, false_or, Contribution.source.injEq] at hmem
  rw [hmem.2.2, hzero, mul_zero, zero_mul]

theorem Poisson.Uncharged.sources_eq_zero {node : Nat} {s : NodeState ℝ}
    (h : Uncharged p node s) (row : Nat) : sources row 0 (nodeContributions p node s) = 0 := by
  apply List.sum_eq_zero
  intro x hx
  obtain ⟨c, hc, rfl⟩ := List.mem_map.1 hx
  cases c with
  | source i sub amount => rw [Contribution.sourceAt, h i sub amount hc, mul_zero]
  | _ => rfl

/-- Where no node is charged, the right hand sides are what the elements contribute. -/
theorem Poisson.blockRhs_of_uncharged {s t : PoissonState ℝ} (hs : Shaped p s)
    (ht : setup p s = .ok () t)
    (h : ∀ node state, s.field.nodes[node]? = some state → Uncharged p node state) {node : Nat}
    (hnode : node < p.nodeCount) (hinner : ¬ p.IsContact node) :
    t.assembly.matrix.blockRhs node 0 = .ok (sources node 0
      (p.mesh.elements.toList.flatMap (elementContributions p s.field))) := by
  obtain ⟨base, hbase, hholds⟩ := holds_of_setup hs ht
  have hnodes : sources node 0
      (s.field.nodes.mapIdx fun i state => nodeContributions p i state).toList.flatten = 0 :=
    sources_items_eq_zero fun i state hi => (h i state hi).sources_eq_zero node
  rw [hholds.blockRhs_eq (not_or.1 hinner) (p.size_pos_of_matrix hbase hnode), contributions,
    sources_append, hnodes, add_zero]

end Newton

namespace Device

/-- **A field starts neutral and in equilibrium.** At a positive temperature every state of a field
that could be built is in local equilibrium with the doping around its node, and at a node governed
by silicon the mobile charge makes up for the doping. On an accepted device a setup of Poisson's
equation on that field, whatever has happened to its solver before, adds no charge to any equation:
what stands on the right hand sides are the fluxes along the elements. -/
theorem equilibrium_neutral :
    (∀ {mesh : Topology ℝ} {table : RegionTable Material ℝ} {field : NodeField ℝ},
      0 < table.temperature → NodeField.equilibrium mesh table = .ok field →
      field.nodeCount = mesh.nodes.size ∧
      ∀ (i : Nat) node s, mesh.nodes[i]? = some node → field.nodes[i]? = some s →
        State.LocalEquilibrium mesh table node s) ∧
    (∀ {d : Device ℝ} {lengthScale crossSection : ℝ} {table : RegionTable Material ℝ}
      {mesh : LineMesh ℝ} {field : NodeField ℝ}, d.regionTable = .ok table →
      d.mesh lengthScale crossSection = .ok mesh → 0 < d.temperature →
      NodeField.equilibrium mesh.topology table = .ok field → ∀ settings : Settings ℝ,
      let p : Problem Material ℝ := ⟨mesh.topology, table, settings⟩
      (∀ node s, field.nodes[node]? = some s → Newton.Poisson.Uncharged p node s) ∧
      ∀ s, Newton.Poisson.Reachable p s → s.field = field →
        ∃ t, Newton.Poisson.setup p s = .ok () t ∧
          ∀ node < p.nodeCount, ¬ p.IsContact node →
            t.assembly.matrix.blockRhs node 0 = .ok (Newton.sources node 0
              (mesh.topology.elements.toList.flatMap
                (Newton.Poisson.elementContributions p field)))) := by
  constructor
  · intro mesh table field htemperature hfield
    refine ⟨State.nodeCount_equilibrium hfield, ?_⟩
    intro i node s hnode hs
    exact State.localEquilibrium_of_nodeEquilibrium htemperature
      (State.nodeEquilibrium_of_equilibrium hfield hnode hs)
  · intro d lengthScale crossSection table mesh field htable hmesh htemperature hfield settings p
    have hsound : p.Sound := sound htable hmesh settings
    have hp : 0 < p.table.temperature := by
      rwa [show p.table.temperature = d.temperature from temperature_regionTable htable]
    have huncharged : ∀ node s, field.nodes[node]? = some s → Newton.Poisson.Uncharged p node s :=
      fun node s hs => Newton.Poisson.uncharged_of_equilibrium hsound hp hfield hs
    refine ⟨huncharged, ?_⟩
    rintro s hs rfl
    obtain ⟨-, -, t, -, -, -, ht, -⟩ := Newton.Poisson.exists_setup hsound.toClosed hs.shaped
    refine ⟨t, ht, ?_⟩
    intro node hnode hinner
    exact Newton.Poisson.blockRhs_of_uncharged hs.shaped ht huncharged hnode hinner

/-- The junction starts neutral: its first node is doped with donors, and there are as many more
electrons than holes; its equations are free of charge. -/
theorem equilibrium_neutral_junction :
    ∃ table mesh field, junction.regionTable = .ok table ∧ junction.mesh 1 1 = .ok mesh ∧
      NodeField.equilibrium mesh.topology table = .ok field ∧
      let p : Problem Material ℝ := ⟨mesh.topology, table, .ofTolerances 1 1 1⟩
      (∃ s, field.nodes[0]? = some s ∧
        s.electronDensity - s.holeDensity = s.donorDensity - s.acceptorDensity) ∧
      ∃ s, Newton.Poisson.start p field = .ok s ∧
        ∃ t, Newton.Poisson.setup p s = .ok () t ∧
          ∀ node < p.nodeCount, ¬ p.IsContact node →
            t.assembly.matrix.blockRhs node 0 = .ok (Newton.sources node 0
              (mesh.topology.elements.toList.flatMap
                (Newton.Poisson.elementContributions p field))) := by
  obtain ⟨table, mesh, htable, hmesh⟩ := exists_mesh_junction
  have htemperature : 0 < junction.temperature := by norm_num [junction]
  have hsound := sound htable hmesh (.ofTolerances 1 1 1)
  have hpos := lt_of_lt_of_le Nat.zero_lt_two hsound.two_le
  obtain ⟨field, hfield, hcount⟩ := hsound.exists_equilibrium
  obtain ⟨hstates, hsetup⟩ := equilibrium_neutral
  refine ⟨table, mesh, field, htable, hmesh, hfield, ?_, ?_⟩
  · obtain ⟨node, hnode, -⟩ := Problem.exists_node hpos
    obtain ⟨s, hs⟩ := Problem.exists_state hcount hpos
    rw [← temperature_regionTable htable] at htemperature
    have hlocal := (hstates htemperature hfield).2 0 node s hnode hs
    obtain ⟨m, hm, hsemiconductor⟩ := governs_junction htable hsound.toClosed rfl hpos
    obtain rfl := Newton.eq_silicon hsemiconductor
    rw [Problem.governing?, hnode] at hm
    exact ⟨s, hs, (hlocal.neutral hm).1⟩
  · obtain ⟨-, hsetup⟩ := hsetup htable hmesh htemperature hfield (.ofTolerances 1 1 1)
    obtain ⟨s, hs⟩ := Newton.Poisson.exists_start hsound hcount
    obtain ⟨-, hsame⟩ := Newton.Poisson.shaped_start hs
    exact ⟨s, hs, hsetup s (.start hs) hsame⟩

end Device

end CarrierTransport
