import Mathlib
import CarrierTransport.Proofs.Newton.PoissonEquation
import CarrierTransport.Proofs.State.Unknown

/-!
# Poisson's equation on insulators

A stack of insulators holds no charge. Both iterations assemble the same equations for it
(`Insulating.contributions_eq`), and these are linear: the right hand side of a displaced field is
the one before less what the coefficients make of the displacement
(`Insulating.sources_displaced`). So the increments that a solve finds leave nothing on the right
hand side, from whatever field (`Assembles.rhs_eq_zero`), and they do not depend on the settings
(`Assembles.solution_unique`).
-/

namespace CarrierTransport.Newton

open LinearSystem (BlockMatrix)
open LinearSystem.BlockMatrix
open Mesh (IsLine Element)
open Physics (MaterialKind MaterialModel)
open State (NodeField NodeState)

/-! ### Stacks of insulators -/

section Insulating

variable {M α : Type} [ExactScalar α] [MaterialModel M α]

/-- A row of insulators, with a length, an area and a permittivity. -/
structure Insulating (p : Problem M α) (regions : List Nat) (priority : Nat → Int) : Prop where
  line : IsLine p.mesh regions priority
  regions_ne : regions ≠ []
  geometry : ∀ element ∈ p.mesh.elements, 0 < element.length ∧ 0 < element.area
  material : ∀ r ∈ regions, ∃ m, p.table.material? r = some m ∧
    MaterialKind.isSemiconductor m = false ∧ 0 < (MaterialModel.permittivity m : α)

namespace Insulating

variable {p : Problem M α} {regions : List Nat} {priority : Nat → Int}
  (h : Insulating p regions priority)

include h

theorem withSettings (settings : Settings α) :
    Insulating { p with settings } regions priority :=
  ⟨h.line, h.regions_ne, h.geometry, h.material⟩

theorem exists_material : ∀ r ∈ regions, ∃ m, p.table.material? r = some m :=
  fun r hr => (h.material r hr).imp fun _ hm => hm.1

theorem closed : p.Closed :=
  Problem.closed_of_isLine h.line h.regions_ne h.exists_material

theorem insulator {r : Nat} (hr : r ∈ regions) {m : M} (hm : p.table.material? r = some m) :
    MaterialKind.isSemiconductor m = false := by
  obtain ⟨m', hm', hinsulator, -⟩ := h.material r hr
  cases hm.symm.trans hm'
  exact hinsulator

theorem not_holdsCarriers {element : Element α} (helement : element ∈ p.mesh.elements) :
    ¬ p.HoldsCarriers element := by
  rintro ⟨m, hm, hsemiconductor⟩
  obtain ⟨e, he⟩ := Array.mem_iff_getElem?.1 helement
  obtain ⟨-, -, -, hregion⟩ := h.line.of_getElem? he
  rw [h.insulator (List.mem_of_getElem? hregion) hm] at hsemiconductor
  cases hsemiconductor

theorem not_governs (node : Nat) : ¬ p.Governs node := by
  rintro ⟨m, hm, hsemiconductor⟩
  obtain ⟨n, hn, hm⟩ := Option.bind_eq_some_iff.1 hm
  obtain ⟨⟨e, -, hregion⟩, -⟩ := h.line.governing h.regions_ne hn
  rw [h.insulator (List.mem_of_getElem? hregion) hm] at hsemiconductor
  cases hsemiconductor

theorem sound : p.Sound :=
  Problem.sound_of_isLine h.line h.regions_ne h.exists_material fun _ _ _ hborders hcarriers => by
    obtain ⟨e, he, -⟩ := hborders
    exact (h.not_holdsCarriers (Array.mem_of_getElem? he) hcarriers).elim

/-- No node has a control volume in a semiconductor. -/
theorem volumes_eq_nil (node : Nat) :
    semiconductorVolumes p.mesh p.table
      (((p.mesh.nodes[node]?).map Mesh.Node.elements).getD []) = [] := by
  cases hn : p.mesh.nodes[node]? with
  | none => rfl
  | some n =>
    refine List.eq_nil_iff_forall_not_mem.2 fun v hv => ?_
    obtain ⟨element, ⟨e, he, -⟩, hcarriers, -⟩ := h.closed.mem_volumes hn hv
    exact h.not_holdsCarriers (Array.mem_of_getElem? he) hcarriers

theorem semiconductorVolume_eq_zero (node : Nat) : p.semiconductorVolume node = 0 := by
  rw [Problem.semiconductorVolume, h.volumes_eq_nil, List.map_nil, List.sum_nil]

theorem groundConductance_eq_zero (field : NodeField α) (node : Nat) :
    Poisson.groundConductance p field node = 0 := by
  rw [Poisson.groundConductance]
  cases field.nodes[node]? with
  | none => rfl
  | some s =>
    rw [Option.elim_some, Poisson.chargeConductance, h.semiconductorVolume_eq_zero, mul_zero]

/-- Every node has the potential as its only unknown. -/
theorem blockSizes_eq {sizes : Array Nat} (hsizes : TwoCarrier.blockSizes p = .ok sizes) :
    sizes = Array.replicate p.nodeCount 1 := by
  refine Array.ext (by simp [TwoCarrier.size_blockSizes hsizes]) fun node hnode hnode' => ?_
  rw [Array.size_replicate] at hnode'
  obtain ⟨m, hm, hsize⟩ := TwoCarrier.getElem?_blockSizes hsizes hnode'
  have hinsulator : ¬ MaterialKind.isSemiconductor m = true :=
    fun hsemiconductor => h.not_governs node ⟨m, hm, hsemiconductor⟩
  rw [if_neg hinsulator, Array.getElem?_eq_getElem hnode] at hsize
  rw [Array.getElem_replicate]
  exact Option.some.inj hsize

variable [BEq M]

/-- Without carriers both iterations contribute the same. -/
theorem contributions_eq (field : NodeField α) :
    TwoCarrier.contributions p field = Poisson.contributions p field := by
  have helements : ∀ element ∈ p.mesh.elements.toList,
      TwoCarrier.elementContributions p field element =
        Poisson.elementContributions p field element := by
    intro element helement
    rw [TwoCarrier.elementContributions, Poisson.elementContributions]
    cases hedge : edge? p.mesh p.table field element with
    | none => rfl
    | some edge =>
      rw [edge?] at hedge
      obtain ⟨m, hm, hedge⟩ := Option.bind_eq_some_iff.1 hedge
      obtain ⟨u, hu, hedge⟩ := Option.bind_eq_some_iff.1 hedge
      obtain ⟨v, hv, -⟩ := Option.bind_eq_some_iff.1 hedge
      obtain ⟨left, hleft⟩ := exists_state_of_referredPotential hu
      obtain ⟨right, hright⟩ := exists_state_of_referredPotential hv
      have hinsulator : ¬ MaterialKind.isSemiconductor m = true := fun hsemiconductor =>
        h.not_holdsCarriers (Array.mem_toList_iff.1 helement) ⟨m, hm, hsemiconductor⟩
      rw [hm, hleft, hright]
      dsimp only
      rw [if_neg hinsulator, List.append_nil]
  have hnodes : TwoCarrier.nodeContributions p = Poisson.nodeContributions p := by
    funext node s
    rw [TwoCarrier.nodeContributions, Poisson.nodeContributions, h.volumes_eq_nil]
    rfl
  rw [TwoCarrier.contributions, Poisson.contributions, List.flatMap_congr helements, hnodes]

end Insulating

end Insulating

/-! ### Displaced potentials -/

section Displaced

variable {M α : Type} [ExactScalar α] [MaterialModel M α] {p : Problem M α}
  {field field' : NodeField α} {δ : Nat → α}

/-- Two fields on a mesh, of which the second has the potentials of the first with something added
to each. -/
structure Displaced (p : Problem M α) (field field' : NodeField α) (δ : Nat → α) : Prop where
  nodes : field.nodeCount = p.nodeCount
  nodes' : field'.nodeCount = p.nodeCount
  potential : ∀ node < p.nodeCount,
    field'.unknown node .potential = field.unknown node .potential + δ node

theorem unknown_potential {node : Nat} {s : NodeState α} (hs : field.nodes[node]? = some s) :
    field.unknown node .potential = s.potential := by
  rw [NodeField.unknown, hs]
  rfl

variable [BEq M]

/-- An element sees a displaced potential displaced, whatever its work function. -/
theorem Displaced.referredPotential (h : Displaced p field field' δ) {m : M} {node : Nat}
    {v v' : α} (hv : referredPotential? p.mesh p.table field m node = some v)
    (hv' : referredPotential? p.mesh p.table field' m node = some v') : v' = v + δ node := by
  rw [referredPotential?] at hv hv'
  obtain ⟨n, hn, hv⟩ := Option.bind_eq_some_iff.1 hv
  obtain ⟨g, hg, hv⟩ := Option.bind_eq_some_iff.1 hv
  obtain ⟨s, hs, hv⟩ := Option.bind_eq_some_iff.1 hv
  simp only [hn, hg, Option.bind_eq_bind, Option.bind_some] at hv'
  obtain ⟨s', hs', hv'⟩ := Option.bind_eq_some_iff.1 hv'
  have hnode : node < p.nodeCount := (Array.getElem?_eq_some_iff.1 hn).1
  have hpotential := h.potential node hnode
  rw [unknown_potential hs, unknown_potential hs'] at hpotential
  cases hv
  cases hv'
  rw [hpotential]
  split_ifs
  · rfl
  · ring

theorem Displaced.rise (h : Displaced p field field' δ) {element : Element α} {edge edge' : Edge α}
    (hedge : edge? p.mesh p.table field element = some edge)
    (hedge' : edge? p.mesh p.table field' element = some edge') :
    edge'.rise = edge.rise + (δ element.right - δ element.left) := by
  rw [edge?] at hedge hedge'
  obtain ⟨m, hm, hedge⟩ := Option.bind_eq_some_iff.1 hedge
  obtain ⟨u, hu, hedge⟩ := Option.bind_eq_some_iff.1 hedge
  obtain ⟨v, hv, hedge⟩ := Option.bind_eq_some_iff.1 hedge
  simp only [hm, Option.bind_eq_bind, Option.bind_some] at hedge'
  obtain ⟨u', hu', hedge'⟩ := Option.bind_eq_some_iff.1 hedge'
  obtain ⟨v', hv', hedge'⟩ := Option.bind_eq_some_iff.1 hedge'
  cases hedge
  cases hedge'
  simp only [Edge.rise]
  rw [h.referredPotential hu hu', h.referredPotential hv hv']
  ring

variable {regions : List Nat} {priority : Nat → Int}

/-- The rise of the potential along an element, zero if there is no such element. -/
def Problem.rise (p : Problem M α) (field : NodeField α) (e : Nat) : α :=
  (p.mesh.elements[e]?).elim 0 fun element =>
    (edge? p.mesh p.table field element).elim 0 Edge.rise

theorem Insulating.rise_displaced (hp : Insulating p regions priority)
    (h : Displaced p field field' δ) {e : Nat} (he : e < regions.length) :
    p.rise field' e = p.rise field e + (δ (e + 1) - δ e) := by
  obtain ⟨element, helement, hleft, hright, -⟩ := hp.line.element e he
  have hmem := Array.mem_of_getElem? helement
  obtain ⟨edge, hedge, -⟩ := hp.closed.exists_edge h.nodes hmem
  obtain ⟨edge', hedge', -⟩ := hp.closed.exists_edge h.nodes' hmem
  have hrise := h.rise hedge hedge'
  rw [hleft, hright] at hrise
  simp only [Problem.rise, helement, hedge, hedge', Option.elim_some]
  exact hrise

/-- The right hand sides of insulators are the fluxes along their elements. -/
theorem Insulating.sources_contributions (hp : Insulating p regions priority)
    (hfield : field.nodeCount = p.nodeCount) (node : Nat) :
    sources node 0 (Poisson.contributions p field) =
      ∑ e ∈ Finset.range regions.length,
        p.conductance e * (same e 0 node 0 - same (e + 1) 0 node 0) * p.rise field e := by
  have hnodes : sources node 0
      (field.nodes.mapIdx fun i s => Poisson.nodeContributions p i s).toList.flatten = 0 := by
    rw [Poisson.sources_nodes]
    cases field.nodes[node]? with
    | none => rfl
    | some s => rw [Option.elim_some, hp.semiconductorVolume_eq_zero, mul_zero]
  rw [Poisson.contributions, sources_append, hnodes, add_zero, sources_flatMap]
  refine Loop.sum_map_toList hp.line.elements_size fun e element he => ?_
  obtain ⟨edge, hedge, hleft, hright⟩ := hp.closed.exists_edge hfield (Array.mem_of_getElem? he)
  obtain ⟨-, hleft', hright', -⟩ := hp.line.of_getElem? he
  rw [Poisson.elementContributions, hedge]
  dsimp only
  rw [edge.sources_contributions, hleft, hright, hleft', hright', Problem.rise, he,
    Poisson.conductance_of_edge? he hedge]
  simp only [Option.elim_some, hedge]
  ring

/-- **Poisson's equation is linear on insulators**, and its coefficients are the derivative of its
right hand side: a displacement takes from the right hand side what the coefficients make of it. -/
theorem Insulating.sources_displaced (hp : Insulating p regions priority)
    (h : Displaced p field field' δ) (node : Nat) :
    sources node 0 (Poisson.contributions p field') =
      sources node 0 (Poisson.contributions p field) -
        ∑ node' ∈ Finset.range p.nodeCount,
          coefficients node node' 0 0 (Poisson.contributions p field) * δ node' := by
  have hcount : p.nodeCount = regions.length + 1 := hp.line.nodes_size
  have hsame : ∀ i < p.nodeCount,
      ∑ node' ∈ Finset.range p.nodeCount, same i 0 node' 0 * δ node' = δ i := by
    intro i hi
    simp [same, hi]
  have hlinear : ∑ node' ∈ Finset.range p.nodeCount,
      coefficients node node' 0 0 (Poisson.contributions p field) * δ node' =
        ∑ e ∈ Finset.range regions.length,
          p.conductance e * (same e 0 node 0 - same (e + 1) 0 node 0) * (δ e - δ (e + 1)) := by
    simp only [Poisson.coefficients_contributions hp.line hp.closed h.nodes,
      hp.groundConductance_eq_zero, mul_zero, add_zero, Finset.sum_mul]
    rw [Finset.sum_comm]
    refine Finset.sum_congr rfl fun e he => ?_
    have hlt := Finset.mem_range.1 he
    rw [← hsame e (by omega), ← hsame (e + 1) (by omega), ← Finset.sum_sub_distrib, Finset.mul_sum]
    refine Finset.sum_congr rfl fun node' _ => ?_
    ring
  rw [hlinear, hp.sources_contributions h.nodes, hp.sources_contributions h.nodes',
    ← Finset.sum_sub_distrib]
  refine Finset.sum_congr rfl fun e he => ?_
  rw [hp.rise_displaced h (Finset.mem_range.1 he)]
  ring

end Displaced

/-! ### Assembled systems -/

section Assembles

variable {M α : Type} [ExactScalar α] [MaterialModel M α] [BEq M] {p : Problem M α}
  {field field' : NodeField α} {m m' x : BlockMatrix α} {regions : List Nat}
  {priority : Nat → Int}

/-- The system that is assembled for a field on insulators: at the contacts it says that nothing
changes, and elsewhere it holds what the field contributes. -/
structure Assembles (p : Problem M α) (field : NodeField α) (m : BlockMatrix α) : Prop where
  wellFormed : m.WellFormed
  rowCount : m.rowCount = p.nodeCount
  pivotTolerance : m.pivotTolerance = p.settings.pivotTolerance
  pivots : Poisson.PivotsBounded p m
  contact : ∀ node < p.nodeCount, p.IsContact node → m.rhs.getD node 0 = 0 ∧
    ∀ node', m.coefficient node node' = if node' = node then p.settings.dirichletDiagonal else 0
  inner : ∀ node < p.nodeCount, ¬ p.IsContact node →
    m.rhs.getD node 0 = sources node 0 (Poisson.contributions p field) ∧
      ∀ node' < p.nodeCount, m.coefficient node node' =
        coefficients node node' 0 0 (Poisson.contributions p field)

/-- A system is assembled for a field if its pivots are bounded. -/
theorem assembles_of_pivotsBounded {base : BlockMatrix α} {stride : Nat} {a a' : Assembly stride α}
    (hbase : p.matrix (Array.replicate p.nodeCount 1) = .ok base)
    (hslotted : ∀ c ∈ Poisson.contributions p field, c.Slotted stride) (h : a.Over base)
    (hok : Assembly.rebuild (Poisson.contributions p field) p.settings.dirichletDiagonal p.lastNode
      a = .ok () a') (h' : a'.Over base) (hpivots : Poisson.PivotsBounded p a'.matrix) :
    Assembles p field a'.matrix := by
  have hgrounded := p.grounded_of_rebuild hok
  constructor
  case wellFormed =>
    exact (Problem.wellFormed_matrix hbase).of_samePlaces h'.matrix.toSamePlaces
  case rowCount =>
    exact h'.matrix.toSamePlaces.rowCount.trans (Poisson.rowCount_matrix hbase)
  case pivotTolerance => exact h'.matrix.pivotTolerance.trans (p.pivotTolerance_matrix hbase)
  case pivots => exact hpivots
  case contact =>
    intro node hnode hcontact
    refine ⟨?_, Poisson.coefficient_contact hbase h' hgrounded hnode hcontact⟩
    have hoffset : a'.matrix.layout.offset node = node := by
      rw [h'.matrix.layout, Poisson.offset_matrix hbase hnode.le]
    have hsub := p.size_pos_of_matrix hbase hnode
    rw [← h'.matrix.layout] at hsub
    have hrow := (hgrounded node hcontact _ (LinearSystem.Layout.offset_add_mem_block hsub)).2
    rwa [hoffset] at hrow
  case inner =>
    intro node hnode hinner
    obtain ⟨hfirst, hend⟩ := not_or.1 hinner
    refine ⟨?_, fun node' hnode' => ?_⟩
    · have hamounts := (h.amounts_rebuild (Problem.size_rhs_matrix hbase) hslotted hok
        (p.size_pos_of_matrix hbase hnode) hfirst hend).1
      rw [← hamounts, Assembly.value, h'.matrix.layout, Poisson.offset_matrix hbase hnode.le]
      rfl
    · exact Poisson.coefficient_rebuild hbase h hslotted hok h' hnode hfirst hend hnode'

theorem Insulating.assembles_rebuild (hp : Insulating p regions priority)
    (hdiagonal : p.settings.dirichletDiagonal ≠ 0) {base : BlockMatrix α} {stride : Nat}
    {a a' : Assembly stride α}
    (hbase : p.matrix (Array.replicate p.nodeCount 1) = .ok base)
    (hfield : field.nodeCount = p.nodeCount)
    (hslotted : ∀ c ∈ Poisson.contributions p field, c.Slotted stride) (h : a.Over base)
    (hok : Assembly.rebuild (Poisson.contributions p field) p.settings.dirichletDiagonal p.lastNode
      a = .ok () a') (h' : a'.Over base) : Assembles p field a'.matrix := by
  have hclosed := hp.closed
  have hwell := (Problem.wellFormed_matrix hbase).of_samePlaces h'.matrix.toSamePlaces
  have hchain := Poisson.isChain_rebuild hp.line hclosed hdiagonal hbase hfield hslotted h hok h'
  have hcount : p.nodeCount = regions.length + 1 := hp.line.nodes_size
  have hlast : p.lastNode = regions.length := by
    rw [Problem.lastNode, hcount, Nat.add_sub_cancel]
  refine assembles_of_pivotsBounded hbase hslotted h hok h' ?_
  refine Poisson.pivotsBounded_of_isChain hwell hchain (fun e he => ?_) (fun i => ?_)
    hclosed.two_le
  · rw [hlast] at he
    exact Poisson.conductance_pos hp.line hp.geometry
      (fun r hr => (hp.material r hr).imp fun _ hm => ⟨hm.1, hm.2.2⟩) he
  · rw [hp.groundConductance_eq_zero]

namespace Assembles

variable (h : Assembles p field m)

include h

/-- Without sources between the contacts there is nothing on the right hand side. -/
theorem rhs_of_sources (hsources : ∀ node < p.nodeCount, ¬ p.IsContact node →
    sources node 0 (Poisson.contributions p field) = 0) (row : Nat) : m.rhs.getD row 0 = 0 := by
  rcases Nat.lt_or_ge row p.nodeCount with hrow | hrow
  · by_cases hcontact : p.IsContact row
    · exact (h.contact row hrow hcontact).1
    · rw [(h.inner row hrow hcontact).1, hsources row hrow hcontact]
  · have hsize := h.wellFormed.rhs_size.trans h.rowCount
    rw [Array.getD_eq_getD_getElem?, Array.getElem?_eq_none (by omega), Option.getD_none]

theorem solve_ok (hp : Poisson.Tolerated p) : ∃ x, BlockMatrix.solve m = .ok () x :=
  hp.solve_ok h.pivotTolerance h.rowCount h.pivots

variable (hp : p.Anchored) (hx : BlockMatrix.solve m = .ok () x)

include hp hx

theorem solved : ∀ node < p.nodeCount,
    ∑ node' ∈ Finset.range p.nodeCount, m.coefficient node node' * x.solution.getD node' 0 =
      m.rhs.getD node 0 := by
  obtain ⟨hlarge, rfl⟩ := of_solve_eq_ok hx
  obtain ⟨-, hsolved⟩ := h.wellFormed.solves_solutionOf hp.minPositive fun row hrow =>
    (h.pivotTolerance ▸ hp.tolerance).trans (hlarge row hrow)
  rw [h.rowCount] at hsolved
  exact hsolved

/-- The increments of the contacts are zero. -/
theorem solution_contact {node : Nat} (hnode : node < p.nodeCount) (hcontact : p.IsContact node) :
    x.solution.getD node 0 = 0 := by
  obtain ⟨hrhs, hcoefficient⟩ := h.contact node hnode hcontact
  have hsum := h.solved hp hx node hnode
  simp only [hcoefficient, ite_mul, zero_mul, Finset.sum_ite_eq', Finset.mem_range, if_pos hnode,
    hrhs] at hsum
  exact (mul_eq_zero.1 hsum).resolve_left hp.diagonal

/-- What vanishes at the contacts and solves the equations between them is what a solve has
found. -/
theorem solution_eq {y : Nat → α} (hcontact : ∀ node < p.nodeCount, p.IsContact node → y node = 0)
    (hinner : ∀ node < p.nodeCount, ¬ p.IsContact node →
      ∑ node' ∈ Finset.range p.nodeCount,
        coefficients node node' 0 0 (Poisson.contributions p field) * y node' =
          sources node 0 (Poisson.contributions p field)) :
    ∀ node < p.nodeCount, x.solution.getD node 0 = y node := by
  have hunique := h.wellFormed.solution_eq hp.minPositive (h.pivotTolerance ▸ hp.tolerance) hx
    (x := y)
  rw [h.rowCount] at hunique
  refine hunique fun node hnode => ?_
  by_cases hnode' : p.IsContact node
  · obtain ⟨hrhs, hcoefficient⟩ := h.contact node hnode hnode'
    simp [hcoefficient, hnode, hrhs, hcontact node hnode hnode']
  · obtain ⟨hrhs, hcoefficient⟩ := h.inner node hnode hnode'
    rw [hrhs, ← hinner node hnode hnode']
    refine Finset.sum_congr rfl fun node' hlt => ?_
    rw [hcoefficient node' (Finset.mem_range.1 hlt)]

/-- The increments between the contacts solve the equations contributed there. -/
theorem solved_inner {node : Nat} (hnode : node < p.nodeCount) (hinner : ¬ p.IsContact node) :
    ∑ node' ∈ Finset.range p.nodeCount,
      coefficients node node' 0 0 (Poisson.contributions p field) * x.solution.getD node' 0 =
        sources node 0 (Poisson.contributions p field) := by
  obtain ⟨hrhs, hcoefficient⟩ := h.inner node hnode hinner
  rw [← hrhs, ← h.solved hp hx node hnode]
  refine Finset.sum_congr rfl fun node' hlt => ?_
  rw [hcoefficient node' (Finset.mem_range.1 hlt)]

/-- **The increments of a solve leave nothing on the right hand side.** -/
theorem rhs_eq_zero (hinsulating : Insulating p regions priority) (h' : Assembles p field' m')
    (hdisplaced : Displaced p field field' fun node => x.solution.getD node 0) (row : Nat) :
    m'.rhs.getD row 0 = 0 := by
  refine h'.rhs_of_sources (fun node hnode hinner => ?_) row
  rw [hinsulating.sources_displaced hdisplaced, h.solved_inner hp hx hnode hinner, sub_self]

end Assembles

/-- What two systems for one field that differ in their settings have as solutions is the same. -/
theorem Assembles.solution_unique {settings : Settings α} (h : Assembles p field m)
    (hp : p.Anchored) (hx : BlockMatrix.solve m = .ok () x)
    (h' : Assembles { p with settings } field m')
    (hp' : Problem.Anchored { p with settings }) {x' : BlockMatrix α}
    (hx' : BlockMatrix.solve m' = .ok () x') :
    ∀ node < p.nodeCount, x.solution.getD node 0 = x'.solution.getD node 0 :=
  h.solution_eq hp hx (fun _ hnode hcontact => h'.solution_contact hp' hx' hnode hcontact)
    fun _ hnode hinner => h'.solved_inner hp' hx' hnode hinner

end Assembles

end CarrierTransport.Newton
