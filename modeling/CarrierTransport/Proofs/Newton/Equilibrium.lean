import Mathlib
import CarrierTransport.Proofs.Device.Stack
import CarrierTransport.Proofs.LinearSystem.Chain
import CarrierTransport.Proofs.Newton.Amounts
import CarrierTransport.Proofs.Newton.Contacts
import CarrierTransport.Proofs.Newton.History
import CarrierTransport.Proofs.Newton.Line
import CarrierTransport.Proofs.Physics.Constants
import CarrierTransport.Proofs.State.Equilibrium

/-!
# The equilibrium iteration never meets a singular system

On a line the equilibrium iteration assembles a chain: an element is a conductance between its
nodes, the space charge one to the ground, and the contacts are held (`Poisson.isChain_rebuild`).
The conductance to the ground has the sign of the sum of the carriers, which starts nonnegative and
stays so, as an update makes both densities multiples of the intrinsic one
(`Poisson.nonnegative_equilibrium`, `Poisson.nonnegative_update`). So the pivots are bounded below by
the conductances of the elements alone, whatever the field, and no solve of a run with a tolerance
below these bounds is refused (`Poisson.equilibrium_never_singular`).
-/

namespace CarrierTransport.Newton

open LinearSystem (BlockMatrix)
open LinearSystem.BlockMatrix
open Mesh (IsLine Element)
open Physics (MaterialModel)
open State (NodeField)
open Transition

/-! ### Coefficients of Poisson's equation -/

section Coefficients

variable {M α : Type} [ExactScalar α]

variable [MaterialModel M α]

/-- Permittivity times area over length of an element, zero if there is no such element. -/
def Problem.conductance (p : Problem M α) (e : Nat) : α :=
  (p.mesh.elements[e]?).elim 0 fun element =>
    (p.table.material? element.region).elim 0 fun m =>
      MaterialModel.permittivity m * element.area / element.length

namespace Poisson

variable [BEq M] {p : Problem M α} {field : NodeField α} {regions : List Nat}
  {priority : Nat → Int}

/-- The conductance of an edge is that of its element. -/
theorem conductance_of_edge? {element : Element α} {edge : Edge α} {e : Nat}
    (he : p.mesh.elements[e]? = some element)
    (hedge : edge? p.mesh p.table field element = some edge) :
    edge.conductance = p.conductance e := by
  obtain ⟨-, -, m, hm, hconductance⟩ := Problem.of_edge? hedge
  simp [Problem.conductance, he, hm, hconductance]

/-- What elements and nodes add to a coefficient on a line. -/
theorem coefficients_contributions (hline : IsLine p.mesh regions priority) (hclosed : p.Closed)
    (hfield : field.nodeCount = p.nodeCount) (node node' : Nat) :
    coefficients node node' 0 0 (contributions p field) =
      ∑ e ∈ Finset.range regions.length, p.conductance e *
        (same e 0 node 0 - same (e + 1) 0 node 0) * (same e 0 node' 0 - same (e + 1) 0 node' 0) +
      same node 0 node' 0 * groundConductance p field node := by
  rw [contributions, coefficients_append, coefficients_flatMap, coefficients_nodes]
  refine congrArg₂ (· + ·) (Loop.sum_map_toList hline.elements_size fun e element he => ?_) rfl
  obtain ⟨edge, hedge, hleft, hright⟩ := hclosed.exists_edge hfield (Array.mem_of_getElem? he)
  obtain ⟨-, hleft', hright', -⟩ := hline.of_getElem? he
  rw [elementContributions, hedge]
  dsimp only
  rw [edge.coefficients_contributions, hleft, hright, hleft', hright',
    conductance_of_edge? he hedge]

theorem coefficients_inner (hline : IsLine p.mesh regions priority) (hclosed : p.Closed)
    (hfield : field.nodeCount = p.nodeCount) {i : Nat} (hi : i + 1 < regions.length)
    (node' : Nat) :
    coefficients (i + 1) node' 0 0 (contributions p field) =
      p.conductance i * (same (i + 1) 0 node' 0 - same i 0 node' 0) +
      p.conductance (i + 1) * (same (i + 1) 0 node' 0 - same (i + 2) 0 node' 0) +
      same (i + 1) 0 node' 0 * groundConductance p field (i + 1) := by
  rw [coefficients_contributions hline hclosed hfield, Finset.sum_eq_add i (i + 1) (by omega)]
  · simp [same]
    ring
  · rintro e - ⟨he, he'⟩
    simp [same, he, he']
  · intro h
    exact absurd (Finset.mem_range.2 (by omega)) h
  · intro h
    exact absurd (Finset.mem_range.2 hi) h

end Poisson

end Coefficients

/-! ### The system of a line -/

section System

variable {M α : Type} [ExactScalar α] {p : Problem M α} {base : BlockMatrix α} {stride : Nat}
  {a a' : Assembly stride α} {cs : List (Contribution α)}

namespace Poisson

section Places

variable (hbase : p.matrix (Array.replicate p.nodeCount 1) = .ok base)

include hbase

theorem offset_matrix {node : Nat} (hnode : node ≤ p.nodeCount) :
    base.layout.offset node = node := by
  rw [p.layout_matrix hbase]
  exact LinearSystem.Layout.offset_ofSizes_replicate hnode

theorem rowCount_matrix : base.rowCount = p.nodeCount := by
  obtain ⟨c, -, -, rfl⟩ := p.of_matrix hbase
  have hcount : (ofCouplings (α := α) (.ofSizes (.replicate p.nodeCount 1)) c).rowCount =
      p.nodeCount := by
    rw [rowCount_ofCouplings, LinearSystem.Layout.total, LinearSystem.Layout.nodeCount,
      LinearSystem.Layout.ofSizes, Array.size_replicate]
    exact LinearSystem.Layout.offset_ofSizes_replicate le_rfl
  exact hcount

/-- Between the contacts the coefficients of an assembly are those contributed to it. -/
theorem coefficient_rebuild (h : a.Over base) (hcs : ∀ c ∈ cs, c.Slotted stride)
    (hok : Assembly.rebuild cs p.settings.dirichletDiagonal p.lastNode a = .ok () a')
    (h' : a'.Over base) {node node' : Nat} (hnode : node < p.nodeCount) (hfirst : node ≠ 0)
    (hlast : node ≠ p.lastNode) (hnode' : node' < p.nodeCount) :
    a'.matrix.coefficient node node' = coefficients node node' 0 0 cs := by
  obtain ⟨-, hcoefficient⟩ := h.amounts_rebuild (Problem.size_rhs_matrix hbase) hcs hok
    (p.size_pos_of_matrix hbase hnode) hfirst hlast
  rw [← hcoefficient (p.size_pos_of_matrix hbase hnode'), Assembly.value, h'.matrix.layout,
    offset_matrix hbase hnode.le, offset_matrix hbase hnode'.le]
  rfl

theorem coefficient_contact (h : a.Over base) (hgrounded : p.Grounded a.matrix) {node : Nat}
    (hnode : node < p.nodeCount) (hcontact : p.IsContact node) (node' : Nat) :
    a.matrix.coefficient node node' = if node' = node then p.settings.dirichletDiagonal else 0 := by
  have hsub := p.size_pos_of_matrix hbase hnode
  rw [← h.matrix.layout] at hsub
  have hcoefficient := hgrounded.coefficient hbase h.matrix hcontact hsub node'
  rw [h.matrix.layout, offset_matrix hbase hnode.le] at hcoefficient
  exact hcoefficient

end Places

variable [MaterialModel M α] [BEq M] {s : PoissonState α} {regions : List Nat}
  {priority : Nat → Int}

/-- A setup on a line assembles a chain. -/
theorem isChain_rebuild (hline : IsLine p.mesh regions priority) (hclosed : p.Closed)
    (hdiagonal : p.settings.dirichletDiagonal ≠ 0)
    (hbase : p.matrix (Array.replicate p.nodeCount 1) = .ok base) {field : NodeField α}
    (hfield : field.nodeCount = p.nodeCount)
    (hslotted : ∀ c ∈ contributions p field, c.Slotted stride) (h : a.Over base)
    (hok : Assembly.rebuild (contributions p field) p.settings.dirichletDiagonal p.lastNode a =
      .ok () a') (h' : a'.Over base) :
    a'.matrix.IsChain p.lastNode p.conductance (groundConductance p field) := by
  have hcount : p.nodeCount = regions.length + 1 := hline.nodes_size
  have hlast : p.lastNode = regions.length := by
    rw [Problem.lastNode, hcount, Nat.add_sub_cancel]
  have htwo := hclosed.two_le
  have hwell := (Problem.wellFormed_matrix hbase).of_samePlaces h'.matrix.toSamePlaces
  have hrows : a'.matrix.rowCount = p.nodeCount :=
    h'.matrix.toSamePlaces.rowCount.trans (rowCount_matrix hbase)
  have hcontact : ∀ node, p.IsContact node → node < p.nodeCount → ∀ node',
      a'.matrix.coefficient node node' =
        if node' = node then p.settings.dirichletDiagonal else 0 :=
    fun node hnode hlt node' =>
      coefficient_contact hbase h' (p.grounded_of_rebuild hok) hlt hnode node'
  have hinner : ∀ i, i + 1 < regions.length → ∀ node' < p.nodeCount,
      a'.matrix.coefficient (i + 1) node' =
        p.conductance i * (same (i + 1) 0 node' 0 - same i 0 node' 0) +
        p.conductance (i + 1) * (same (i + 1) 0 node' 0 - same (i + 2) 0 node' 0) +
        same (i + 1) 0 node' 0 * groundConductance p field (i + 1) := by
    intro i hi node' hnode'
    rw [coefficient_rebuild hbase h hslotted hok h'
      (by omega) (by omega) (by omega) hnode']
    exact coefficients_inner hline hclosed hfield hi node'
  constructor
  case tridiagonal =>
    intro i j hij
    -- nothing is known about places outside the system, but nothing is stored there either
    by_cases hmem : j ∈ a'.matrix.columnsOf i
    · have hj := hwell.lt i j hmem
      have hi : i < p.nodeCount := by
        by_contra hge
        rw [columnsOf_of_le _ (by omega)] at hmem
        cases hmem
      by_cases hi' : p.IsContact i
      · rw [hcontact i hi' hi, if_neg (by omega)]
      · obtain ⟨hzero, hne⟩ := not_or.1 hi'
        obtain ⟨i, rfl⟩ := Nat.exists_eq_succ_of_ne_zero hzero
        rw [hinner i (by omega) j (by omega)]
        simp [same, show i + 1 ≠ j by omega, show i ≠ j by omega, show i + 2 ≠ j by omega]
    · exact coefficient_eq_zero hmem
  case first =>
    rw [hcontact 0 (.inl rfl) (by omega), if_pos rfl]
    exact hdiagonal
  case first_right => rw [hcontact 0 (.inl rfl) (by omega), if_neg (by decide)]
  case last =>
    rw [hcontact p.lastNode (.inr rfl) (by omega), if_pos rfl]
    exact hdiagonal
  case last_left => rw [hcontact p.lastNode (.inr rfl) (by omega), if_neg (by omega)]
  case diagonal =>
    intro i hi
    rw [hinner i (by omega) (i + 1) (by omega)]
    simp [same]
  case left =>
    intro i hi
    rw [hinner i (by omega) i (by omega)]
    simp [same]
  case right =>
    intro i hi
    rw [hinner i (by omega) (i + 2) (by omega)]
    simp [same]

/-! ### Carriers -/

/-- There are no fewer carriers than none at every node. -/
def NonnegativeCarriers (field : NodeField α) : Prop :=
  ∀ s ∈ field.nodes, 0 ≤ s.electronDensity + s.holeDensity

/-- The intrinsic density is nowhere negative. -/
def NonnegativeIntrinsic (field : NodeField α) : Prop :=
  ∀ s ∈ field.nodes, 0 ≤ s.intrinsicDensity

/-- What the equilibrium iteration asks of a problem on a line: elements with a length, an area and
a permittivity, a temperature, and contact equations that can be solved. -/
structure Regular (p : Problem M α) (regions : List Nat) (priority : Nat → Int) : Prop where
  line : IsLine p.mesh regions priority
  regions_ne : regions ≠ []
  geometry : ∀ element ∈ p.mesh.elements, 0 < element.length ∧ 0 < element.area
  material : ∀ r ∈ regions, ∃ m, p.table.material? r = some m ∧
    0 < (MaterialModel.permittivity m : α)
  temperature : 0 < p.table.temperature
  diagonal : p.settings.dirichletDiagonal ≠ 0

omit [BEq M] in
theorem Regular.closed (h : Regular p regions priority) : p.Closed :=
  Problem.closed_of_isLine h.line h.regions_ne fun r hr =>
    (h.material r hr).imp fun _ hm => hm.1

omit [BEq M] in
theorem Regular.lastNode_eq (h : Regular p regions priority) : p.lastNode = regions.length := by
  have hcount : p.nodeCount = regions.length + 1 := h.line.nodes_size
  rw [Problem.lastNode, hcount, Nat.add_sub_cancel]

omit [BEq M] in
/-- Elements with a length, an area and a permittivity conduct. -/
theorem conductance_pos (hline : IsLine p.mesh regions priority)
    (hgeometry : ∀ element ∈ p.mesh.elements, 0 < element.length ∧ 0 < element.area)
    (hmaterial : ∀ r ∈ regions, ∃ m, p.table.material? r = some m ∧
      0 < (MaterialModel.permittivity m : α)) {e : Nat} (he : e < regions.length) :
    0 < p.conductance e := by
  obtain ⟨element, helement, -, -, hregion⟩ := hline.element e he
  obtain ⟨m, hm, hpermittivity⟩ := hmaterial _ (List.mem_of_getElem? hregion)
  obtain ⟨hlength, harea⟩ := hgeometry element (Array.mem_of_getElem? helement)
  simp only [Problem.conductance, helement, hm, Option.elim_some]
  exact div_pos (mul_pos hpermittivity harea) hlength

omit [BEq M] in
theorem Regular.conductance_pos (h : Regular p regions priority) {e : Nat} (he : e < p.lastNode) :
    0 < p.conductance e := by
  rw [h.lastNode_eq] at he
  exact Poisson.conductance_pos h.line h.geometry h.material he

omit [BEq M] in
theorem Regular.share_pos (h : Regular p regions priority) {node : Nat} {element : Element α}
    (hborders : p.Borders node element) : 0 < element.share := by
  obtain ⟨e, he, -⟩ := hborders
  obtain ⟨hlength, harea⟩ := h.geometry element (Array.mem_of_getElem? he)
  have htwo : (0 : α) < 1 + 1 := by positivity
  exact div_pos (mul_pos harea hlength) htwo

omit [BEq M] in
theorem Regular.semiconductorVolume_nonneg (h : Regular p regions priority) (node : Nat) :
    0 ≤ p.semiconductorVolume node := by
  rw [Problem.semiconductorVolume]
  cases hnode : p.mesh.nodes[node]? with
  | none => exact le_rfl
  | some n =>
    refine List.sum_nonneg fun x hx => ?_
    obtain ⟨v, hv, rfl⟩ := List.mem_map.1 hx
    obtain ⟨element, hborders, -, rfl⟩ := h.closed.mem_volumes hnode hv
    exact (h.share_pos hborders).le

omit [BEq M] in
theorem Regular.groundConductance_nonneg (h : Regular p regions priority) {field : NodeField α}
    (hfield : NonnegativeCarriers field) (node : Nat) : 0 ≤ groundConductance p field node := by
  rw [groundConductance]
  cases hnode : field.nodes[node]? with
  | none => exact le_rfl
  | some s =>
    have hperVolt := div_pos (Physics.elementaryCharge_pos (α := α))
      (Physics.thermalVoltage_pos h.temperature)
    have hcarriers := hfield s (Array.mem_of_getElem? hnode)
    exact mul_nonneg (mul_nonneg hperVolt.le hcarriers) (h.semiconductorVolume_nonneg node)

/-! ### Setups and solves -/

/-- The pivots that a solve of a line meets: one at the contacts, and between them at least the
share of the conductance to the right in the one to both sides. -/
structure PivotsBounded (p : Problem M α) (m : BlockMatrix α) : Prop where
  first : m.pivotOf 0 = 1
  last : m.pivotOf p.lastNode = 1
  inner : ∀ i, 0 < i → i < p.lastNode →
    p.conductance i / (p.conductance (i - 1) + p.conductance i) ≤ m.pivotOf i

/-- A pivot tolerance that none of these pivots is below. -/
structure Tolerated (p : Problem M α) : Prop where
  contact : p.settings.pivotTolerance ≤ 1
  inner : ∀ i, 0 < i → i < p.lastNode →
    p.settings.pivotTolerance ≤ p.conductance i / (p.conductance (i - 1) + p.conductance i)

omit [BEq M] in
/-- The pivots of a chain of these conductances are bounded. -/
theorem pivotsBounded_of_isChain {m : BlockMatrix α} {g : Nat → α} (hm : m.WellFormed)
    (hchain : m.IsChain p.lastNode p.conductance g) (hc : ∀ e < p.lastNode, 0 < p.conductance e)
    (hg : ∀ i, 0 ≤ g i) (htwo : 2 ≤ p.nodeCount) : PivotsBounded p m := by
  have hlast : 0 < p.lastNode := by
    rw [Problem.lastNode]
    omega
  obtain ⟨hfirst, hend, hinner⟩ := hchain.le_pivotOf hm hc hg hlast
  refine ⟨hfirst, hend, fun i hi hlt => ?_⟩
  obtain ⟨i, rfl⟩ := Nat.exists_eq_succ_of_ne_zero hi.ne'
  exact hinner i hlt

theorem setup_pivotsBounded (h : Regular p regions priority) (hs : Shaped p s)
    (hfield : NonnegativeCarriers s.field) :
    ∃ t, setup p s = .ok () t ∧ t.field = s.field ∧ Shaped p t ∧
      PivotsBounded p t.assembly.matrix := by
  have hclosed := h.closed
  obtain ⟨base, a, t, hbase, hover, hrebuild, ht, rfl⟩ := exists_setup hclosed hs
  obtain ⟨base', hbase', hstart, -⟩ := hs.equipped
  cases hbase.symm.trans hbase'
  have hgrounded := setup_grounded hs
  rw [ht] at hgrounded
  cases hgrounded with
  | ok hkept =>
    have hwell := (Problem.wellFormed_matrix hbase).of_samePlaces hover.matrix.toSamePlaces
    have hchain := isChain_rebuild h.line hclosed h.diagonal hbase hs.nodes
      (slotted_contributions p s.field) hstart hrebuild hover
    exact ⟨t, ht, hkept.1.2, hkept.1.1, pivotsBounded_of_isChain hwell hchain
      (fun e he => h.conductance_pos he) (h.groundConductance_nonneg hfield) hclosed.two_le⟩

omit [BEq M] in
/-- A solve whose pivots are tolerated succeeds. -/
theorem Tolerated.solve_ok (hp : Tolerated p) {m : BlockMatrix α}
    (htolerance : m.pivotTolerance = p.settings.pivotTolerance)
    (hrows : m.rowCount = p.nodeCount) (hpivots : PivotsBounded p m) :
    ∃ m', BlockMatrix.solve m = .ok () m' := by
  refine ⟨_, m.solve_eq_ok_of_forall fun row hrow => ?_⟩
  rw [ExactScalar.abs_eq_abs, not_lt, htolerance]
  refine le_trans ?_ (le_abs_self _)
  by_cases hfirst : row = 0
  · rw [hfirst, hpivots.first]
    exact hp.contact
  · by_cases hlast : row = p.lastNode
    · rw [hlast, hpivots.last]
      exact hp.contact
    · have hlt : row < p.lastNode := by
        rw [Problem.lastNode] at hlast ⊢
        omega
      exact (hp.inner row (by omega) hlt).trans (hpivots.inner row (by omega) hlt)

omit [MaterialModel M α] [BEq M] in
/-- A state whose system can be solved is solved. -/
theorem solve_of_solve (hs : Shaped p s) {m : BlockMatrix α}
    (hm : BlockMatrix.solve s.assembly.matrix = .ok () m) :
    ∃ t, solve s = .ok () t ∧ Shaped p t ∧ t.field = s.field ∧ t.assembly.matrix = m := by
  obtain ⟨ws, -, hsolve⟩ := hs.equipped.solveIn_eq
  rw [hm] at hsolve
  have hshaped := solve_shaped hs
  obtain ⟨t, ht, hfield, hmatrix⟩ :
      ∃ t, solve s = .ok () t ∧ t.field = s.field ∧ t.assembly.matrix = m := by
    rw [Poisson.solve, widenError, zoom]
    dsimp only
    rw [hsolve]
    exact ⟨_, rfl, rfl, rfl⟩
  rw [ht] at hshaped
  cases hshaped with
  | ok h => exact ⟨t, ht, h.1, hfield, hmatrix⟩

omit [BEq M] in
theorem solve_ok (hp : Tolerated p) (hs : Shaped p s)
    (hpivots : PivotsBounded p s.assembly.matrix) :
    ∃ t, solve s = .ok () t ∧ t.field = s.field ∧ Shaped p t := by
  have hrows : s.assembly.matrix.rowCount = p.nodeCount := by
    obtain ⟨base, hbase, hover, -⟩ := hs.equipped
    exact hover.matrix.toSamePlaces.rowCount.trans (rowCount_matrix hbase)
  obtain ⟨m, hm⟩ := hp.solve_ok hs.equipped.pivotTolerance hrows hpivots
  obtain ⟨t, ht, hshaped, hfield, -⟩ := solve_of_solve hs hm
  exact ⟨t, ht, hfield, hshaped⟩

/-! ### Updates -/

omit [MaterialModel M α] [BEq M] in
/-- An update leaves carriers behind that are not negative. -/
theorem nonnegative_update (hexp : ∀ x : α, 0 < Scalar.exp x) (p : Problem M α)
    (hintrinsic : NonnegativeIntrinsic s.field) :
    NonnegativeCarriers (update p s).field ∧ NonnegativeIntrinsic (update p s).field := by
  have hnode : ∀ t ∈ (update p s).field.nodes, ∃ node dx, ∃ state ∈ s.field.nodes,
      t = advance p dx node state := by
    intro t ht
    obtain ⟨node, hnode, rfl⟩ := Array.mem_mapIdx.1 ht
    exact ⟨node, _, _, Array.getElem_mem hnode, rfl⟩
  constructor
  · intro t ht
    obtain ⟨node, dx, state, hstate, rfl⟩ := hnode t ht
    have hstate := hintrinsic state hstate
    exact add_nonneg (mul_nonneg hstate (hexp _).le) (mul_nonneg hstate (hexp _).le)
  · intro t ht
    obtain ⟨node, dx, state, hstate, rfl⟩ := hnode t ht
    exact hintrinsic state hstate

/-! ### Runs -/

/-- An error that a run may end in without a singular system: its budget is spent, or its observer
has failed on the field it ends with. -/
def Ended {ω : Type} (observe : NewtonStep.Observer α ω) (e : NewtonError α)
    (x : PoissonState α × ω) : Prop :=
  (∃ rounds, e = .iterationBudget rounds) ∨ ∃ number w, observe number x.1.field w = .error e x.2

/-- A run whose pivots are tolerated ends in success, without budget or with its observer. -/
theorem run_ended (hexp : ∀ x : α, 0 < Scalar.exp x) (h : Regular p regions priority)
    (hp : Tolerated p) {ω : Type} (observe : NewtonStep.Observer α ω) (hs : Shaped p s)
    (hcarriers : NonnegativeCarriers s.field) (hintrinsic : NonnegativeIntrinsic s.field) (w : ω) :
    Ends (fun _ _ => True) (Ended observe) ((step p).run observe (s, w)) := by
  -- what holds between rounds: the next solve is tolerated, and the update after it leaves carriers
  let Ready (x : PoissonState α × ω) : Prop :=
    (Shaped p x.1 ∧ NonnegativeIntrinsic x.1.field) ∧ PivotsBounded p x.1.assembly.matrix
  have hsetup : ∀ (s : PoissonState α) (w : ω), Shaped p s → NonnegativeCarriers s.field →
      NonnegativeIntrinsic s.field → Ends (fun _ => Ready) (Ended observe)
        ((step p : NewtonStep α _ ω).setup (s, w)) := by
    intro s w hs hcarriers hintrinsic
    obtain ⟨t, ht, hfield, hshaped, hpivots⟩ := setup_pivotsBounded h hs hcarriers
    refine .onFirst ?_
    rw [ht]
    exact .ok ⟨⟨hshaped, hfield ▸ hintrinsic⟩, hpivots⟩
  have hround : ∀ number x, Ready x →
      Ends (fun _ => Ready) (Ended observe) ((step p).round observe number x) := by
    rintro number ⟨s, w⟩ ⟨⟨hs, hintrinsic⟩, hpivots⟩
    have hsolve : Ends (fun _ x => Shaped p x.1 ∧ NonnegativeIntrinsic x.1.field) (Ended observe)
        ((step p : NewtonStep α _ ω).solve (s, w)) := by
      obtain ⟨t, ht, hfield, hshaped⟩ := solve_ok hp hs hpivots
      refine .onFirst ?_
      rw [ht]
      exact .ok ⟨hshaped, hfield ▸ hintrinsic⟩
    refine hsolve.bind ?_
    rintro _ ⟨s, w⟩ ⟨hs, hintrinsic⟩
    obtain ⟨hcarriers, hintrinsic⟩ := nonnegative_update hexp p hintrinsic
    have hshaped := (update_alike hs.assembled).1.left
    have hupdate : Ends (fun _ x => x = (update p s, w)) (Ended observe)
        ((step p : NewtonStep α _ ω).update (s, w)) := .ok rfl
    refine hupdate.bind ?_
    rintro _ _ rfl
    refine (hsetup (update p s) w hshaped hcarriers hintrinsic).bind ?_
    rintro _ ⟨t, w⟩ ht
    change Ends _ _ (onSecond (observe number t.field) (t, w))
    refine .onSecond ?_
    cases hobserve : observe number t.field w with
    | ok u v => exact .ok ht
    | error e v => exact .error (.inr ⟨number, w, hobserve⟩)
  exact (NewtonStep.run_ends (hsetup s w hs hcarriers hintrinsic) hround
    fun done x _ => .inl ⟨done, rfl⟩).mono (fun _ _ _ => trivial) fun _ _ h => h

omit [BEq M] in
/-- In local equilibrium neither the carriers nor the intrinsic density are negative. -/
theorem nonnegative_equilibrium (hexp : ∀ x : α, 0 < Scalar.exp x)
    (hintrinsic : ∀ r m narrowing, p.table.material? r = some m →
      0 ≤ MaterialModel.intrinsicDensity m p.table.temperature narrowing)
    {field : NodeField α} (h : NodeField.equilibrium p.mesh p.table = .ok field) :
    NonnegativeCarriers field ∧ NonnegativeIntrinsic field := by
  have hnode : ∀ s ∈ field.nodes, ∃ (m : M) (donor acceptor : α),
      0 ≤ (State.equilibriumState m p.table.temperature donor acceptor).intrinsicDensity ∧
      s = State.equilibriumState m p.table.temperature donor acceptor := by
    intro s hs
    obtain ⟨node, hnode⟩ := Array.mem_iff_getElem?.1 hs
    obtain ⟨m, donor, acceptor, hm, rfl⟩ := State.of_equilibrium h hnode
    obtain ⟨n, -, hn⟩ := Option.bind_eq_some_iff.1 hm
    exact ⟨m, donor, acceptor, hintrinsic n.region m _ hn, rfl⟩
  constructor
  · intro s hs
    obtain ⟨m, donor, acceptor, hn, rfl⟩ := hnode s hs
    have hexp := (hexp (MaterialModel.builtInPotential m p.table.temperature donor acceptor /
      Physics.thermalVoltage p.table.temperature)).le
    exact add_nonneg (mul_nonneg hn hexp) (div_nonneg hn hexp)
  · intro s hs
    obtain ⟨m, donor, acceptor, hn, rfl⟩ := hnode s hs
    exact hn

/-- **The equilibrium iteration never meets a singular system.** On a line of elements with
positive lengths, areas and permittivities at a positive temperature, a setup from a field without
negative carriers assembles a system whose pivots are one at the contacts and between them at least
the share of the right conductance in the two around the node. So with a tolerance that none of
these is below, a run ends in success, with its budget spent or in an error of its observer. Fields
in local equilibrium and updated ones have no negative carriers. -/
theorem equilibrium_never_singular (hexp : ∀ x : α, 0 < Scalar.exp x)
    (h : Regular p regions priority) :
    (∀ s, Reachable p s → NonnegativeCarriers s.field →
      ∃ t, setup p s = .ok () t ∧ PivotsBounded p t.assembly.matrix) ∧
    (Tolerated p → ∀ s, Reachable p s → NonnegativeCarriers s.field →
      NonnegativeIntrinsic s.field → ∀ (ω : Type) (observe : NewtonStep.Observer α ω) (w : ω),
      Ends (fun _ _ => True) (Ended observe) ((step p).run observe (s, w))) ∧
    (∀ s : PoissonState α, NonnegativeIntrinsic s.field →
      NonnegativeCarriers (update p s).field ∧ NonnegativeIntrinsic (update p s).field) ∧
    ((∀ r m narrowing, p.table.material? r = some m →
        0 ≤ MaterialModel.intrinsicDensity m p.table.temperature narrowing) →
      ∃ field, NodeField.equilibrium p.mesh p.table = .ok field ∧
        NonnegativeCarriers field ∧ NonnegativeIntrinsic field) := by
  refine ⟨?_, ?_, ?_, ?_⟩
  · intro s hs hcarriers
    obtain ⟨t, ht, -, -, hpivots⟩ := setup_pivotsBounded h hs.shaped hcarriers
    exact ⟨t, ht, hpivots⟩
  · intro hp s hs hcarriers hintrinsic ω observe w
    exact run_ended hexp h hp observe hs.shaped hcarriers hintrinsic w
  · intro s hintrinsic
    exact nonnegative_update hexp p hintrinsic
  · intro hintrinsic
    obtain ⟨field, hfield, -⟩ := h.closed.exists_equilibrium
    exact ⟨field, hfield, nonnegative_equilibrium hexp hintrinsic hfield⟩

end Poisson

end System

/-! ### A bar under oxide -/

namespace Poisson

/-- A layer of oxide on a bar of silicon, on which donors meet acceptors. -/
def cappedBar : Problem Physics.Material ℚ where
  mesh :=
    { nodes := #[⟨[0], 0⟩, ⟨[0, 1], 1⟩, ⟨[1, 2], 1⟩, ⟨[2], 2⟩]
      elements := #[⟨0, 1, 1, 1, 0⟩, ⟨1, 2, 1, 1, 1⟩, ⟨2, 3, 2, 1, 2⟩] }
  table :=
    { regions := #[⟨.siliconDioxide, 0, 0⟩, ⟨.silicon, 1000, 0⟩, ⟨.silicon, 0, 1000⟩]
      temperature := 300 }
  settings := .ofTolerances (1 / 1000) (1 / 1000) 5

theorem exp_pos_rat (x : ℚ) : 0 < Scalar.exp x := by
  have hsquare : 0 ≤ x * x := mul_self_nonneg x
  change 0 < if 0 ≤ x then 1 + x + x * x / 2 else 1 / (1 - x + x * x / 2)
  split_ifs with hx
  · positivity
  · exact one_div_pos.2 (by linarith)

/-- The priorities of the layers of the bar. -/
def cappedPriority (r : Nat) : Int :=
  #[100, 0, 0].getD r 0

theorem isLine_cappedBar : IsLine cappedBar.mesh [0, 1, 2] cappedPriority where
  elements_size := rfl
  nodes_size := rfl
  element e he := by
    match e, he with
    | 0, _ => exact ⟨_, rfl, rfl, rfl, rfl⟩
    | 1, _ => exact ⟨_, rfl, rfl, rfl, rfl⟩
    | 2, _ => exact ⟨_, rfl, rfl, rfl, rfl⟩
  node i hi := by
    match i, hi with
    | 0, _ => rfl
    | 1, _ => rfl
    | 2, _ => rfl
    | 3, _ => rfl

theorem regular_cappedBar : Regular cappedBar [0, 1, 2] cappedPriority := by
  constructor
  case line => exact isLine_cappedBar
  case regions_ne => decide
  case geometry => decide +kernel
  case material =>
    intro r hr
    fin_cases hr
    · exact ⟨.siliconDioxide, rfl, by decide +kernel⟩
    · exact ⟨.silicon, rfl, by decide +kernel⟩
    · exact ⟨.silicon, rfl, by decide +kernel⟩
  case temperature => decide +kernel
  case diagonal => decide +kernel

theorem tolerated_cappedBar : Tolerated cappedBar := by
  constructor
  · decide +kernel
  · intro i hi hlt
    match i, hi, hlt with
    | 1, _, _ => decide +kernel
    | 2, _, _ => decide +kernel

theorem sound_cappedBar : cappedBar.Sound := by
  have hregions : [0, 1, 2] ≠ ([] : List Nat) := by decide
  have hmaterial : ∀ r ∈ [0, 1, 2], ∃ m, cappedBar.table.material? r = some m :=
    fun r hr => (regular_cappedBar.material r hr).imp fun _ hm => hm.1
  have hpriority : ∀ r m, cappedBar.table.material? r = some m →
      cappedPriority r = Physics.MaterialKind.priority m := by
    intro r m hm
    match r, hm with
    | 0, hm => cases hm; rfl
    | 1, hm => cases hm; rfl
    | 2, hm => cases hm; rfl
  exact Problem.sound_of_isLine isLine_cappedBar hregions hmaterial
    fun _ hnode _ hborders hcarriers =>
      Problem.governs_of_priority isLine_cappedBar hregions hpriority hmaterial
        (fun _ _ => Device.priority_lt) hnode hborders hcarriers

theorem intrinsicDensity_nonneg (temperature narrowing : ℚ) :
    0 ≤ Physics.Silicon.intrinsicDensity temperature narrowing :=
  mul_nonneg (mul_nonneg (Rat.sqrt_nonneg _) (Rat.sqrt_nonneg _)) (exp_pos_rat _).le

theorem equilibrium_never_singular_cappedBar :
    ∃ field, NodeField.equilibrium cappedBar.mesh cappedBar.table = .ok field ∧
      ∃ s, start cappedBar field = .ok s ∧
        (∃ t, setup cappedBar s = .ok () t ∧ PivotsBounded cappedBar t.assembly.matrix) ∧
        Ends (fun _ _ => True) (Ended .silent) ((step cappedBar).run .silent (s, ())) := by
  obtain ⟨hsetup, hrun, -, hequilibrium⟩ :=
    equilibrium_never_singular exp_pos_rat regular_cappedBar
  have hnonneg : (0 : ℚ) ≤ Scalar.ofDecimal 0 true 1 := by decide +kernel
  obtain ⟨field, hfield, hcarriers, hintrinsic⟩ := hequilibrium fun _ m narrowing _ =>
    match m with
    | .silicon => intrinsicDensity_nonneg _ narrowing
    | .siliconDioxide => hnonneg
  obtain ⟨field', hfield', hcount⟩ := sound_cappedBar.exists_equilibrium
  cases hfield.symm.trans hfield'
  obtain ⟨s, hs⟩ := exists_start sound_cappedBar hcount
  obtain ⟨-, rfl⟩ := shaped_start hs
  exact ⟨s.field, hfield, s, hs, hsetup s (.start hs) hcarriers,
    hrun tolerated_cappedBar s (.start hs) hcarriers hintrinsic Unit .silent ()⟩

end Poisson

end CarrierTransport.Newton
