import Mathlib
import CarrierTransport.Proofs.Newton.Phases

/-!
# Problems that cannot fail structurally

A problem is sound if all numbers in it name something and if every node at a semiconductor element
is governed by a semiconductor (`Problem.Sound`). Then every contribution of both iterations is
addressed to a place that the system has, so building, setting a voltage and assembling cannot fail,
a solve can fail only at a pivot and an update only for want of a damping factor
(`Poisson.sturdy`, `TwoCarrier.sturdy`).
-/

namespace CarrierTransport.Newton

open LinearSystem (BlockMatrix Couplings Layout MatrixError SolveObserver Workspace)
open LinearSystem.BlockMatrix
open Mesh (Element Node)
open Physics (MaterialKind MaterialModel)
open State (NodeField NodeState Unknown)
open Transition

/-! ### Sound problems -/

namespace Problem

section Sound

variable {M α : Type} [MaterialKind M]

/-- The element is one of a semiconductor. -/
def HoldsCarriers (p : Problem M α) (element : Element α) : Prop :=
  ∃ m, p.table.material? element.region = some m ∧ MaterialKind.isSemiconductor m = true

/-- The node is governed by a semiconductor. -/
def Governs (p : Problem M α) (node : Nat) : Prop :=
  ∃ m, p.governing? node = some m ∧ MaterialKind.isSemiconductor m = true

/-- The element is one that the node lists or that ends in the node. -/
def Borders (p : Problem M α) (node : Nat) (element : Element α) : Prop :=
  ∃ e, p.mesh.elements[e]? = some element ∧
    ((element.left = node ∨ element.right = node) ∨
      ∃ n, p.mesh.nodes[node]? = some n ∧ e ∈ n.elements)

/-- Nothing in the problem refers to what is not there. -/
structure Closed (p : Problem M α) : Prop where
  two_le : 2 ≤ p.nodeCount
  ends : ∀ element ∈ p.mesh.elements, element.left < p.nodeCount ∧ element.right < p.nodeCount
  material : ∀ element ∈ p.mesh.elements, ∃ m, p.table.material? element.region = some m
  governing : ∀ node < p.nodeCount, ∃ m, p.governing? node = some m
  listed : ∀ node ∈ p.mesh.nodes, ∀ e ∈ node.elements, e < p.mesh.elements.size

/-- Nothing in the problem refers to what is not there, and the carriers of a semiconductor element
have unknowns at the nodes around it. -/
structure Sound (p : Problem M α) : Prop extends Closed p where
  governs : ∀ node < p.nodeCount, ∀ element, p.Borders node element → p.HoldsCarriers element →
    p.Governs node

variable {p : Problem M α}

omit [MaterialKind M] in
theorem Closed.lastNode_lt (h : p.Closed) : p.lastNode < p.nodeCount := by
  have htwo := h.two_le
  rw [lastNode]
  omega

omit [MaterialKind M] in
theorem Closed.validate (h : p.Closed) {field : NodeField α}
    (hfield : field.nodeCount = p.nodeCount) : p.validate field = .ok () := by
  rw [Problem.validate, if_neg (not_lt.2 h.two_le), if_neg (not_not.2 hfield)]

omit [MaterialKind M] in
theorem exists_node {node : Nat} (h : node < p.nodeCount) :
    ∃ n, p.mesh.nodes[node]? = some n ∧ n ∈ p.mesh.nodes :=
  ⟨p.mesh.nodes[node], Array.getElem?_eq_getElem h, Array.getElem_mem h⟩

omit [MaterialKind M] in
theorem exists_state {field : NodeField α} (hfield : field.nodeCount = p.nodeCount) {node : Nat}
    (h : node < p.nodeCount) : ∃ s, field.nodes[node]? = some s :=
  ⟨_, Array.getElem?_eq_getElem (lt_of_lt_of_eq h hfield.symm)⟩

/-! ### Places -/

/-- Two nodes are the same or joined by an element. -/
def Coupled (p : Problem M α) (i j : Nat) : Prop :=
  i = j ∨ ∃ element ∈ p.mesh.elements,
    element.left = i ∧ element.right = j ∨ element.left = j ∧ element.right = i

variable [Scalar α] {sizes : Array Nat} {base : BlockMatrix α}

omit [MaterialKind M] in
/-- The unknowns of two nodes have a coefficient in common if and only if the nodes are coupled. -/
theorem mem_columnsOf_matrix (h : p.matrix sizes = .ok base) {i j k l : Nat}
    (hk : k < base.layout.sizes.getD i 0) (hl : l < base.layout.sizes.getD j 0) :
    base.layout.offset j + l ∈ base.columnsOf (base.layout.offset i + k) ↔ p.Coupled i j := by
  have hsizes := p.sizes_matrix h
  obtain ⟨m, hm, rfl⟩ := p.matrix_eq_ok.1 h
  rw [hsizes] at hk hl
  exact mem_columnsOf_ofTopology hm hk hl

omit [MaterialKind M] in
theorem Closed.exists_matrix (h : p.Closed) (hsize : sizes.size = p.nodeCount)
    (hpos : ∀ size ∈ sizes, 0 < size) : ∃ base : BlockMatrix α, p.matrix sizes = .ok base := by
  obtain ⟨c, hc⟩ := Couplings.exists_ofTopology h.ends
  exact ⟨_, p.matrix_eq_ok.2 ⟨_, ofTopology_eq_ok.2 ⟨hsize, hpos, c, hc, rfl⟩, rfl⟩⟩

end Sound

/-! ### Contributions -/

section Addressed

variable {M α : Type} [Scalar α] {p : Problem M α} {sizes : Array Nat} {base : BlockMatrix α}
  {i j : Nat}

omit [Scalar α] in
theorem Coupled.symm (h : p.Coupled i j) : p.Coupled j i := by
  rcases h with rfl | ⟨element, helement, hends⟩
  · exact .inl rfl
  · exact .inr ⟨element, helement, hends.symm⟩

omit [Scalar α] in
theorem coupled_self (p : Problem M α) (i : Nat) : p.Coupled i i :=
  .inl rfl

variable (h : p.matrix sizes = .ok base)

include h

theorem addressed_coefficient {k l : Nat} (hij : p.Coupled i j) (hk : k < sizes.getD i 0)
    (hl : l < sizes.getD j 0) (v : α) : (Contribution.coefficient i j k l v).Addressed base := by
  rw [← p.sizes_matrix h] at hk hl
  exact ⟨hk, hl, (p.mem_columnsOf_matrix h hk hl).2 hij⟩

theorem addressed_source {k : Nat} (hk : k < sizes.getD i 0) (v : α) :
    (Contribution.source i k v).Addressed base := by
  rw [← p.sizes_matrix h] at hk
  exact hk

theorem addressed_slot {k : Nat} (hk : k < sizes.getD i 0) (v : α) :
    (Contribution.scale i k v).Addressed base ∧ (Contribution.coupling i k v).Addressed base := by
  rw [← p.sizes_matrix h] at hk
  exact ⟨hk, hk⟩

theorem addressed_edge {edge : Edge α} (hcoupled : p.Coupled edge.left edge.right)
    (hleft : 0 < sizes.getD edge.left 0) (hright : 0 < sizes.getD edge.right 0) :
    ∀ c ∈ edge.contributions, c.Addressed base := by
  simp only [Edge.contributions, List.forall_mem_cons]
  refine ⟨?_, ?_, ?_, ?_, ?_, ?_, ?_, ?_, ?_, ?_, by simp⟩
  · exact addressed_coefficient h (p.coupled_self _) hleft hleft _
  · exact addressed_coefficient h hcoupled hleft hright _
  · exact addressed_coefficient h (p.coupled_self _) hright hright _
  · exact addressed_coefficient h hcoupled.symm hright hleft _
  · exact addressed_source h hleft _
  · exact addressed_source h hright _
  · exact (addressed_slot h hleft _).1
  · exact (addressed_slot h hright _).1
  · exact (addressed_slot h hleft _).2
  · exact (addressed_slot h hright _).2

theorem addressed_balance (hcoupled : p.Coupled i j) {u : Unknown} (hi : u.sub < sizes.getD i 0)
    (hj : u.sub < sizes.getD j 0) (sign opposite : α → α) (weight : α) (f : CarrierFlux α) :
    ∀ c ∈ balanceContributions i j u sign opposite weight f, c.Addressed base := by
  have hi' : 0 < sizes.getD i 0 := by omega
  have hj' : 0 < sizes.getD j 0 := by omega
  simp only [balanceContributions, List.forall_mem_cons]
  refine ⟨?_, ?_, ?_, ?_, ?_, ?_, ?_, ?_, ?_, ?_, by simp⟩
  · exact addressed_coefficient h (p.coupled_self _) hi hi' _
  · exact addressed_coefficient h (p.coupled_self _) hi hi _
  · exact addressed_coefficient h hcoupled hi hj' _
  · exact addressed_coefficient h hcoupled hi hj _
  · exact addressed_coefficient h (p.coupled_self _) hj hj' _
  · exact addressed_coefficient h (p.coupled_self _) hj hj _
  · exact addressed_coefficient h hcoupled.symm hj hi' _
  · exact addressed_coefficient h hcoupled.symm hj hi _
  · exact addressed_source h hi _
  · exact addressed_source h hj _

theorem addressed_magnitude {u : Unknown} (hi : u.sub < sizes.getD i 0)
    (hj : u.sub < sizes.getD j 0) (weight left right : α) (f : CarrierFlux α) :
    ∀ c ∈ magnitudeContributions i j u weight left right f, c.Addressed base := by
  simp only [magnitudeContributions, List.forall_mem_cons]
  refine ⟨?_, ?_, ?_, ?_, by simp⟩
  · exact (addressed_slot h hi _).1
  · exact (addressed_slot h hj _).1
  · exact (addressed_slot h hi _).2
  · exact (addressed_slot h hj _).2

theorem addressed_charge {derivative : α → List (Contribution α)} {volumes : List (Option α)}
    (hvolumes : ∀ v ∈ volumes, ∃ x, v = some x ∧ ∀ c ∈ derivative x, c.Addressed base)
    (hi : 0 < sizes.getD i 0) (s : NodeState α) :
    ∀ c ∈ chargeContributions derivative i s volumes, c.Addressed base := by
  intro c hc
  rw [chargeContributions] at hc
  rcases List.mem_append.1 hc with hc | hc
  · obtain ⟨v, hv, hc⟩ := List.mem_flatMap.1 hc
    obtain ⟨x, rfl, hderivative⟩ := hvolumes v hv
    rcases List.mem_append.1 hc with hc | hc
    · exact hderivative c hc
    · rw [List.mem_singleton.1 hc]
      exact addressed_source h hi _
  · rw [List.mem_singleton.1 hc]
    exact (addressed_slot h hi _).1

end Addressed

section Elements

variable {M α : Type} [Scalar α] [MaterialModel M α] {p : Problem M α} {field : NodeField α}
  {element : Element α}

theorem mem_semiconductorVolumes {es : List Nat}
    (hes : ∀ e ∈ es, ∃ element, p.mesh.elements[e]? = some element ∧
      ∃ m, p.table.material? element.region = some m) {v : Option α}
    (hv : v ∈ semiconductorVolumes p.mesh p.table es) :
    ∃ e ∈ es, ∃ element, p.mesh.elements[e]? = some element ∧ p.HoldsCarriers element ∧
      v = some element.share := by
  induction es with
  | nil => simp [semiconductorVolumes] at hv
  | cons e es ih =>
    obtain ⟨element, helement, m, hm⟩ := hes e List.mem_cons_self
    have ih' := fun hv => ih (fun e' he' => hes e' (List.mem_cons_of_mem e he')) hv
    rw [semiconductorVolumes, helement] at hv
    dsimp only at hv
    rw [hm] at hv
    dsimp only at hv
    split_ifs at hv with hsemiconductor
    · rcases List.mem_cons.1 hv with rfl | hv
      · exact ⟨e, List.mem_cons_self, element, helement, ⟨m, hm, hsemiconductor⟩, rfl⟩
      · obtain ⟨e', he', hrest⟩ := ih' hv
        exact ⟨e', List.mem_cons_of_mem e he', hrest⟩
    · obtain ⟨e', he', hrest⟩ := ih' hv
      exact ⟨e', List.mem_cons_of_mem e he', hrest⟩

/-- The control volumes of a node that are counted are those of its semiconductor elements. -/
theorem Closed.mem_volumes (h : p.Closed) {node : Nat} {n : Node}
    (hn : p.mesh.nodes[node]? = some n) {v : Option α}
    (hv : v ∈ semiconductorVolumes p.mesh p.table n.elements) :
    ∃ element, p.Borders node element ∧ p.HoldsCarriers element ∧ v = some element.share := by
  have hlisted := h.listed n (Array.mem_of_getElem? hn)
  obtain ⟨e, he, element, helement, hcarriers, rfl⟩ :=
    p.mem_semiconductorVolumes (fun e he => by
      have hlt := hlisted e he
      exact ⟨p.mesh.elements[e], Array.getElem?_eq_getElem hlt,
        h.material _ (Array.getElem_mem hlt)⟩) hv
  exact ⟨element, ⟨e, helement, .inr ⟨n, hn, he⟩⟩, hcarriers, rfl⟩

variable [BEq M]

theorem Closed.exists_referredPotential (h : p.Closed) (hfield : field.nodeCount = p.nodeCount)
    (m : M) {node : Nat} (hnode : node < p.nodeCount) :
    ∃ v, referredPotential? p.mesh p.table field m node = some v := by
  obtain ⟨governing, hgoverning⟩ := h.governing node hnode
  obtain ⟨n, hn, -⟩ := p.exists_node hnode
  obtain ⟨s, hs⟩ := p.exists_state hfield hnode
  rw [Problem.governing?, hn] at hgoverning
  rw [referredPotential?, hn]
  simp only [Option.bind_eq_bind, Option.bind_some] at hgoverning ⊢
  rw [hgoverning, hs]
  exact ⟨_, rfl⟩

/-- An edge joins the ends of its element, by the permittivity of its material. -/
theorem of_edge? {edge : Edge α} (h : edge? p.mesh p.table field element = some edge) :
    edge.left = element.left ∧ edge.right = element.right ∧
      ∃ m, p.table.material? element.region = some m ∧
        edge.conductance = MaterialModel.permittivity m * element.area / element.length := by
  obtain ⟨m, hm, h⟩ := Option.bind_eq_some_iff.1 h
  obtain ⟨u, -, h⟩ := Option.bind_eq_some_iff.1 h
  obtain ⟨v, -, h⟩ := Option.bind_eq_some_iff.1 h
  cases h
  exact ⟨rfl, rfl, m, hm, rfl⟩

/-- Every element of a closed problem has an edge. -/
theorem Closed.exists_edge (h : p.Closed) (hfield : field.nodeCount = p.nodeCount)
    (helement : element ∈ p.mesh.elements) :
    ∃ edge, edge? p.mesh p.table field element = some edge ∧ edge.left = element.left ∧
      edge.right = element.right := by
  obtain ⟨m, hm⟩ := h.material element helement
  obtain ⟨hleft, hright⟩ := h.ends element helement
  obtain ⟨u, hu⟩ := h.exists_referredPotential hfield m hleft
  obtain ⟨v, hv⟩ := h.exists_referredPotential hfield m hright
  refine ⟨⟨element.left, element.right, MaterialModel.permittivity m * element.area /
    element.length, u, v⟩, ?_, rfl, rfl⟩
  rw [edge?, hm]
  simp only [Option.bind_eq_bind, Option.bind_some, hu, hv]
  rfl

end Elements

end Problem

/-! ### Contacts and solves -/

section Contacts

variable {M α : Type} [Scalar α] [MaterialModel M α] {p : Problem M α} {field : NodeField α}

theorem Problem.Closed.placeContact_ok (h : p.Closed) (hfield : field.nodeCount = p.nodeCount)
    {node : Nat} (hnode : node < p.nodeCount) (offset : α → α) :
    ∃ f, placeContact p node offset field = .ok () f ∧ f.nodeCount = p.nodeCount := by
  obtain ⟨m, hm⟩ := h.governing node hnode
  have hnode' : node < field.nodes.size := by
    rw [← hfield] at hnode
    exact hnode
  refine ⟨_, by rw [placeContact_eq, builtInPotential, hm, Array.getElem?_eq_getElem hnode'], ?_⟩
  exact Array.size_modify.trans hfield

theorem Problem.Closed.placeContacts_ok (h : p.Closed) (hfield : field.nodeCount = p.nodeCount)
    (voltage : α) : ∃ f, placeContacts p voltage field = .ok () f := by
  have htwo := h.two_le
  obtain ⟨f, hf, hfield'⟩ := h.placeContact_ok hfield (by omega : 0 < p.nodeCount) id
  obtain ⟨f', hf', -⟩ := h.placeContact_ok hfield' h.lastNode_lt (voltage + ·)
  exact ⟨f', bind_eq_ok.2 ⟨(), f, hf, hf'⟩⟩

end Contacts

theorem singularPivot_of_solveIn {α : Type} [Scalar α] {s t : BlockMatrix α × Workspace α}
    {e : MatrixError α} (h : solveIn s = .error e t) :
    ∃ row magnitude, e = .singularPivot row magnitude := by
  rw [solveIn] at h
  dsimp only at h
  split at h
  · next pivot ws hpivot =>
    cases h
    exact ⟨pivot.row, pivot.magnitude, rfl⟩
  · cases h

/-! ### The equilibrium iteration -/

namespace Poisson

variable {M α : Type} [Scalar α] [MaterialModel M α] [BEq M] {p : Problem M α}
  {s : PoissonState α} {base : BlockMatrix α}

omit [BEq M] in
theorem exists_start (h : p.Sound) {field : NodeField α} (hfield : field.nodeCount = p.nodeCount) :
    ∃ s, start p field = .ok s := by
  have hsize : (Array.replicate p.nodeCount 1).size = p.nodeCount := Array.size_replicate
  obtain ⟨base, hbase⟩ := h.exists_matrix (α := α) hsize fun size hsize => by
    rw [(Array.mem_replicate.1 hsize).2]
    decide
  exact ⟨_, except_bind_eq_ok.2 ⟨(), h.validate hfield, except_bind_eq_ok.2 ⟨base, hbase, rfl⟩⟩⟩

theorem addressed_contributions (h : p.Closed) {field : NodeField α}
    (hfield : field.nodeCount = p.nodeCount)
    (hbase : p.matrix (Array.replicate p.nodeCount 1) = .ok base) :
    ∀ c ∈ contributions p field, c.Addressed base := by
  have hsize : ∀ i < p.nodeCount, 0 < (Array.replicate p.nodeCount 1).getD i 0 := by
    intro i hi
    simp [hi]
  intro c hc
  rw [contributions] at hc
  rcases List.mem_append.1 hc with hc | hc
  · obtain ⟨element, helement, hc⟩ := List.mem_flatMap.1 hc
    rw [Array.mem_toList_iff] at helement
    obtain ⟨edge, hedge, hleft, hright⟩ := h.exists_edge hfield helement
    obtain ⟨hi, hj⟩ := h.ends element helement
    rw [elementContributions, hedge] at hc
    rw [← hleft] at hi
    rw [← hright] at hj
    have hcoupled : p.Coupled edge.left edge.right :=
      .inr ⟨element, helement, .inl ⟨hleft.symm, hright.symm⟩⟩
    exact Problem.addressed_edge hbase hcoupled (hsize _ hi) (hsize _ hj) c hc
  · obtain ⟨cs, hcs, hc⟩ := List.mem_flatten.1 hc
    rw [Array.mem_toList_iff, Array.mem_mapIdx] at hcs
    obtain ⟨node, hnode, rfl⟩ := hcs
    have hlt : node < p.nodeCount := hfield ▸ hnode
    obtain ⟨n, hn, -⟩ := p.exists_node hlt
    rw [nodeContributions, hn] at hc
    refine Problem.addressed_charge hbase (fun v hv => ?_) (hsize _ hlt) _ c hc
    obtain ⟨element, -, -, rfl⟩ := h.mem_volumes hn hv
    refine ⟨element.share, rfl, ?_⟩
    simp only [List.forall_mem_cons, List.not_mem_nil, false_implies, implies_true, and_true]
    exact Problem.addressed_coefficient hbase (p.coupled_self _) (hsize _ hlt) (hsize _ hlt) _

/-- What can happen to a state: its voltage can always be set and its equations assembled, and a
solve fails at a pivot if at all. No number that is used names something that is not there. -/
structure Sturdy (p : Problem M α) (s : PoissonState α) : Prop where
  shaped : Shaped p s
  addressed : ∀ base, p.matrix (Array.replicate p.nodeCount 1) = .ok base →
    ∀ c ∈ contributions p s.field, c.Addressed base
  setVoltage : ∀ voltage, ∃ t, setVoltage p voltage s = .ok () t
  setup : ∃ t, setup p s = .ok () t
  solve : ∀ e t, solve s = .error e t → ∃ row magnitude, e = .matrix (.singularPivot row magnitude)

omit [MaterialModel M α] [BEq M] in
theorem exists_checkResidual (h : p.Closed) (hbase : p.matrix (Array.replicate p.nodeCount 1) =
    .ok base) {a : Assembly 1 α} (ha : a.Over base) : ∃ report, checkResidual p a = .ok report := by
  refine Loop.exists_foldlM _ fun node hnode report => ?_
  have hrange := List.mem_range'_1.1 hnode
  have hlast := h.lastNode_lt
  have hsize : 0 < base.layout.sizes.getD node 0 := by
    rw [p.sizes_matrix hbase]
    simp [show node < p.nodeCount by omega]
  have hplace := (p.mem_columnsOf_matrix hbase hsize hsize).2 (p.coupled_self node)
  exact ha.check_ok report hsize hplace

/-- A setup of a state of the right shape assembles its contributions. -/
theorem exists_setup (h : p.Closed) (hs : Shaped p s) :
    ∃ base a t, p.matrix (Array.replicate p.nodeCount 1) = .ok base ∧ a.Over base ∧
      Assembly.rebuild (contributions p s.field) p.settings.dirichletDiagonal p.lastNode
        s.assembly = .ok () a ∧ setup p s = .ok () t ∧ t.assembly = a := by
  obtain ⟨base, hbase, hover, -⟩ := hs.equipped
  have hlast : p.lastNode < base.layout.nodeCount := by
    rw [p.nodeCount_matrix hbase]
    exact h.lastNode_lt
  obtain ⟨a, ha, hover'⟩ := hover.rebuild_ok (addressed_contributions h hs.nodes hbase)
    p.settings.dirichletDiagonal hlast
  obtain ⟨report, hreport⟩ := exists_checkResidual h hbase hover'
  have hsetup : ∃ t, setup p s = .ok () t ∧ t.assembly = a := by
    rw [setup_eq, ha]
    dsimp only
    rw [hreport]
    exact ⟨_, rfl, rfl⟩
  obtain ⟨t, ht, hassembly⟩ := hsetup
  exact ⟨base, a, t, hbase, hover', ha, ht, hassembly⟩

theorem sturdy (h : p.Sound) (hs : Shaped p s) : Sturdy p s := by
  constructor
  case shaped => exact hs
  case addressed => exact fun base hbase => addressed_contributions h.toClosed hs.nodes hbase
  case setVoltage =>
    intro voltage
    obtain ⟨f, hf⟩ := h.placeContacts_ok hs.nodes voltage
    exact ⟨_, zoom_eq_ok.2 ⟨f, hf, rfl⟩⟩
  case setup =>
    obtain ⟨_, _, t, _, _, _, ht, _⟩ := exists_setup h.toClosed hs
    exact ⟨t, ht⟩
  case solve =>
    intro e t he
    rw [Poisson.solve, widenError, zoom] at he
    split at he
    · cases he
    · next e' r hsolve =>
      cases he
      split at hsolve
      · cases hsolve
      · next e'' r' hsolve' =>
        cases hsolve
        obtain ⟨row, magnitude, rfl⟩ := singularPivot_of_solveIn hsolve'
        exact ⟨row, magnitude, rfl⟩

end Poisson

/-! ### The two-carrier iteration -/

namespace TwoCarrier

variable {M α : Type}

section Blocks

variable [MaterialKind M] {p : Problem M α} {sizes : Array Nat} {node : Nat}

theorem getD_blockSizes_of_governs (h : blockSizes p = .ok sizes) (hnode : node < p.nodeCount)
    (hgoverns : p.Governs node) : sizes[node]? = some semiconductorBlock := by
  obtain ⟨m, hgoverning, hm⟩ := getElem?_blockSizes h hnode
  obtain ⟨m', hgoverning', hsemiconductor⟩ := hgoverns
  cases hgoverning.symm.trans hgoverning'
  rw [hm, if_pos hsemiconductor]

theorem sub_lt_of_governs (h : blockSizes p = .ok sizes) (hnode : node < p.nodeCount)
    (hgoverns : p.Governs node) (u : Unknown) : u.sub < sizes.getD node 0 := by
  rw [Array.getD_eq_getD_getElem?, getD_blockSizes_of_governs h hnode hgoverns, Option.getD_some]
  cases u <;> decide

end Blocks

variable [Scalar α] [MaterialModel M α] [BEq M] {p : Problem M α} {s : TwoCarrierState α}
  {base : BlockMatrix α}

omit [BEq M] in
theorem exists_start (h : p.Sound) {field : NodeField α} (hfield : field.nodeCount = p.nodeCount) :
    ∃ s, start p field = .ok s := by
  obtain ⟨sizes, hsizes⟩ : ∃ sizes, blockSizes p = .ok sizes := by
    simp only [blockSizes, except_map_eq_ok]
    refine (Loop.exists_mapM fun node hnode => ?_).imp' List.toArray fun list hlist =>
      ⟨list, hlist, rfl⟩
    obtain ⟨m, hm⟩ := h.governing node (List.mem_range.1 hnode)
    rw [hm]
    exact ⟨_, rfl⟩
  have hsize := size_blockSizes hsizes
  obtain ⟨base, hbase⟩ := h.exists_matrix (α := α) hsize (pos_of_mem_blockSizes hsizes)
  exact ⟨_, except_bind_eq_ok.2 ⟨(), h.validate hfield, except_bind_eq_ok.2 ⟨sizes, hsizes,
    except_bind_eq_ok.2 ⟨base, hbase, rfl⟩⟩⟩⟩

theorem addressed_contributions (h : p.Sound) {field : NodeField α} {sizes : Array Nat}
    (hfield : field.nodeCount = p.nodeCount) (hsizes : blockSizes p = .ok sizes)
    (hbase : p.matrix sizes = .ok base) : ∀ c ∈ contributions p field, c.Addressed base := by
  intro c hc
  rw [contributions] at hc
  rcases List.mem_append.1 hc with hc | hc
  · obtain ⟨element, helement, hc⟩ := List.mem_flatMap.1 hc
    rw [Array.mem_toList_iff] at helement
    obtain ⟨edge, hedge, hleft, hright⟩ := h.exists_edge hfield helement
    obtain ⟨m, hm⟩ := h.material element helement
    obtain ⟨hi, hj⟩ := h.ends element helement
    have hi' : element.left < field.nodes.size := lt_of_lt_of_eq hi hfield.symm
    have hj' : element.right < field.nodes.size := lt_of_lt_of_eq hj hfield.symm
    rw [elementContributions, hedge, hm, Array.getElem?_eq_getElem hi',
      Array.getElem?_eq_getElem hj'] at hc
    dsimp only at hc
    have hcoupled : p.Coupled edge.left edge.right :=
      .inr ⟨element, helement, .inl ⟨hleft.symm, hright.symm⟩⟩
    rcases List.mem_append.1 hc with hc | hc
    · rw [← hleft] at hi
      rw [← hright] at hj
      exact Problem.addressed_edge hbase hcoupled (getD_blockSizes_pos hsizes hi)
        (getD_blockSizes_pos hsizes hj) c hc
    · split_ifs at hc with hsemiconductor
      · have hcarriers : p.HoldsCarriers element := ⟨m, hm, hsemiconductor⟩
        obtain ⟨e, helement'⟩ := Array.mem_iff_getElem?.1 helement
        have hgi := h.governs _ hi element ⟨e, helement', .inl (.inl rfl)⟩ hcarriers
        have hgj := h.governs _ hj element ⟨e, helement', .inl (.inr rfl)⟩ hcarriers
        have hsi := sub_lt_of_governs hsizes hi hgi
        have hsj := sub_lt_of_governs hsizes hj hgj
        rw [← hleft] at hi hsi
        rw [← hright] at hj hsj
        rw [fluxContributions] at hc
        rcases List.mem_append.1 hc with hc | hc
        · rcases List.mem_append.1 hc with hc | hc
          · rcases List.mem_append.1 hc with hc | hc
            · exact Problem.addressed_balance hbase hcoupled (hsi _) (hsj _) _ _ _ _ c hc
            · exact Problem.addressed_balance hbase hcoupled (hsi _) (hsj _) _ _ _ _ c hc
          · exact Problem.addressed_magnitude hbase (hsi _) (hsj _) _ _ _ _ c hc
        · exact Problem.addressed_magnitude hbase (hsi _) (hsj _) _ _ _ _ c hc
      · simp at hc
  · obtain ⟨cs, hcs, hc⟩ := List.mem_flatten.1 hc
    rw [Array.mem_toList_iff, Array.mem_mapIdx] at hcs
    obtain ⟨node, hnode, rfl⟩ := hcs
    have hlt : node < p.nodeCount := hfield ▸ hnode
    obtain ⟨n, hn, -⟩ := p.exists_node hlt
    rw [nodeContributions, hn] at hc
    refine Problem.addressed_charge hbase (fun v hv => ?_) (getD_blockSizes_pos hsizes hlt) _ c hc
    obtain ⟨element, hborders, hcarriers, rfl⟩ := h.mem_volumes hn hv
    have hsub := sub_lt_of_governs hsizes hlt (h.governs node hlt element hborders hcarriers)
    refine ⟨element.share, rfl, ?_⟩
    simp only [List.forall_mem_cons, List.not_mem_nil, false_implies, implies_true, and_true]
    constructor
    · exact Problem.addressed_coefficient hbase (p.coupled_self _) (hsub .potential) (hsub _) _
    · exact Problem.addressed_coefficient hbase (p.coupled_self _) (hsub .potential) (hsub _) _

/-- What can happen to a state: its voltage can always be set and its equations assembled, a solve
that nothing looks at fails at a pivot and an update for want of a damping factor if at all. No
number that is used names something that is not there, and the carriers of every semiconductor
element have unknowns at its nodes. -/
structure Sturdy (p : Problem M α) (s : TwoCarrierState α) : Prop where
  shaped : Shaped p s
  addressed : ∀ base, p.matrix s.blockSizes = .ok base →
    ∀ c ∈ contributions p s.field, c.Addressed base
  setVoltage : ∀ voltage, ∃ t, setVoltage p voltage s = .ok () t
  setup : ∃ t, setup p s = .ok () t
  solve : ∀ (ω : Type) (w : ω) e t, solve .silent (s, w) = .error e t →
    ∃ row magnitude, e = .matrix (.singularPivot row magnitude)
  update : ∀ e, update p.settings s = .error e → ∃ halvings, e = .dampingExhausted halvings
  blocks : ∀ node < p.nodeCount, ∀ element, p.Borders node element → p.HoldsCarriers element →
    s.blockSizes[node]? = some semiconductorBlock

omit [MaterialModel M α] [BEq M] in
theorem exists_checkResidual {sizes : Array Nat} (hbase : p.matrix sizes = .ok base)
    {a : Assembly semiconductorBlock α} (ha : a.Over base) :
    ∃ report, checkResidual sizes a = .ok report := by
  refine Loop.exists_foldlM _ fun (node, u) hu reports => ?_
  have hsize := mem_unknowns.1 hu
  rw [← p.sizes_matrix hbase] at hsize
  have hplace := (p.mem_columnsOf_matrix hbase hsize hsize).2 (p.coupled_self node)
  obtain ⟨report, hreport⟩ := ha.check_ok (reports.get u) hsize hplace
  exact ⟨_, except_bind_eq_ok.2 ⟨report, hreport, rfl⟩⟩

omit [BEq M] in
/-- An update of a state of the right shape fails for want of a damping factor if at all. -/
theorem dampingExhausted_of_update {settings : Settings α} (hs : Shaped p s) {e : NewtonError α}
    (he : update settings s = .error e) : ∃ halvings, e = .dampingExhausted halvings := by
  have hreplace : replace (update settings) s = .error e s := by
    rw [replace, he]
  rw [← hs.fitting.updateInPlace_eq] at hreplace
  obtain ⟨-, hfactor⟩ := hs.fitting.of_updateInPlace_error hreplace
  exact hs.fitting.dampingExhausted_of_findDamping hfactor

theorem singularPivot_of_solve {ω : Type} {w : ω} {e : NewtonError α} {t : TwoCarrierState α × ω}
    (he : solve .silent (s, w) = .error e t) :
    ∃ row magnitude, e = .matrix (.singularPivot row magnitude) := by
  let Pivot : MatrixError α → (BlockMatrix α × Workspace α) × ω → Prop :=
    fun e _ => ∃ row magnitude, e = .singularPivot row magnitude
  have hlook : ∀ x, Ends (fun _ _ => True) Pivot
      (SolveObserver.lookIn (fun _ => pure ()) x) := fun _ => .ok trivial
  have hsolve : ∀ x, Ends (fun _ _ => True) Pivot (onFirst solveIn x) := by
    rintro ⟨x, w⟩
    refine .onFirst ?_
    cases hr : solveIn x with
    | ok u t => exact .ok trivial
    | error e t => exact .error (singularPivot_of_solveIn hr)
  have hends : Ends (fun _ _ => True) Pivot
      (solveObservedIn .silent ((s.assembly.matrix, s.workspace), w)) :=
    (hlook _).bind fun _ x _ => (hsolve x).bind fun _ y _ => hlook y
  rw [solve, widenError, zoom] at he
  dsimp only at he
  generalize solveObservedIn .silent ((s.assembly.matrix, s.workspace), w) = r at he hends
  cases hends with
  | ok => cases he
  | error h =>
    obtain ⟨row, magnitude, rfl⟩ := h
    cases he
    exact ⟨row, magnitude, rfl⟩

/-- A setup of a state of the right shape assembles its contributions. -/
theorem exists_setup (h : p.Sound) (hs : Shaped p s) :
    ∃ base a t, p.matrix s.blockSizes = .ok base ∧ a.Over base ∧
      Assembly.rebuild (contributions p s.field) p.settings.dirichletDiagonal p.lastNode
        s.assembly = .ok () a ∧ setup p s = .ok () t ∧ t.assembly = a := by
  obtain ⟨base, hbase, hover, -⟩ := hs.equipped
  have hlast : p.lastNode < base.layout.nodeCount := by
    rw [p.nodeCount_matrix hbase]
    exact h.lastNode_lt
  obtain ⟨a, ha, hover'⟩ := hover.rebuild_ok
    (addressed_contributions h hs.nodes hs.sizes hbase) p.settings.dirichletDiagonal hlast
  obtain ⟨reports, hreports⟩ := exists_checkResidual hbase hover'
  have hsetup : ∃ t, setup p s = .ok () t ∧ t.assembly = a := by
    rw [setup_eq, ha]
    dsimp only
    rw [hreports]
    exact ⟨_, rfl, rfl⟩
  obtain ⟨t, ht, hassembly⟩ := hsetup
  exact ⟨base, a, t, hbase, hover', ha, ht, hassembly⟩

theorem sturdy (h : p.Sound) (hs : Shaped p s) : Sturdy p s := by
  constructor
  case shaped => exact hs
  case addressed => exact fun base hbase => addressed_contributions h hs.nodes hs.sizes hbase
  case setVoltage =>
    intro voltage
    obtain ⟨f, hf⟩ := h.placeContacts_ok hs.nodes voltage
    exact ⟨_, zoom_eq_ok.2 ⟨f, hf, rfl⟩⟩
  case setup =>
    obtain ⟨_, _, t, _, _, _, ht, _⟩ := exists_setup h hs
    exact ⟨t, ht⟩
  case solve => exact fun ω w e t he => singularPivot_of_solve he
  case update => exact fun e he => dampingExhausted_of_update hs he
  case blocks =>
    intro node hnode element hborders hcarriers
    have hgoverns := h.governs node hnode element hborders hcarriers
    exact getD_blockSizes_of_governs hs.sizes hnode hgoverns

end TwoCarrier

end CarrierTransport.Newton
