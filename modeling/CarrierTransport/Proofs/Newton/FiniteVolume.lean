import Mathlib
import CarrierTransport.Proofs.Newton.Conservation
import CarrierTransport.Proofs.Newton.Equilibrium
import CarrierTransport.Proofs.Newton.PoissonEquation

/-!
# The finite-volume equations

What Poisson's equation is on a line: the flux of the displacement through the two sides of a node
balances the charge in its control volumes. Here the equations are written down node by node, from
the conductances of the elements, the potentials as the elements see them and the control volumes
of the nodes; and it is proved that this is what a setup assembles from the contributions of
elements and nodes (`Poisson.setup_discretises`), the magnitudes that residuals are compared with
included.

A setup that succeeds has found everything it was referred to, so nothing is assumed of the table
of regions or of the field.
-/

namespace CarrierTransport.Newton

open LinearSystem (BlockMatrix)
open Mesh (IsLine Element)
open Physics (MaterialKind MaterialModel elementaryCharge thermalVoltage)
open State (NodeField NodeState)
open Transition

/-! ### The quantities on a line -/

namespace Problem

variable {M α : Type} [ExactScalar α] [MaterialModel M α]

def elementMaterial? (p : Problem M α) (e : Nat) : Option M :=
  (p.mesh.elements[e]?).bind fun element => p.table.material? element.region

/-- The potential of a node as an element sees it: raised by what the work function of the
element's material is above that of the material governing the node, where these differ. -/
def seenPotential [BEq M] (p : Problem M α) (field : NodeField α) (e node : Nat) : α :=
  match p.elementMaterial? e, p.governing? node, field.nodes[node]? with
  | some material, some governing, some s =>
    if governing == material then s.potential
    else s.potential + (MaterialModel.workFunction material p.table.temperature -
      MaterialModel.workFunction governing p.table.temperature)
  | _, _, _ => 0

/-- The part of an element's volume that belongs to either of its nodes, in a semiconductor. -/
def carrierVolume (p : Problem M α) (e : Nat) : α :=
  match p.mesh.elements[e]?, p.elementMaterial? e with
  | some element, some material =>
    if MaterialKind.isSemiconductor material then
      element.area * element.length / (1 + 1) else 0
  | _, _ => 0

omit [ExactScalar α] in
/-- The elements at the sides of a node. -/
def sides (p : Problem M α) (node : Nat) : Finset Nat :=
  (Finset.range p.mesh.elements.size).filter fun e => e = node ∨ e + 1 = node

/-- The volume around a node in which there are carriers. -/
def nodeVolume (p : Problem M α) (node : Nat) : α :=
  ∑ e ∈ p.sides node, p.carrierVolume e

end Problem

/-! ### Closed lines -/

namespace Problem

section Lines

variable {M α : Type} [ExactScalar α] [MaterialModel M α] {p : Problem M α}
  {field : NodeField α} {regions : List Nat} {priority : Nat → Int}
  (hline : IsLine p.mesh regions priority) (hclosed : p.Closed)

omit [ExactScalar α] [MaterialModel M α] in
theorem lastNode_of_isLine (hline : IsLine p.mesh regions priority) :
    p.lastNode = regions.length := by
  rw [lastNode, nodeCount, hline.nodes_size, Nat.add_sub_cancel]

omit [ExactScalar α] [MaterialModel M α] in
/-- There is an element at a side of every node, and a node on its other side. -/
theorem exists_side (hline : IsLine p.mesh regions priority) (hclosed : p.Closed) {node : Nat}
    (hnode : node < p.nodeCount) :
    ∃ e ∈ p.sides node, ∃ other, (other = e ∨ other = e + 1) ∧ other ≠ node := by
  have hcount : p.nodeCount = regions.length + 1 := hline.nodes_size
  have htwo := hclosed.two_le
  rcases Nat.lt_or_ge node regions.length with hlt | hge
  · refine ⟨node, ?_, node + 1, .inr rfl, by omega⟩
    rw [sides, Finset.mem_filter, Finset.mem_range, hline.elements_size]
    exact ⟨hlt, .inl rfl⟩
  · refine ⟨node - 1, ?_, node - 1, .inl rfl, by omega⟩
    rw [sides, Finset.mem_filter, Finset.mem_range, hline.elements_size]
    exact ⟨by omega, .inr (by omega)⟩

/-- The volumes that are counted are those of the elements at the sides. -/
theorem sum_semiconductorVolumes {es : List Nat}
    (hes : ∀ e ∈ es, ∃ element, p.mesh.elements[e]? = some element ∧
      ∃ m, p.table.material? element.region = some m) :
    ((semiconductorVolumes p.mesh p.table es).map fun v => v.getD 0).sum =
      (es.map p.carrierVolume).sum := by
  induction es with
  | nil => rfl
  | cons e es ih =>
    obtain ⟨⟨element, helement, m, hm⟩, hes⟩ := List.forall_mem_cons.1 hes
    have hmaterial : p.elementMaterial? e = some m := by
      rw [elementMaterial?, helement, Option.bind_some, hm]
    rw [semiconductorVolumes, List.map_cons, List.sum_cons, ← ih hes, carrierVolume]
    simp only [helement, hmaterial, hm]
    split_ifs
    · rw [List.map_cons, List.sum_cons, Option.getD_some, Element.share]
    · rw [zero_add]

include hline hclosed

theorem semiconductorVolume_eq {node : Nat} (hnode : node < p.nodeCount) :
    p.semiconductorVolume node = p.nodeVolume node := by
  obtain ⟨n, hn, hmem⟩ := p.exists_node hnode
  obtain ⟨hle, helements, -⟩ := hline.of_node hn
  have hes : ∀ e ∈ n.elements, ∃ element, p.mesh.elements[e]? = some element ∧
      ∃ m, p.table.material? element.region = some m := by
    intro e he
    have hlt := hclosed.listed n hmem e he
    exact ⟨_, Array.getElem?_eq_getElem hlt, hclosed.material _ (Array.getElem_mem hlt)⟩
  have hnodup : n.elements.Nodup := by
    rw [helements, Mesh.neighbours]
    split_ifs <;> simp
    omega
  have hsides : n.elements.toFinset = p.sides node := by
    ext e
    rw [List.mem_toFinset, helements, Mesh.mem_neighbours hle, sides, Finset.mem_filter,
      Finset.mem_range, hline.elements_size]
  rw [semiconductorVolume, hn, Option.map_some, Option.getD_some, sum_semiconductorVolumes hes,
    nodeVolume, ← hsides, List.sum_toFinset _ hnodup]

variable [BEq M] (hfield : field.nodeCount = p.nodeCount)

/-- The electrostatic coupling along an element of a line. -/
def edge (p : Problem M α) (field : NodeField α) (e : Nat) : Edge α where
  left := e
  right := e + 1
  conductance := p.conductance e
  leftPotential := p.seenPotential field e e
  rightPotential := p.seenPotential field e (e + 1)

omit hline hclosed in
theorem referredPotential_eq {e node : Nat} {material : M} {v : α}
    (hmaterial : p.elementMaterial? e = some material)
    (hv : referredPotential? p.mesh p.table field material node = some v) :
    v = p.seenPotential field e node := by
  obtain ⟨n, hn, hv⟩ := Option.bind_eq_some_iff.1 hv
  obtain ⟨governing, hgoverning, hv⟩ := Option.bind_eq_some_iff.1 hv
  obtain ⟨s, hs, hv⟩ := Option.bind_eq_some_iff.1 hv
  have hgoverning' : p.governing? node = some governing := by
    rw [governing?, hn]
    exact hgoverning
  cases hv
  rw [seenPotential, hmaterial, hgoverning', hs]
  dsimp only
  split_ifs
  · rfl
  · rw [add_sub_assoc]

include hfield

theorem edge_of_isLine {e : Nat} {element : Element α}
    (helement : p.mesh.elements[e]? = some element) :
    edge? p.mesh p.table field element = some (p.edge field e) := by
  obtain ⟨-, hleft, hright, -⟩ := hline.of_getElem? helement
  obtain ⟨found, hfound, -⟩ := hclosed.exists_edge hfield (Array.mem_of_getElem? helement)
  have hconductance := Poisson.conductance_of_edge? helement hfound
  rw [hfound]
  obtain ⟨m, hm, hfound⟩ := Option.bind_eq_some_iff.1 hfound
  obtain ⟨u, hu, hfound⟩ := Option.bind_eq_some_iff.1 hfound
  obtain ⟨v, hv, hfound⟩ := Option.bind_eq_some_iff.1 hfound
  cases hfound
  have hmaterial : p.elementMaterial? e = some m := by
    rw [elementMaterial?, helement, Option.bind_some, hm]
  have hu' := p.referredPotential_eq hmaterial hu
  have hv' := p.referredPotential_eq hmaterial hv
  rw [hleft] at hu'
  rw [hright] at hv'
  dsimp only at hconductance
  rw [edge, hconductance, hu', hv', hleft, hright]

end Lines

end Problem

/-! ### Raised magnitudes -/

section Magnitudes

variable {α : Type}

/-- What a contribution raises a magnitude to. -/
def Contribution.raisedTo? (target : Target) (c : Contribution α) : Option α :=
  match target, c with
  | .scale node sub, .scale i k magnitude => if i = node ∧ k = sub then some magnitude else none
  | .coupling node sub, .coupling i k magnitude =>
    if i = node ∧ k = sub then some magnitude else none
  | _, _ => none

def Target.IsMagnitude : Target → Prop
  | .scale _ _ => True
  | .coupling _ _ => True
  | _ => False

variable [ExactScalar α] (target : Target)

theorem Contribution.act_eq_max (htarget : target.IsMagnitude) (c : Contribution α) (v : α) :
    c.act target v = (c.raisedTo? target).elim v (max v) := by
  cases target with
  | rhs node sub => cases htarget
  | coefficient node node' sub sub' => cases htarget
  | scale node sub =>
    cases c with
    | scale i k magnitude =>
      rw [act, raisedTo?]
      split_ifs
      · exact ExactScalar.larger_eq_max v magnitude
      · rfl
    | _ => rfl
  | coupling node sub =>
    cases c with
    | coupling i k magnitude =>
      rw [act, raisedTo?]
      split_ifs
      · exact ExactScalar.larger_eq_max v magnitude
      · rfl
    | _ => rfl

/-- Contributions raise a magnitude to the largest of what it was and what they raise it to. -/
theorem isGreatest_effect (htarget : target.IsMagnitude) (cs : List (Contribution α)) (v : α) :
    IsGreatest (insert v {x | ∃ c ∈ cs, c.raisedTo? target = some x}) (effect target cs v) := by
  induction cs generalizing v with
  | nil =>
    rw [effect_nil]
    constructor
    · exact Set.mem_insert _ _
    · rintro x (rfl | ⟨c, hc, -⟩)
      · exact le_rfl
      · cases hc
  | cons c cs ih =>
    rw [effect_cons, c.act_eq_max target htarget]
    obtain ⟨hmem, hle⟩ := ih ((c.raisedTo? target).elim v (max v))
    cases hc : c.raisedTo? target with
    | none =>
      rw [hc, Option.elim_none] at hmem hle
      rw [Option.elim_none]
      constructor
      · rcases hmem with heq | ⟨d, hd, hx⟩
        · exact .inl heq
        · exact .inr ⟨d, List.mem_cons_of_mem c hd, hx⟩
      · rintro x (rfl | ⟨d, hd, hx⟩)
        · exact hle (.inl rfl)
        · rcases List.mem_cons.1 hd with rfl | hd
          · cases hc.symm.trans hx
          · exact hle (.inr ⟨d, hd, hx⟩)
    | some magnitude =>
      rw [hc, Option.elim_some] at hmem hle
      rw [Option.elim_some]
      have hfirst := hle (.inl rfl)
      constructor
      · rcases hmem with heq | ⟨d, hd, hx⟩
        · rw [heq]
          rcases max_choice v magnitude with hmax | hmax
          · exact .inl hmax
          · exact .inr ⟨c, List.mem_cons_self, hc.trans (congrArg some hmax.symm)⟩
        · exact .inr ⟨d, List.mem_cons_of_mem c hd, hx⟩
      · rintro x (rfl | ⟨d, hd, hx⟩)
        · exact (le_max_left _ _).trans hfirst
        · rcases List.mem_cons.1 hd with rfl | hd
          · cases hc.symm.trans hx
            exact (le_max_right _ _).trans hfirst
          · exact hle (.inr ⟨d, hd, hx⟩)

/-- A bound that one of the others reaches is not needed. -/
theorem isGreatest_of_insert {S : Set α} {v m y : α} (h : IsGreatest (insert v S) m) (hy : y ∈ S)
    (hle : v ≤ y) : IsGreatest S m := by
  obtain ⟨hmem, hupper⟩ := h
  refine ⟨?_, fun x hx => hupper (.inr hx)⟩
  rcases hmem with rfl | hmem
  · rwa [le_antisymm hle (hupper (.inr hy))]
  · exact hmem

end Magnitudes

/-! ### The equations -/

theorem Assembly.unknownIndex_notMem_of_assemble {α : Type} [Scalar α] {stride : Nat}
    {a a' : Assembly stride α} {cs : List (Contribution α)}
    (h : Assembly.assemble cs a = .ok () a') : .unknownIndex ∉ cs := by
  induction cs generalizing a with
  | nil => exact List.not_mem_nil
  | cons c cs ih =>
    rw [Assembly.assemble_cons] at h
    cases hcontribute : a.contribute c with
    | error e =>
      rw [hcontribute] at h
      cases h
    | ok b =>
      rw [hcontribute] at h
      intro hmem
      rcases List.mem_cons.1 hmem with rfl | hmem
      · cases hcontribute
      · exact ih h hmem

namespace Poisson

variable {M α : Type} [ExactScalar α] [MaterialModel M α] {p : Problem M α}

/-- The coupling terms of a node: those of the nodes next to it. -/
def couplingTerms [BEq M] (p : Problem M α) (field : NodeField α) (node : Nat) : Set α :=
  {x | ∃ e ∈ p.sides node, ∃ other, (other = e ∨ other = e + 1) ∧ other ≠ node ∧
    x = |p.conductance e * p.seenPotential field e other|}

/-- The terms that set the scale of a node: those of both ends of its elements and its charges, the
densities taken one by one. -/
def scaleTerms [BEq M] (p : Problem M α) (field : NodeField α) (node : Nat) (s : NodeState α) :
    Set α :=
  insert (elementaryCharge *
      max (max |s.donorDensity| |s.acceptorDensity|) (max |s.holeDensity| |s.electronDensity|) *
      p.nodeVolume node)
    {x | ∃ e ∈ p.sides node, ∃ k, (k = e ∨ k = e + 1) ∧
      x = |p.conductance e * p.seenPotential field e k|}

/-- The equation of an inner node. -/
structure InnerRow [BEq M] (p : Problem M α) (field : NodeField α) (m : BlockMatrix α)
    (node : Nat) (s : NodeState α) : Prop where
  diagonal : m.blockEntry node node 0 0 = .ok (p.conductance (node - 1) + p.conductance node +
    elementaryCharge / thermalVoltage p.table.temperature *
      (s.electronDensity + s.holeDensity) * p.nodeVolume node)
  left : m.blockEntry node (node - 1) 0 0 = .ok (-p.conductance (node - 1))
  right : m.blockEntry node (node + 1) 0 0 = .ok (-p.conductance node)
  elsewhere : ∀ other, other + 1 < node ∨ node + 1 < other →
    ∃ e, m.blockEntry node other 0 0 = .error e
  rhs : m.blockRhs node 0 = .ok (
    p.conductance node *
      (p.seenPotential field node (node + 1) - p.seenPotential field node node) -
    p.conductance (node - 1) *
      (p.seenPotential field (node - 1) node - p.seenPotential field (node - 1) (node - 1)) +
    elementaryCharge *
      (s.donorDensity - s.acceptorDensity + s.holeDensity - s.electronDensity) *
      p.nodeVolume node)

/-- What is assembled are the finite-volume equations of a field. -/
structure Discretises [BEq M] (p : Problem M α) (field : NodeField α) (a : Assembly 1 α) :
    Prop where
  row : ∀ node s, 0 < node → node < p.lastNode → field.nodes[node]? = some s →
    InnerRow p field a.matrix node s
  coupling : ∀ node < p.nodeCount, IsGreatest (couplingTerms p field node) (a.coupling node 0)
  scale : ∀ node s, field.nodes[node]? = some s →
    IsGreatest (scaleTerms p field node s) (a.scale node 0)

section Line

variable [BEq M] {field : NodeField α} {regions : List Nat} {priority : Nat → Int}
  (hline : IsLine p.mesh regions priority)

include hline

/-- Nothing is missing in a line whose contributions have been assembled. -/
theorem closed_of_assemble {a a' : Assembly 1 α} (htwo : 2 ≤ p.nodeCount)
    (h : Assembly.assemble (contributions p field) a = .ok () a') : p.Closed := by
  have hknown := Assembly.unknownIndex_notMem_of_assemble h
  have hcount : p.nodeCount = regions.length + 1 := hline.nodes_size
  have hregions : regions ≠ [] := by
    rintro rfl
    rw [List.length_nil] at hcount
    omega
  apply Problem.closed_of_isLine hline hregions
  intro r hr
  obtain ⟨e, he, rfl⟩ := List.mem_iff_getElem.1 hr
  obtain ⟨element, helement, -, -, hregion⟩ := hline.element e he
  rw [List.getElem?_eq_getElem he, Option.some.injEq] at hregion
  rw [hregion]
  cases hedge : edge? p.mesh p.table field element with
  | some edge =>
    obtain ⟨-, -, m, hm, -⟩ := Problem.of_edge? hedge
    exact ⟨m, hm⟩
  | none =>
    have hmem : .unknownIndex ∈ elementContributions p field element := by
      rw [elementContributions, hedge]
      exact List.mem_singleton_self _
    apply absurd _ hknown
    apply List.mem_append_left
    exact List.mem_flatMap.2 ⟨element, Array.mem_toList_iff.2 (Array.mem_of_getElem? helement), hmem⟩

variable (hclosed : p.Closed) (hfield : field.nodeCount = p.nodeCount)

include hclosed hfield

theorem mem_contributions {c : Contribution α} :
    c ∈ contributions p field ↔
      (∃ e < p.mesh.elements.size, c ∈ (p.edge field e).contributions) ∨
      ∃ i s, field.nodes[i]? = some s ∧ c ∈ nodeContributions p i s := by
  rw [contributions, List.mem_append]
  apply or_congr
  · rw [List.mem_flatMap]
    constructor
    · rintro ⟨element, helement, hc⟩
      obtain ⟨e, he⟩ := Array.mem_iff_getElem?.1 (Array.mem_toList_iff.1 helement)
      rw [elementContributions, p.edge_of_isLine hline hclosed hfield he] at hc
      exact ⟨e, (Array.getElem?_eq_some_iff.1 he).1, hc⟩
    · rintro ⟨e, he, hc⟩
      refine ⟨p.mesh.elements[e], Array.mem_toList_iff.2 (Array.getElem_mem he), ?_⟩
      rw [elementContributions, p.edge_of_isLine hline hclosed hfield
        (Array.getElem?_eq_getElem he)]
      exact hc
  · rw [Loop.flatten_mapIdx, List.mem_flatMap]
    constructor
    · rintro ⟨i, -, hc⟩
      cases hi : field.nodes[i]? with
      | none =>
        rw [hi] at hc
        cases hc
      | some s =>
        rw [hi] at hc
        exact ⟨i, s, hi, hc⟩
    · rintro ⟨i, s, hi, hc⟩
      refine ⟨i, List.mem_range.2 (Array.getElem?_eq_some_iff.1 hi).1, ?_⟩
      rw [hi]
      exact hc

omit hline hclosed hfield [BEq M] in
theorem exists_raised_edge_coupling (edge : Edge α) (node : Nat) (x : α) :
    (∃ c ∈ edge.contributions, c.raisedTo? (.coupling node 0) = some x) ↔
      edge.left = node ∧ |edge.conductance * edge.rightPotential| = x ∨
        edge.right = node ∧ |edge.conductance * edge.leftPotential| = x := by
  simp [Edge.contributions, Contribution.raisedTo?]

omit hline hclosed hfield [BEq M] in
theorem exists_raised_edge_scale (edge : Edge α) (node : Nat) (x : α) :
    (∃ c ∈ edge.contributions, c.raisedTo? (.scale node 0) = some x) ↔
      (edge.left = node ∨ edge.right = node) ∧ max |edge.conductance * edge.leftPotential|
        |edge.conductance * edge.rightPotential| = x := by
  simp [Edge.contributions, Contribution.raisedTo?, ExactScalar.larger_eq_max]
  tauto

omit hline hclosed hfield [BEq M] in
theorem foldl_volumes (volumes : List (Option α)) (v : α) :
    volumes.foldl (fun acc v => acc + v.getD 0) v = v + (volumes.map fun v => v.getD 0).sum := by
  induction volumes generalizing v with
  | nil => simp
  | cons w volumes ih => rw [List.foldl_cons, ih, List.map_cons, List.sum_cons, add_assoc]

omit hline hclosed hfield [BEq M] in
/-- The charges of a node raise its scale and nothing else. -/
theorem exists_raised_node (p : Problem M α) (target : Target) (i : Nat) (s : NodeState α) (x : α) :
    (∃ c ∈ nodeContributions p i s, c.raisedTo? target = some x) ↔
      (Contribution.scale i 0 (max (max |s.donorDensity| |s.acceptorDensity|)
        (max |s.holeDensity| |s.electronDensity|) * elementaryCharge *
          p.semiconductorVolume i)).raisedTo? target = some x := by
  have hlargest : Scalar.largestMagnitude
      [s.donorDensity, s.acceptorDensity, s.holeDensity, s.electronDensity] =
        max (max |s.donorDensity| |s.acceptorDensity|)
          (max |s.holeDensity| |s.electronDensity|) := by
    simp [Scalar.largestMagnitude, ExactScalar.larger_eq_max, max_assoc]
  have hother : ∀ c : Contribution α, (∀ n k m, c ≠ .scale n k m) → (∀ n k m, c ≠ .coupling n k m) →
      c.raisedTo? target = none := by
    intro c hscale hcoupling
    unfold Contribution.raisedTo?
    split
    · exact absurd rfl (hscale _ _ _)
    · exact absurd rfl (hcoupling _ _ _)
    · rfl
  rw [nodeContributions, chargeContributions]
  simp only [foldl_volumes, zero_add, hlargest]
  constructor
  · rintro ⟨c, hc, hx⟩
    rcases List.mem_append.1 hc with hc | hc
    · obtain ⟨v, -, hc⟩ := List.mem_flatMap.1 hc
      rw [hother c] at hx
      · cases hx
      all_goals
        rintro n k m rfl
        cases v <;> simp at hc
    · rw [List.mem_singleton.1 hc] at hx
      exact hx
  · intro hx
    exact ⟨_, List.mem_append_right _ (List.mem_singleton_self _), hx⟩

/-- The right hand side of an inner node: the fluxes at its sides and its charge. -/
theorem sources_inner {i : Nat} (hi : i + 1 < regions.length) {s : NodeState α}
    (hs : field.nodes[i + 1]? = some s) :
    sources (i + 1) 0 (contributions p field) =
      p.conductance (i + 1) *
        (p.seenPotential field (i + 1) (i + 2) - p.seenPotential field (i + 1) (i + 1)) -
      p.conductance i * (p.seenPotential field i (i + 1) - p.seenPotential field i i) +
      elementaryCharge * netCharge s * p.nodeVolume (i + 1) := by
  have hnode : i + 1 < p.nodeCount := by
    rw [← hfield]
    exact (Array.getElem?_eq_some_iff.1 hs).1
  have helements : (p.mesh.elements.toList.map fun element =>
      sources (i + 1) 0 (elementContributions p field element)).sum =
        ∑ e ∈ Finset.range regions.length, (same e 0 (i + 1) 0 - same (e + 1) 0 (i + 1) 0) *
          p.conductance e * (p.seenPotential field e (e + 1) - p.seenPotential field e e) := by
    apply Loop.sum_map_toList hline.elements_size
    intro e element he
    rw [elementContributions, p.edge_of_isLine hline hclosed hfield he]
    exact (p.edge field e).sources_contributions
  rw [contributions, sources_append, sources_flatMap, sources_nodes, helements, hs,
    Option.elim_some, p.semiconductorVolume_eq hline hclosed hnode,
    Finset.sum_eq_add i (i + 1) (by omega)]
  · simp [same]
    ring
  · rintro e - ⟨he, he'⟩
    simp [same, he, he']
  · intro h
    exact absurd (Finset.mem_range.2 (by omega)) h
  · intro h
    exact absurd (Finset.mem_range.2 hi) h

variable {base : BlockMatrix α} {a : Assembly 1 α}
  (hbase : p.matrix (Array.replicate p.nodeCount 1) = .ok base)
  (h : p.Holds base (contributions p field) a)

include hbase h

/-- A coefficient of an inner node is what has been contributed to it, if the nodes are coupled. -/
theorem blockEntry_inner {i node' : Nat} (hi : i + 1 < regions.length)
    (hnode' : node' < p.nodeCount) (hcoupled : p.Coupled (i + 1) node') {s : NodeState α}
    (hs : field.nodes[i + 1]? = some s) :
    a.matrix.blockEntry (i + 1) node' 0 0 = .ok (
      p.conductance i * (same (i + 1) 0 node' 0 - same i 0 node' 0) +
      p.conductance (i + 1) * (same (i + 1) 0 node' 0 - same (i + 2) 0 node' 0) +
      same (i + 1) 0 node' 0 * (elementaryCharge / thermalVoltage p.table.temperature *
        (s.electronDensity + s.holeDensity) * p.nodeVolume (i + 1))) := by
  have hlast := p.lastNode_of_isLine hline
  have hnode : i + 1 < p.nodeCount := by
    rw [← hfield]
    exact (Array.getElem?_eq_some_iff.1 hs).1
  have hsub := p.size_pos_of_matrix hbase hnode
  have hsub' := p.size_pos_of_matrix hbase hnode'
  have hplace := (p.mem_columnsOf_matrix hbase hsub hsub').2 hcoupled
  rw [h.places.blockEntry_eq hsub hsub' hplace,
    h.value (.coefficient (i + 1) node' 0 0) ⟨hsub, hsub'⟩ ⟨by omega, by omega⟩,
    effect_coefficient, zero_add, coefficients_inner hline hclosed hfield hi, groundConductance,
    hs, Option.elim_some, chargeConductance, p.semiconductorVolume_eq hline hclosed hnode]

theorem innerRow_of_holds {node : Nat} {s : NodeState α} (hfirst : 0 < node)
    (hlast : node < p.lastNode) (hs : field.nodes[node]? = some s) :
    InnerRow p field a.matrix node s := by
  have hlength := p.lastNode_of_isLine hline
  have hcount : p.nodeCount = regions.length + 1 := hline.nodes_size
  obtain ⟨i, rfl⟩ := Nat.exists_eq_succ_of_ne_zero hfirst.ne'
  rw [hlength] at hlast
  have hentry : ∀ {node'}, node' < p.nodeCount → p.Coupled (i + 1) node' → _ :=
    fun {_} hnode' hcoupled => blockEntry_inner hline hclosed hfield hbase h hlast hnode' hcoupled hs
  constructor
  case diagonal =>
    rw [hentry (by omega) (p.coupled_self _)]
    simp [same]
  case left =>
    obtain ⟨element, helement, hleft, hright, -⟩ := hline.element i (by omega)
    have hcoupled : p.Coupled (i + 1) i :=
      .inr ⟨element, Array.mem_of_getElem? helement, .inr ⟨hleft, hright⟩⟩
    rw [Nat.succ_eq_add_one, Nat.add_sub_cancel, hentry (by omega) hcoupled]
    simp [same]
  case right =>
    obtain ⟨element, helement, hleft, hright, -⟩ := hline.element (i + 1) hlast
    have hcoupled : p.Coupled (i + 1) (i + 2) :=
      .inr ⟨element, Array.mem_of_getElem? helement, .inl ⟨hleft, hright⟩⟩
    rw [hentry (by omega) hcoupled]
    simp [same]
  case elsewhere =>
    intro other hother
    cases hread : a.matrix.blockEntry (i + 1) other 0 0 with
    | error e => exact ⟨e, rfl⟩
    | ok v =>
      obtain ⟨hsub, hsub', hplace⟩ := LinearSystem.BlockMatrix.place_of_blockEntry hread
      rw [h.places.matrix.layout] at hsub hsub' hplace
      rw [h.places.matrix.columnsOf] at hplace
      rcases (p.mem_columnsOf_matrix hbase hsub hsub').1 hplace with heq | ⟨element, helement, hends⟩
      · omega
      · obtain ⟨e, he⟩ := Array.mem_iff_getElem?.1 helement
        obtain ⟨-, hleft, hright, -⟩ := hline.of_getElem? he
        omega
  case rhs =>
    have hsub := p.size_pos_of_matrix hbase (show i + 1 < p.nodeCount by omega)
    rw [h.blockRhs_eq ⟨by omega, by omega⟩ hsub, sources_inner hline hclosed hfield hlast hs]
    rfl

theorem coupling_of_holds {node : Nat} (hnode : node < p.nodeCount) :
    IsGreatest (couplingTerms p field node) (a.coupling node 0) := by
  have hwithin : (Target.coupling node 0).Within base 1 := by
    refine ⟨?_, Nat.zero_lt_one⟩
    rwa [p.nodeCount_matrix hbase]
  have hvalue := h.value _ hwithin trivial
  have hgreatest := isGreatest_effect (.coupling node 0) trivial (contributions p field) 0
  rw [← hvalue] at hgreatest
  have hterms : {x | ∃ c ∈ contributions p field, c.raisedTo? (.coupling node 0) = some x} =
      couplingTerms p field node := by
    ext x
    constructor
    · rintro ⟨c, hc, hx⟩
      rcases (mem_contributions hline hclosed hfield).1 hc with ⟨e, he, hc⟩ | ⟨i, s, -, hc⟩
      · rcases (exists_raised_edge_coupling _ node x).1 ⟨c, hc, hx⟩ with ⟨rfl, rfl⟩ | ⟨rfl, rfl⟩
        · refine ⟨e, ?_, e + 1, .inr rfl, Nat.succ_ne_self e, rfl⟩
          exact Finset.mem_filter.2 ⟨Finset.mem_range.2 he, .inl rfl⟩
        · refine ⟨e, ?_, e, .inl rfl, (Nat.succ_ne_self e).symm, rfl⟩
          exact Finset.mem_filter.2 ⟨Finset.mem_range.2 he, .inr rfl⟩
      · cases (exists_raised_node p _ i s x).1 ⟨c, hc, hx⟩
    · rintro ⟨e, he, other, hother, hne, rfl⟩
      obtain ⟨he, hnode⟩ := Finset.mem_filter.1 he
      rw [Finset.mem_range] at he
      have hraised : ∃ c ∈ (p.edge field e).contributions, c.raisedTo? (.coupling node 0) =
          some |p.conductance e * p.seenPotential field e other| := by
        rw [exists_raised_edge_coupling]
        rcases hother with rfl | rfl
        · exact .inr ⟨hnode.resolve_left hne, rfl⟩
        · exact .inl ⟨hnode.resolve_right hne, rfl⟩
      obtain ⟨c, hc, hx⟩ := hraised
      exact ⟨c, (mem_contributions hline hclosed hfield).2 (.inl ⟨e, he, hc⟩), hx⟩
  rw [hterms] at hgreatest
  obtain ⟨e, he, other, hother, hne⟩ := p.exists_side hline hclosed hnode
  exact isGreatest_of_insert hgreatest ⟨e, he, other, hother, hne, rfl⟩ (abs_nonneg _)

theorem scale_of_holds {node : Nat} {s : NodeState α} (hs : field.nodes[node]? = some s) :
    IsGreatest (scaleTerms p field node s) (a.scale node 0) := by
  have hnode : node < p.nodeCount := by
    rw [← hfield]
    exact (Array.getElem?_eq_some_iff.1 hs).1
  have hwithin : (Target.scale node 0).Within base 1 := by
    refine ⟨?_, Nat.zero_lt_one⟩
    rwa [p.nodeCount_matrix hbase]
  have hvalue := h.value _ hwithin trivial
  have hgreatest := isGreatest_effect (.scale node 0) trivial (contributions p field) 0
  rw [← hvalue] at hgreatest
  have hcharge : max (max |s.donorDensity| |s.acceptorDensity|)
      (max |s.holeDensity| |s.electronDensity|) * elementaryCharge * p.semiconductorVolume node =
        elementaryCharge * max (max |s.donorDensity| |s.acceptorDensity|)
          (max |s.holeDensity| |s.electronDensity|) * p.nodeVolume node := by
    rw [p.semiconductorVolume_eq hline hclosed hnode]
    ring
  -- an element raises the scale at once to the larger of the terms of both its ends
  have hmem : ∀ x, (∃ c ∈ contributions p field, c.raisedTo? (.scale node 0) = some x) →
      x ∈ scaleTerms p field node s := by
    rintro x ⟨c, hc, hx⟩
    rcases (mem_contributions hline hclosed hfield).1 hc with ⟨e, he, hc⟩ | ⟨i, s', hi, hc⟩
    · obtain ⟨hside, rfl⟩ := (exists_raised_edge_scale _ node x).1 ⟨c, hc, hx⟩
      have hsides : e ∈ p.sides node := Finset.mem_filter.2 ⟨Finset.mem_range.2 he, hside⟩
      rcases max_choice |p.conductance e * p.seenPotential field e e|
        |p.conductance e * p.seenPotential field e (e + 1)| with hmax | hmax
      · exact .inr ⟨e, hsides, e, .inl rfl, hmax⟩
      · exact .inr ⟨e, hsides, e + 1, .inr rfl, hmax⟩
    · have hraised := (exists_raised_node p _ i s' x).1 ⟨c, hc, hx⟩
      rw [Contribution.raisedTo?] at hraised
      split_ifs at hraised with hsame
      obtain ⟨rfl, -⟩ := hsame
      cases hi.symm.trans hs
      cases hraised
      exact .inl hcharge
  have hle : ∀ x ∈ scaleTerms p field node s, x ≤ a.scale node 0 := by
    rintro x (rfl | ⟨e, he, k, hk, rfl⟩)
    · have hraised := (exists_raised_node p (.scale node 0) node s _).2
        (if_pos ⟨rfl, rfl⟩)
      obtain ⟨c, hc, hx⟩ := hraised
      rw [hcharge] at hx
      exact hgreatest.2 (.inr ⟨c,
        (mem_contributions hline hclosed hfield).2 (.inr ⟨node, s, hs, hc⟩), hx⟩)
    · obtain ⟨he, hside⟩ := Finset.mem_filter.1 he
      obtain ⟨c, hc, hx⟩ := (exists_raised_edge_scale (p.edge field e) node _).2 ⟨hside, rfl⟩
      have hmax := hgreatest.2 (.inr ⟨c,
        (mem_contributions hline hclosed hfield).2 (.inl ⟨e, Finset.mem_range.1 he, hc⟩), hx⟩)
      rcases hk with rfl | rfl
      · exact (le_max_left _ _).trans hmax
      · exact (le_max_right _ _).trans hmax
  obtain ⟨e, he, other, hother, -⟩ := p.exists_side hline hclosed hnode
  have hterm : |p.conductance e * p.seenPotential field e other| ∈ scaleTerms p field node s :=
    .inr ⟨e, he, other, hother, rfl⟩
  refine isGreatest_of_insert ⟨?_, ?_⟩ hterm (abs_nonneg _)
  · rcases hgreatest.1 with heq | hx
    · exact .inl heq
    · exact .inr (hmem _ hx)
  · rintro x (rfl | hx)
    · exact hgreatest.2 (.inl rfl)
    · exact hle x hx

end Line

/-- **The setup assembles the finite-volume equations.** On every line, from every field and whatever
has happened to the solver before: if a setup succeeds, the equations of the inner nodes and the
magnitudes of all nodes are those of the discretisation. -/
theorem setup_discretises [BEq M] {regions : List Nat} {priority : Nat → Int}
    (hline : IsLine p.mesh regions priority) {s t : PoissonState α} (hs : Reachable p s)
    (ht : setup p s = .ok () t) : Discretises p s.field t.assembly := by
  have hfield := hs.shaped.nodes
  obtain ⟨base, hbase, h⟩ := holds_of_setup hs.shaped ht
  obtain ⟨b, -, hassemble, -⟩ := Assembly.of_rebuild (of_setup ht).1
  have hclosed := closed_of_assemble hline hs.two_le hassemble
  constructor
  case row =>
    intro node state hfirst hlast hstate
    exact innerRow_of_holds hline hclosed hfield hbase h hfirst hlast hstate
  case coupling =>
    intro node hnode
    exact coupling_of_holds hline hclosed hfield hbase h hnode
  case scale =>
    intro node state hstate
    exact scale_of_holds hline hclosed hfield hbase h hstate

theorem setup_discretises_cappedBar :
    ∃ field, NodeField.equilibrium cappedBar.mesh cappedBar.table = .ok field ∧
      ∃ s t, start cappedBar field = .ok s ∧ setup cappedBar s = .ok () t ∧
        Discretises cappedBar field t.assembly := by
  obtain ⟨field, hfield, hcount⟩ := sound_cappedBar.exists_equilibrium
  obtain ⟨s, hs⟩ := exists_start sound_cappedBar hcount
  obtain ⟨hshaped, rfl⟩ := shaped_start hs
  obtain ⟨-, -, t, -, -, -, ht, -⟩ := exists_setup sound_cappedBar.toClosed hshaped
  exact ⟨s.field, hfield, s, t, hs, ht, setup_discretises isLine_cappedBar (.start hs) ht⟩

end Poisson

end CarrierTransport.Newton
