import Mathlib
import CarrierTransport.Proofs.Newton.Sound
import CarrierTransport.Proofs.Newton.Targets

/-!
# What an assembly adds up

Over a field the order in which amounts are added does not matter: after an assembly
the right hand side of an unknown is the sum of what was contributed to it, and the coefficient at
two unknowns the sum of what was contributed there (`Assembly.Over.amounts_rebuild`). As every
unknown has a number of its own, nothing reaches an entry by way of another block.
-/

namespace CarrierTransport

namespace Newton

open LinearSystem (BlockMatrix)
open LinearSystem.BlockMatrix
open Physics (MaterialModel)
open State (NodeField NodeState Unknown)

variable {α : Type}

/-! ### Amounts -/

section Sums

variable [FieldScalar α]

/-- One if the unknowns of two block addresses are the same, zero otherwise. -/
def same (i k node sub : Nat) : α :=
  if i = node ∧ k = sub then 1 else 0

/-- What a contribution adds to the right hand side of an unknown. -/
def Contribution.sourceAt (node sub : Nat) : Contribution α → α
  | .source i k amount => same i k node sub * amount
  | _ => 0

/-- What a contribution adds to the coefficient at a block address. -/
def Contribution.coefficientAt (node node' sub sub' : Nat) : Contribution α → α
  | .coefficient i j k l amount => same i k node sub * same j l node' sub' * amount
  | _ => 0

/-- What some contributions add to the right hand side of an unknown. -/
def sources (node sub : Nat) (cs : List (Contribution α)) : α :=
  (cs.map fun c => c.sourceAt node sub).sum

/-- What some contributions add to the coefficient at a block address. -/
def coefficients (node node' sub sub' : Nat) (cs : List (Contribution α)) : α :=
  (cs.map fun c => c.coefficientAt node node' sub sub').sum

section Lists

variable (node node' sub sub' : Nat) (c : Contribution α) (cs ds : List (Contribution α))

@[simp] theorem sources_nil : sources node sub ([] : List (Contribution α)) = 0 :=
  List.sum_nil

@[simp] theorem sources_cons :
    sources node sub (c :: cs) = c.sourceAt node sub + sources node sub cs :=
  List.sum_cons

@[simp] theorem sources_append :
    sources node sub (cs ++ ds) = sources node sub cs + sources node sub ds := by
  rw [sources, List.map_append, List.sum_append, sources, sources]

@[simp] theorem coefficients_nil :
    coefficients node node' sub sub' ([] : List (Contribution α)) = 0 :=
  List.sum_nil

@[simp] theorem coefficients_cons : coefficients node node' sub sub' (c :: cs) =
    c.coefficientAt node node' sub sub' + coefficients node node' sub sub' cs :=
  List.sum_cons

@[simp] theorem coefficients_append : coefficients node node' sub sub' (cs ++ ds) =
    coefficients node node' sub sub' cs + coefficients node node' sub sub' ds := by
  rw [coefficients, List.map_append, List.sum_append, coefficients, coefficients]

theorem sources_flatMap {ι : Type} (items : List ι) (f : ι → List (Contribution α)) :
    sources node sub (items.flatMap f) = (items.map fun i => sources node sub (f i)).sum := by
  induction items with
  | nil => simp
  | cons i items ih => simp [ih]

theorem coefficients_flatMap {ι : Type} (items : List ι) (f : ι → List (Contribution α)) :
    coefficients node node' sub sub' (items.flatMap f) =
      (items.map fun i => coefficients node node' sub sub' (f i)).sum := by
  induction items with
  | nil => simp
  | cons i items ih => simp [ih]

end Lists

section Items

variable {ι : Type} {items : Array ι} {f : Nat → ι → List (Contribution α)} {value : ι → α}
  {node node' sub sub' : Nat}

/-- What the items of an array add, each to the right hand side at its own number. -/
theorem sources_items (h : ∀ i item, items[i]? = some item →
      sources node sub (f i item) = if i = node then value item else 0) :
    sources node sub (items.mapIdx f).toList.flatten = (items[node]?).elim 0 value := by
  rw [Loop.flatten_mapIdx, sources_flatMap]
  exact Loop.sum_range_elim (sources_nil _ _) h

theorem sources_items_eq_zero (h : ∀ i item, items[i]? = some item →
      sources node sub (f i item) = 0) :
    sources node sub (items.mapIdx f).toList.flatten = 0 := by
  have hitems : sources node sub (items.mapIdx f).toList.flatten =
      (items[node]?).elim 0 fun _ => 0 :=
    sources_items fun i item hi => by rw [h i item hi, ite_self]
  rw [hitems]
  cases items[node]? <;> rfl

/-- What they add to a coefficient, each to one in the row at its own number. -/
theorem coefficients_items (h : ∀ i item, items[i]? = some item →
      coefficients node node' sub sub' (f i item) = if i = node then value item else 0) :
    coefficients node node' sub sub' (items.mapIdx f).toList.flatten =
      (items[node]?).elim 0 value := by
  rw [Loop.flatten_mapIdx, coefficients_flatMap]
  exact Loop.sum_range_elim (coefficients_nil _ _ _ _) h

theorem coefficients_items_eq_zero (h : ∀ i item, items[i]? = some item →
      coefficients node node' sub sub' (f i item) = 0) :
    coefficients node node' sub sub' (items.mapIdx f).toList.flatten = 0 := by
  have hitems : coefficients node node' sub sub' (items.mapIdx f).toList.flatten =
      (items[node]?).elim 0 fun _ => 0 :=
    coefficients_items fun i item hi => by rw [h i item hi, ite_self]
  rw [hitems]
  cases items[node]? <;> rfl

end Items

/-! ### Edges and fluxes -/

variable {node node' sub sub' : Nat}

/-- The flux along an edge leaves one node and enters the other. -/
theorem Edge.sources_contributions (edge : Edge α) :
    sources node sub edge.contributions =
      (same edge.left 0 node sub - same edge.right 0 node sub) * edge.conductance * edge.rise := by
  simp only [Edge.contributions, sources_cons, sources_nil, Contribution.sourceAt]
  ring

/-- It is one of charge, so there is nothing of it in the balances of the carriers. -/
theorem Edge.sources_of_ne (edge : Edge α) (hsub : sub ≠ 0) :
    sources node sub edge.contributions = 0 := by
  rw [edge.sources_contributions]
  simp [same, hsub.symm]

/-- An edge joins its nodes by its conductance. -/
theorem Edge.coefficients_contributions (edge : Edge α) :
    coefficients node node' sub sub' edge.contributions =
      edge.conductance * (same edge.left 0 node sub - same edge.right 0 node sub) *
        (same edge.left 0 node' sub' - same edge.right 0 node' sub') := by
  simp only [Edge.contributions, coefficients_cons, coefficients_nil, Contribution.coefficientAt]
  ring

variable {i j : Nat} (w : Unknown) {sign opposite : α → α} {factor : α}

/-- A flux of carriers leaves one node and enters the other. -/
theorem sources_balance (hsign : ∀ v, sign v = factor * v)
    (hopposite : ∀ v, opposite v = -factor * v) (weight : α) (f : CarrierFlux α) :
    sources node sub (balanceContributions i j w sign opposite weight f) =
      (same j w.sub node sub - same i w.sub node sub) * factor * weight * f.flux := by
  simp only [balanceContributions, sources_cons, sources_nil, Contribution.sourceAt, hsign,
    hopposite]
  ring

theorem coefficients_balance (hsign : ∀ v, sign v = factor * v)
    (hopposite : ∀ v, opposite v = -factor * v) (weight : α) (f : CarrierFlux α) :
    coefficients node node' sub sub' (balanceContributions i j w sign opposite weight f) =
      (same i w.sub node sub - same j w.sub node sub) * factor * weight *
        (f.byLeftPotential * (same i 0 node' sub' - same j 0 node' sub') +
          f.byLeftDensity * same i w.sub node' sub' +
          f.byRightDensity * same j w.sub node' sub') := by
  simp only [balanceContributions, coefficients_cons, coefficients_nil, Contribution.coefficientAt,
    hsign, hopposite]
  ring

theorem sources_magnitude (weight left right : α) (f : CarrierFlux α) :
    sources node sub (magnitudeContributions i j w weight left right f) = 0 := by
  simp [magnitudeContributions, Contribution.sourceAt]

theorem coefficients_magnitude (weight left right : α) (f : CarrierFlux α) :
    coefficients node node' sub sub' (magnitudeContributions i j w weight left right f) = 0 := by
  simp [magnitudeContributions, Contribution.coefficientAt]

variable {M : Type} [MaterialModel M α]

/-- The balances of both carriers hold the fluxes along an element. -/
theorem sources_flux (material : M) (temperature : α) (element : Mesh.Element α) (edge : Edge α)
    (left right : NodeState α) :
    let c := fluxSetting temperature element.length edge.rise left right
    sources node sub (fluxContributions material temperature element edge left right) =
      (same edge.right Unknown.electronDensity.sub node sub -
          same edge.left Unknown.electronDensity.sub node sub) *
        (MaterialModel.electronMobility material * element.area) *
        (electronFlux c left.electronDensity right.electronDensity).flux -
      (same edge.right Unknown.holeDensity.sub node sub -
          same edge.left Unknown.holeDensity.sub node sub) *
        (MaterialModel.holeMobility material * element.area) *
        (holeFlux c left.holeDensity right.holeDensity).flux := by
  intro c
  have hid : ∀ v : α, id v = 1 * v := fun v => (one_mul v).symm
  have hneg : ∀ v : α, -v = -1 * v := fun v => (neg_one_mul v).symm
  have hid' : ∀ v : α, id v = - -1 * v := fun v => by rw [neg_neg, one_mul, id]
  simp only [fluxContributions, sources_append, sources_balance .electronDensity hid hneg,
    sources_balance .holeDensity hneg hid', sources_magnitude]
  ring

/-- The space charge enters Poisson's equation only. -/
theorem sources_charge_of_ne {derivative : α → List (Contribution α)}
    (hderivative : ∀ v, sources node sub (derivative v) = 0) (hsub : sub ≠ 0) (i : Nat)
    (s : NodeState α) (volumes : List (Option α)) :
    sources node sub (chargeContributions derivative i s volumes) = 0 := by
  have hsame : same i 0 node sub = (0 : α) := if_neg fun h => hsub h.2.symm
  simp only [chargeContributions, sources_append, sources_flatMap, sources_cons, sources_nil,
    Contribution.sourceAt, add_zero]
  refine List.sum_eq_zero fun x hx => ?_
  obtain ⟨v, -, rfl⟩ := List.mem_map.1 hx
  cases v with
  | none => simp [Contribution.sourceAt]
  | some v => simp [hderivative, Contribution.sourceAt, hsame]

/-- The coefficients of the space charge are those of its derivative in each control volume. -/
theorem coefficients_charge (derivative : α → List (Contribution α)) (i : Nat) (s : NodeState α)
    (volumes : List (Option α)) :
    coefficients node node' sub sub' (chargeContributions derivative i s volumes) =
      (volumes.map fun v =>
        v.elim 0 fun v => coefficients node node' sub sub' (derivative v)).sum := by
  simp only [chargeContributions, coefficients_append, coefficients_flatMap, coefficients_cons,
    coefficients_nil, Contribution.coefficientAt, add_zero]
  refine congrArg List.sum (List.map_congr_left fun v _ => ?_)
  cases v with
  | none => simp [Contribution.coefficientAt]
  | some v => simp [Contribution.coefficientAt]

/-! ### The space charge of two carriers -/

namespace TwoCarrier

variable (p : Problem M α) (i : Nat) (s : NodeState α) (field : NodeField α)

/-- The space charge is in Poisson's equation, where it changes with the densities only. -/
theorem coefficients_nodeContributions (h : sub ≠ 0 ∨ sub' = 0) :
    coefficients node node' sub sub' (nodeContributions p i s) = 0 := by
  rw [nodeContributions, coefficients_charge]
  apply List.sum_eq_zero
  intro x hx
  obtain ⟨v, -, rfl⟩ := List.mem_map.1 hx
  cases v with
  | none => rfl
  | some v =>
    rcases h with hsub | rfl
    · simp [Contribution.coefficientAt, same, hsub.symm]
    · simp [Contribution.coefficientAt, same, Unknown.sub]

theorem coefficients_nodes (h : sub ≠ 0 ∨ sub' = 0) :
    coefficients node node' sub sub'
      (field.nodes.mapIdx fun i s => nodeContributions p i s).toList.flatten = 0 :=
  coefficients_items_eq_zero fun i s _ => coefficients_nodeContributions p i s h

theorem sources_nodes_of_ne (hsub : sub ≠ 0) :
    sources node sub
      (field.nodes.mapIdx fun i s => nodeContributions p i s).toList.flatten = 0 :=
  sources_items_eq_zero fun i s _ =>
    sources_charge_of_ne (fun v => by simp [Contribution.sourceAt]) hsub i s _

end TwoCarrier

end Sums

/-! ### The space charge in the control volumes -/

section Ground

variable [ExactScalar α] {M : Type} [MaterialModel M α] {node node' : Nat}

/-- The semiconductor volume of a node. -/
def Problem.semiconductorVolume (p : Problem M α) (node : Nat) : α :=
  ((semiconductorVolumes p.mesh p.table
    (((p.mesh.nodes[node]?).map Mesh.Node.elements).getD [])).map fun v => v.getD 0).sum

/-- How much the space charge of a node changes with its potential when the densities follow. -/
def Poisson.chargeConductance (p : Problem M α) (node : Nat) (s : NodeState α) : α :=
  Physics.elementaryCharge / Physics.thermalVoltage p.table.temperature *
    (s.electronDensity + s.holeDensity) * p.semiconductorVolume node

theorem Poisson.coefficients_nodeContributions (p : Problem M α) (i : Nat) (s : NodeState α) :
    coefficients node node' 0 0 (nodeContributions p i s) =
      same i 0 node 0 * same i 0 node' 0 * chargeConductance p i s := by
  rw [nodeContributions, coefficients_charge, chargeConductance, Problem.semiconductorVolume,
    ← mul_assoc, ← List.sum_map_mul_left]
  refine congrArg List.sum (List.map_congr_left fun v _ => ?_)
  cases v with
  | none => simp
  | some v =>
    simp only [Option.elim_some, coefficients_cons, coefficients_nil, Contribution.coefficientAt,
      Option.getD_some]
    ring

/-- The conductance from a node of a field to the ground. -/
def Poisson.groundConductance (p : Problem M α) (field : NodeField α) (node : Nat) : α :=
  (field.nodes[node]?).elim 0 (chargeConductance p node)

theorem Poisson.coefficients_nodes (p : Problem M α) (field : NodeField α) :
    coefficients node node' 0 0
        (field.nodes.mapIdx fun i s => nodeContributions p i s).toList.flatten =
      same node 0 node' 0 * groundConductance p field node := by
  have hrow : coefficients node node' 0 0
      (field.nodes.mapIdx fun i s => nodeContributions p i s).toList.flatten =
        (field.nodes[node]?).elim 0 fun s => same node 0 node' 0 * chargeConductance p node s := by
    refine coefficients_items fun i s _ => ?_
    rw [coefficients_nodeContributions]
    by_cases hi : i = node
    · subst hi
      rw [if_pos rfl, same, if_pos ⟨rfl, rfl⟩, one_mul]
    · rw [if_neg hi, same, if_neg fun h => hi h.1, zero_mul, zero_mul]
  rw [hrow, groundConductance]
  cases field.nodes[node]? with
  | none => simp
  | some s => rfl

/-- The space charge of a node is that in its control volumes. -/
theorem Poisson.sources_nodeContributions (p : Problem M α) (i : Nat) (s : NodeState α) :
    sources node 0 (nodeContributions p i s) =
      same i 0 node 0 * (Physics.elementaryCharge * netCharge s * p.semiconductorVolume i) := by
  rw [nodeContributions, chargeContributions, Problem.semiconductorVolume,
    ← List.sum_map_mul_left, ← List.sum_map_mul_left]
  simp only [sources_append, sources_flatMap, sources_cons, sources_nil, Contribution.sourceAt,
    add_zero]
  apply congrArg List.sum
  apply List.map_congr_left
  intro v _
  cases v with
  | none => simp [Contribution.sourceAt]
  | some v => simp [Contribution.sourceAt]

theorem Poisson.sources_nodes (p : Problem M α) (field : NodeField α) :
    sources node 0 (field.nodes.mapIdx fun i s => nodeContributions p i s).toList.flatten =
      (field.nodes[node]?).elim 0 fun s =>
        Physics.elementaryCharge * netCharge s * p.semiconductorVolume node := by
  refine sources_items fun i s _ => ?_
  rw [sources_nodeContributions]
  by_cases hi : i = node
  · subst hi
    rw [if_pos rfl, same, if_pos ⟨rfl, rfl⟩, one_mul]
  · rw [if_neg hi, same, if_neg fun h => hi h.1, zero_mul]

end Ground

/-! ### What is added -/

section Added

variable [FieldScalar α]

/-- What contributions do to a right hand side is to add to it. -/
theorem effect_rhs (node sub : Nat) (cs : List (Contribution α)) (v : α) :
    effect (.rhs node sub) cs v = v + sources node sub cs := by
  induction cs generalizing v with
  | nil => rw [effect_nil, sources_nil, add_zero]
  | cons c cs ih =>
    rw [effect_cons, ih, sources_cons, ← add_assoc]
    cases c <;> simp [Contribution.act, Contribution.sourceAt, same]
    split_ifs <;> simp

/-- What contributions do to a coefficient is to add to it. -/
theorem effect_coefficient (node node' sub sub' : Nat) (cs : List (Contribution α)) (v : α) :
    effect (.coefficient node node' sub sub') cs v = v + coefficients node node' sub sub' cs := by
  induction cs generalizing v with
  | nil => rw [effect_nil, coefficients_nil, add_zero]
  | cons c cs ih =>
    rw [effect_cons, ih, coefficients_cons, ← add_assoc]
    cases c <;> simp [Contribution.act, Contribution.coefficientAt, same]
    split_ifs <;> grind

namespace Assembly

variable {stride : Nat} {base : BlockMatrix α} {a a' : Assembly stride α}
  {cs : List (Contribution α)} {diagonal : α} {lastNode : Nat}

/-- **After an assembly the equations hold what was contributed to them**, those of the contacts
apart. -/
theorem Over.amounts_rebuild (h : a.Over base) (hrhs : base.rhs.size = base.layout.total)
    (hcs : ∀ c ∈ cs, c.Slotted stride) (hok : Assembly.rebuild cs diagonal lastNode a = .ok () a')
    {node sub : Nat} (hsub : sub < base.layout.sizes.getD node 0) (hfirst : node ≠ 0)
    (hlast : node ≠ lastNode) :
    a'.value (.rhs node sub) = sources node sub cs ∧
      ∀ {node' sub'}, sub' < base.layout.sizes.getD node' 0 →
        a'.value (.coefficient node node' sub sub') = coefficients node node' sub sub' cs := by
  constructor
  · rw [h.value_rebuild hrhs hcs hok (.rhs node sub) hsub ⟨hfirst, hlast⟩, effect_rhs, zero_add]
  · intro node' sub' hsub'
    rw [h.value_rebuild hrhs hcs hok (.coefficient node node' sub sub') ⟨hsub, hsub'⟩
      ⟨hfirst, hlast⟩, effect_coefficient, zero_add]

end Assembly

end Added

/-! ### Setups -/

section Setup

variable [ExactScalar α] {M : Type} {p : Problem M α} {base : BlockMatrix α}

variable [MaterialModel M α] [BEq M] {s : TwoCarrierState α}

/-- **The equations of a setup hold what the field contributes to them**, those of the contacts
apart. Coefficients are stored for coupled nodes; for the others there is nothing to add up. -/
theorem TwoCarrier.amounts_setup (h : p.Sound) (hs : TwoCarrier.Shaped p s) :
    ∃ t, setup p s = .ok () t ∧ ∀ {node sub}, node ≠ 0 → node ≠ p.lastNode →
      sub < s.blockSizes.getD node 0 →
      t.assembly.matrix.blockRhs node sub =
        .ok (sources node sub (contributions p s.field)) ∧
      ∀ {node' sub'}, sub' < s.blockSizes.getD node' 0 →
        (p.Coupled node node' → t.assembly.matrix.blockEntry node node' sub sub' =
          .ok (coefficients node node' sub sub' (contributions p s.field))) ∧
        (¬ p.Coupled node node' →
          (∃ e, t.assembly.matrix.blockEntry node node' sub sub' = .error e) ∧
          coefficients node node' sub sub' (contributions p s.field) = 0) := by
  obtain ⟨base, a, t, hbase, hover, hrebuild, ht, rfl⟩ := exists_setup h hs
  obtain ⟨base', hbase', hstart, -⟩ := hs.equipped
  cases hbase.symm.trans hbase'
  refine ⟨t, ht, fun {node sub} hfirst hlast hsub => ?_⟩
  have hsizes := p.sizes_matrix hbase
  rw [← hsizes] at hsub
  obtain ⟨hrhs, hcoefficients⟩ := hstart.amounts_rebuild (Problem.size_rhs_matrix hbase)
    (slotted_contributions p s.field) hrebuild hsub hfirst hlast
  refine ⟨by rw [hover.blockRhs_eq hsub, hrhs], fun {node' sub'} hsub' => ?_⟩
  rw [← hsizes] at hsub'
  have hplace := p.mem_columnsOf_matrix hbase hsub hsub'
  rw [← hcoefficients hsub']
  constructor
  · intro hcoupled
    rw [hover.blockEntry_eq hsub hsub' (hplace.2 hcoupled)]
  · intro hcoupled
    have hnotMem := fun hmem => hcoupled (hplace.1 hmem)
    rw [← hover.matrix.columnsOf, ← hover.matrix.layout] at hnotMem
    exact ⟨exists_error_blockEntry hnotMem, coefficient_eq_zero hnotMem⟩

end Setup

end Newton

end CarrierTransport
