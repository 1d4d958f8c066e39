import Mathlib
import CarrierTransport.Proofs.Newton.Amounts
import CarrierTransport.Proofs.Newton.Contacts
import CarrierTransport.Proofs.Newton.Equilibrium

/-!
# Both iterations assemble the same Poisson equation

The two iterations have different systems: one unknown at every node, or three where there are
carriers. But what they contribute to the equations of the potentials is the same, contribution by
contribution and in the same order: the fluxes of the carriers enter other equations, and the two
derivatives of the space charge enter other coefficients (`effect_contributions`). So over every
scalar type, whatever its rounding, right hand sides, magnitudes and the coefficients of joined nodes
are equal. Over an exact one the diagonals differ by what the space charge changes with the
potential when the densities follow it (`same_poisson_equation`).
-/

namespace CarrierTransport.Newton

open LinearSystem (BlockMatrix)
open Physics (MaterialModel)
open State (NodeField NodeState Unknown)

/-! ### Numbers that both iterations have -/

/-- The unknown whose equation the number is part of, within its node. -/
def Target.sub : Target → Nat
  | rhs _ sub => sub
  | coefficient _ _ sub _ => sub
  | scale _ sub => sub
  | coupling _ sub => sub

/-- The number is part of a Poisson equation, and if it is a coefficient, it couples the potentials
of different nodes. -/
def Target.Shared : Target → Prop
  | rhs _ sub => sub = 0
  | coefficient node node' sub sub' => (sub = 0 ∧ sub' = 0) ∧ node ≠ node'
  | scale _ sub => sub = 0
  | coupling _ sub => sub = 0

theorem Target.Shared.sub_eq {target : Target} (h : target.Shared) : target.sub = 0 := by
  cases target with
  | rhs node sub => exact h
  | coefficient node node' sub sub' => exact h.1.1
  | scale node sub => exact h
  | coupling node sub => exact h

/-- The unknown to whose equation is contributed. -/
def Contribution.sub? {α : Type} : Contribution α → Option Nat
  | .coefficient _ _ sub _ _ => some sub
  | .source _ sub _ => some sub
  | .scale _ sub _ => some sub
  | .coupling _ sub _ => some sub
  | .unknownIndex => none

section Effects

variable {M α : Type} [Scalar α] {target : Target}

/-- A contribution leaves the equations of other unknowns alone. -/
theorem Contribution.act_eq_self {c : Contribution α} (h : c.sub? ≠ some target.sub) (v : α) :
    c.act target v = v := by
  have hne : ∀ {i k node sub : Nat}, some k ≠ some sub → ¬ (i = node ∧ k = sub) :=
    fun hk hik => hk (congrArg some hik.2)
  unfold act
  split
  · exact if_neg (hne h)
  · exact if_neg fun hc => hne h hc.1
  · exact if_neg (hne h)
  · exact if_neg (hne h)
  · rfl

variable [MaterialModel M α]

/-- The fluxes of the carriers do not enter Poisson's equation. -/
theorem effect_flux (htarget : target.sub = 0) (material : M) (temperature : α)
    (element : Mesh.Element α) (edge : Edge α) (left right : NodeState α) (v : α) :
    effect target (fluxContributions material temperature element edge left right) v = v := by
  refine effect_eq_self v fun c hc v => Contribution.act_eq_self ?_ v
  have hsub : ∀ c ∈ fluxContributions material temperature element edge left right,
      c.sub? ≠ some 0 := by
    simp [fluxContributions, balanceContributions, magnitudeContributions, Contribution.sub?,
      Unknown.sub]
  rw [htarget]
  exact hsub c hc

omit [MaterialModel M α] in
theorem effect_charge_congr {derivative derivative' : α → List (Contribution α)}
    (h : ∀ x v, effect target (derivative x) v = effect target (derivative' x) v) (node : Nat)
    (s : NodeState α) (volumes : List (Option α)) (v : α) :
    effect target (chargeContributions derivative node s volumes) v =
      effect target (chargeContributions derivative' node s volumes) v := by
  rw [chargeContributions, chargeContributions, effect_append, effect_append]
  refine congrArg _ (effect_flatMap_congr v fun volume _ v => ?_)
  cases volume with
  | none => rfl
  | some x =>
    dsimp only
    rw [effect_append, effect_append, h]

/-- The space charge of a node enters Poisson's equation alike, its diagonal apart. -/
theorem effect_nodeContributions (htarget : target.Shared) (p : Problem M α) (node : Nat)
    (s : NodeState α) (v : α) :
    effect target (TwoCarrier.nodeContributions p node s) v =
      effect target (Poisson.nodeContributions p node s) v := by
  refine effect_charge_congr (fun x v => ?_) node s _ v
  cases target with
  | rhs n sub => rfl
  | scale n sub => rfl
  | coupling n sub => rfl
  | coefficient n m sub sub' =>
    -- one derivative is on the diagonal, the other two are by the densities
    obtain ⟨⟨rfl, rfl⟩, hne⟩ := htarget
    have hdiagonal : ¬ (node = n ∧ node = m) := fun h => hne (h.1.symm.trans h.2)
    simp [effect, Contribution.act, Unknown.sub, hdiagonal]

variable [BEq M]

theorem exists_state_of_referredPotential {mesh : Mesh.Topology α} {table : RegionTable M α}
    {field : NodeField α} {material : M} {node : Nat} {v : α}
    (h : referredPotential? mesh table field material node = some v) :
    ∃ s, field.nodes[node]? = some s := by
  rw [referredPotential?] at h
  obtain ⟨n, -, h⟩ := Option.bind_eq_some_iff.1 h
  obtain ⟨m, -, h⟩ := Option.bind_eq_some_iff.1 h
  obtain ⟨s, hs, -⟩ := Option.bind_eq_some_iff.1 h
  exact ⟨s, hs⟩

theorem effect_elementContributions (htarget : target.sub = 0) (p : Problem M α)
    (field : NodeField α) (element : Mesh.Element α) (v : α) :
    effect target (TwoCarrier.elementContributions p field element) v =
      effect target (Poisson.elementContributions p field element) v := by
  rw [TwoCarrier.elementContributions, Poisson.elementContributions]
  cases hedge : edge? p.mesh p.table field element with
  | none => rfl
  | some edge =>
    -- an element that has an edge has a material, and states at its nodes
    rw [edge?] at hedge
    obtain ⟨material, hmaterial, hedge⟩ := Option.bind_eq_some_iff.1 hedge
    obtain ⟨u, hu, hedge⟩ := Option.bind_eq_some_iff.1 hedge
    obtain ⟨w, hw, -⟩ := Option.bind_eq_some_iff.1 hedge
    obtain ⟨left, hleft⟩ := exists_state_of_referredPotential hu
    obtain ⟨right, hright⟩ := exists_state_of_referredPotential hw
    rw [hmaterial, hleft, hright]
    dsimp only
    rw [effect_append]
    split_ifs
    · exact effect_flux htarget material _ element edge left right _
    · rfl

theorem effect_elements (target : Target) (htarget : target.sub = 0) (p : Problem M α) (field : NodeField α)
    (v : α) :
    effect target (p.mesh.elements.toList.flatMap (TwoCarrier.elementContributions p field)) v =
      effect target (p.mesh.elements.toList.flatMap (Poisson.elementContributions p field)) v :=
  effect_flatMap_congr v fun element _ v => effect_elementContributions htarget p field element v

/-- **What both iterations contribute to Poisson's equation is the same**, its diagonal apart. -/
theorem effect_contributions (htarget : target.Shared) (p : Problem M α) (field : NodeField α)
    (v : α) :
    effect target (TwoCarrier.contributions p field) v =
      effect target (Poisson.contributions p field) v := by
  rw [TwoCarrier.contributions, Poisson.contributions, Loop.flatten_mapIdx, Loop.flatten_mapIdx,
    effect_append, effect_append, effect_elements target htarget.sub_eq]
  refine effect_flatMap_congr _ fun node _ v => ?_
  cases field.nodes[node]? with
  | none => rfl
  | some s => exact effect_nodeContributions htarget p node s v

end Effects

/-! ### Assembled systems -/

namespace Problem

variable {M α : Type} [Scalar α] {p : Problem M α} {sizes sizes' : Array Nat}
  {stride stride' : Nat} {base base' : BlockMatrix α} {cs cs' : List (Contribution α)}
  {a a' : Assembly stride α} {b : Assembly stride' α} {target : Target}

/-- An assembly for a system holds what contributions make of zero, and the equations of the
contacts. -/
structure Holds (p : Problem M α) (base : BlockMatrix α) (cs : List (Contribution α))
    (a : Assembly stride α) : Prop where
  places : a.Over base
  grounded : p.Grounded a.matrix
  value : ∀ target : Target, target.Within base stride → target.Inner p.lastNode →
    a.value target = effect target cs 0

theorem Equipped.holds {ws : LinearSystem.Workspace α} (h : p.Equipped sizes a ws)
    (hcs : ∀ c ∈ cs, c.Slotted stride)
    (hok : Assembly.rebuild cs p.settings.dirichletDiagonal p.lastNode a = .ok () a') :
    ∃ base, p.matrix sizes = .ok base ∧ p.Holds base cs a' := by
  obtain ⟨base, hbase, hover, -⟩ := h
  have hover' := (hover.rebuild cs p.settings.dirichletDiagonal p.lastNode).left
  rw [hok] at hover'
  refine ⟨base, hbase, hover', p.grounded_of_rebuild hok, ?_⟩
  exact hover.value_rebuild (p.size_rhs_matrix hbase) hcs hok

theorem Coupled.lt_of_matrix {i j : Nat} (h : p.Coupled i j) (hne : i ≠ j)
    (hbase : p.matrix sizes = .ok base) : i < p.nodeCount ∧ j < p.nodeCount := by
  rcases h with heq | ⟨element, helement, hends⟩
  · exact absurd heq hne
  · have hlt := p.ends_lt_of_matrix hbase helement
    rcases hends with ⟨rfl, rfl⟩ | ⟨rfl, rfl⟩
    · exact hlt
    · exact hlt.symm

/-- In the equation of a contact there is nothing beside the diagonal. -/
theorem Holds.value_contact (h : p.Holds base cs a) (hbase : p.matrix sizes = .ok base)
    (htarget : target.Shared) (hwithin : target.Within base stride)
    (hcontact : ¬ target.Inner p.lastNode) : a.value target = 0 := by
  have hnode : ∀ {node : Nat}, ¬ (node ≠ 0 ∧ node ≠ p.lastNode) → p.IsContact node := by
    intro node hne
    rw [IsContact]
    tauto
  cases target with
  | rhs node sub =>
    have hsub : sub < a.matrix.layout.sizes.getD node 0 := by
      rw [h.places.matrix.layout]
      exact hwithin
    have hrhs := h.grounded.blockRhs (hnode hcontact) hsub
    rw [h.places.blockRhs_eq hwithin] at hrhs
    exact Except.ok.inj hrhs
  | coefficient node node' sub sub' =>
    obtain ⟨hsub, hsub'⟩ := hwithin
    rw [← h.places.matrix.layout] at hsub hsub'
    refine (h.grounded.coefficient hbase h.places.matrix (hnode hcontact) hsub _).trans (if_neg ?_)
    rw [a.matrix.layout.offset_add_inj hsub' hsub]
    exact fun hsame => htarget.2 hsame.1.symm
  | scale node sub => exact absurd trivial hcontact
  | coupling node sub => exact absurd trivial hcontact

/-- A number that the contributions to two systems have the same effect on is the same in both. -/
theorem Holds.value_eq (h : p.Holds base cs a) (h' : p.Holds base' cs' b)
    (hbase : p.matrix sizes = .ok base) (hbase' : p.matrix sizes' = .ok base')
    (htarget : target.Shared) (hwithin : target.Within base stride)
    (hwithin' : target.Within base' stride') (heffect : effect target cs 0 = effect target cs' 0) :
    a.value target = b.value target := by
  -- the rows of the contacts are replaced in both, so there the contributions do not matter
  by_cases hinner : target.Inner p.lastNode
  · rw [h.value target hwithin hinner, h'.value target hwithin' hinner, heffect]
  · rw [h.value_contact hbase htarget hwithin hinner,
      h'.value_contact hbase' htarget hwithin' hinner]

end Problem

/-! ### Setups -/

/-- Two assemblies have the same equations of the potentials, the diagonal apart: the same right
hand sides, the same magnitudes and the same coefficients of joined nodes. -/
structure SamePoissonEquation {M α : Type} [Scalar α] (p : Problem M α) (a : Assembly 1 α)
    (b : Assembly TwoCarrier.semiconductorBlock α) : Prop where
  rhs : ∀ node < p.nodeCount, ∃ v,
    a.matrix.blockRhs node 0 = .ok v ∧ b.matrix.blockRhs node 0 = .ok v
  scale : ∀ node < p.nodeCount, ∃ v,
    a.scales[node]? = some v ∧ b.scales[3 * node]? = some v
  coupling : ∀ node < p.nodeCount, ∃ v,
    a.couplings[node]? = some v ∧ b.couplings[3 * node]? = some v
  joined : ∀ i j, i ≠ j → p.Coupled i j → ∃ v,
    a.matrix.blockEntry i j 0 0 = .ok v ∧ b.matrix.blockEntry i j 0 0 = .ok v

section Setups

variable {M α : Type} [Scalar α] [MaterialModel M α] [BEq M] {p : Problem M α}

theorem Poisson.holds_of_setup {s t : PoissonState α} (hs : Shaped p s)
    (ht : setup p s = .ok () t) :
    ∃ base, p.matrix (Array.replicate p.nodeCount 1) = .ok base ∧
      p.Holds base (contributions p s.field) t.assembly :=
  hs.equipped.holds (slotted_contributions p s.field) (of_setup ht).1

theorem TwoCarrier.holds_of_setup {s t : TwoCarrierState α} (hs : Shaped p s)
    (ht : setup p s = .ok () t) :
    ∃ base, p.matrix s.blockSizes = .ok base ∧
      p.Holds base (contributions p s.field) t.assembly :=
  hs.equipped.holds (slotted_contributions p s.field) (of_setup ht).1

theorem samePoissonEquation_of_holds {sizes sizes' : Array Nat} {base base' : BlockMatrix α}
    {field : NodeField α} {a : Assembly 1 α} {b : Assembly TwoCarrier.semiconductorBlock α}
    (hbase : p.matrix sizes = .ok base) (hbase' : p.matrix sizes' = .ok base')
    (ha : p.Holds base (Poisson.contributions p field) a)
    (hb : p.Holds base' (TwoCarrier.contributions p field) b) : SamePoissonEquation p a b := by
  have hvalue : ∀ target : Target, target.Shared → target.Within base 1 →
      target.Within base' TwoCarrier.semiconductorBlock → b.value target = a.value target := by
    intro target htarget hwithin hwithin'
    exact hb.value_eq ha hbase' hbase htarget hwithin' hwithin
      (effect_contributions htarget p field 0)
  have hstride : 0 < TwoCarrier.semiconductorBlock := by decide
  have hsize : ∀ node < p.nodeCount, 0 < base.layout.sizes.getD node 0 :=
    fun _ hnode => p.size_pos_of_matrix hbase hnode
  have hsize' : ∀ node < p.nodeCount, 0 < base'.layout.sizes.getD node 0 :=
    fun _ hnode => p.size_pos_of_matrix hbase' hnode
  constructor
  case rhs =>
    intro node hnode
    refine ⟨_, ha.places.blockRhs_eq (hsize node hnode), ?_⟩
    rw [hb.places.blockRhs_eq (hsize' node hnode),
      hvalue (.rhs node 0) rfl (hsize node hnode) (hsize' node hnode)]
  case scale =>
    intro node hnode
    have hlt := p.nodeCount_matrix hbase ▸ hnode
    have hlt' := p.nodeCount_matrix hbase' ▸ hnode
    have hslot := ha.places.getElem?_scales hlt one_pos
    have hslot' := hb.places.getElem?_scales hlt' hstride
    rw [hvalue (.scale node 0) rfl ⟨hlt, one_pos⟩ ⟨hlt', hstride⟩] at hslot'
    rw [Assembly.slot, one_mul, add_zero] at hslot
    exact ⟨_, hslot, hslot'⟩
  case coupling =>
    intro node hnode
    have hlt := p.nodeCount_matrix hbase ▸ hnode
    have hlt' := p.nodeCount_matrix hbase' ▸ hnode
    have hslot := ha.places.getElem?_couplings hlt one_pos
    have hslot' := hb.places.getElem?_couplings hlt' hstride
    rw [hvalue (.coupling node 0) rfl ⟨hlt, one_pos⟩ ⟨hlt', hstride⟩] at hslot'
    rw [Assembly.slot, one_mul, add_zero] at hslot
    exact ⟨_, hslot, hslot'⟩
  case joined =>
    intro i j hne hcoupled
    obtain ⟨hi, hj⟩ := hcoupled.lt_of_matrix hne hbase
    have hplace := (p.mem_columnsOf_matrix hbase (hsize i hi) (hsize j hj)).2 hcoupled
    have hplace' := (p.mem_columnsOf_matrix hbase' (hsize' i hi) (hsize' j hj)).2 hcoupled
    refine ⟨_, ha.places.blockEntry_eq (hsize i hi) (hsize j hj) hplace, ?_⟩
    rw [hb.places.blockEntry_eq (hsize' i hi) (hsize' j hj) hplace',
      hvalue (.coefficient i j 0 0) ⟨⟨rfl, rfl⟩, hne⟩ ⟨hsize i hi, hsize j hj⟩
        ⟨hsize' i hi, hsize' j hj⟩]

end Setups

/-! ### Diagonals over exact arithmetic -/

section Exact

variable {M α : Type} [ExactScalar α] [MaterialModel M α] [BEq M] {p : Problem M α}

/-- To a diagonal of Poisson's equation the equilibrium iteration also contributes what the space
charge changes with the potential. -/
theorem coefficients_diagonal (p : Problem M α) (field : NodeField α) (node : Nat) :
    coefficients node node 0 0 (Poisson.contributions p field) =
      coefficients node node 0 0 (TwoCarrier.contributions p field) +
        Poisson.groundConductance p field node := by
  have helements := effect_elements (.coefficient node node 0 0) rfl p field 0
  rw [effect_coefficient, effect_coefficient, zero_add, zero_add] at helements
  rw [Poisson.contributions, TwoCarrier.contributions, coefficients_append, coefficients_append,
    Poisson.coefficients_nodes, TwoCarrier.coefficients_nodes p field (.inr rfl), helements,
    add_zero, same, if_pos ⟨rfl, rfl⟩, one_mul]

/-- At an inner node the two diagonals differ by what the space charge changes with the
potential. -/
theorem diagonal_of_holds {sizes sizes' : Array Nat} {base base' : BlockMatrix α}
    {field : NodeField α} {a : Assembly 1 α} {b : Assembly TwoCarrier.semiconductorBlock α}
    (hbase : p.matrix sizes = .ok base) (hbase' : p.matrix sizes' = .ok base')
    (ha : p.Holds base (Poisson.contributions p field) a)
    (hb : p.Holds base' (TwoCarrier.contributions p field) b) {node : Nat}
    (hnode : node < p.nodeCount) (hinner : ¬ p.IsContact node) :
    ∃ v, b.matrix.blockEntry node node 0 0 = .ok v ∧
      a.matrix.blockEntry node node 0 0 = .ok (v + Poisson.groundConductance p field node) := by
  have hsub := p.size_pos_of_matrix hbase hnode
  have hsub' := p.size_pos_of_matrix hbase' hnode
  have hplace := (p.mem_columnsOf_matrix hbase hsub hsub).2 (p.coupled_self node)
  have hplace' := (p.mem_columnsOf_matrix hbase' hsub' hsub').2 (p.coupled_self node)
  have htarget : Target.Inner p.lastNode (.coefficient node node 0 0) := not_or.1 hinner
  refine ⟨_, hb.places.blockEntry_eq hsub' hsub' hplace', ?_⟩
  rw [ha.places.blockEntry_eq hsub hsub hplace,
    ha.value (.coefficient node node 0 0) ⟨hsub, hsub⟩ htarget,
    hb.value (.coefficient node node 0 0) ⟨hsub', hsub'⟩ htarget, effect_coefficient, effect_coefficient,
    coefficients_diagonal, zero_add, zero_add]

end Exact

/-! ### Both iterations -/

/-- A setup of each iteration from the same field, both successful. -/
structure BothSetUp {M α : Type} [Scalar α] [MaterialModel M α] [BEq M] (p : Problem M α)
    (s t : PoissonState α) (s' t' : TwoCarrierState α) : Prop where
  poisson : Poisson.Reachable p s
  twoCarrier : TwoCarrier.Reachable p s'
  field : s'.field = s.field
  poisson_ok : Poisson.setup p s = .ok () t
  twoCarrier_ok : TwoCarrier.setup p s' = .ok () t'

/-- **Both iterations assemble the same Poisson equation.** Over any scalar type, from any field on
which both setups succeed, whatever has happened to the states before: the right hand sides of the
potentials, their magnitudes and the coefficients of joined nodes are equal. Over exact arithmetic
the diagonal of the equilibrium iteration at an inner node is that of the two-carrier one and what
the space charge of the node changes with its potential. -/
theorem same_poisson_equation :
    (∀ {M α : Type} [Scalar α] [MaterialModel M α] [BEq M] {p : Problem M α}
      {s t : PoissonState α} {s' t' : TwoCarrierState α}, BothSetUp p s t s' t' →
      SamePoissonEquation p t.assembly t'.assembly) ∧
    (∀ {M α : Type} [ExactScalar α] [MaterialModel M α] [BEq M] {p : Problem M α}
      {s t : PoissonState α} {s' t' : TwoCarrierState α}, BothSetUp p s t s' t' →
      ∀ node state, ¬ p.IsContact node → s.field.nodes[node]? = some state →
      ∃ v, t'.assembly.matrix.blockEntry node node 0 0 = .ok v ∧
        t.assembly.matrix.blockEntry node node 0 0 =
          .ok (v + Poisson.chargeConductance p node state)) := by
  constructor
  · intro M α _ _ _ p s t s' t' h
    obtain ⟨base, hbase, ha⟩ := Poisson.holds_of_setup h.poisson.shaped h.poisson_ok
    obtain ⟨base', hbase', hb⟩ := TwoCarrier.holds_of_setup h.twoCarrier.shaped h.twoCarrier_ok
    rw [h.field] at hb
    exact samePoissonEquation_of_holds hbase hbase' ha hb
  · intro M α _ _ _ p s t s' t' h node state hinner hstate
    obtain ⟨base, hbase, ha⟩ := Poisson.holds_of_setup h.poisson.shaped h.poisson_ok
    obtain ⟨base', hbase', hb⟩ := TwoCarrier.holds_of_setup h.twoCarrier.shaped h.twoCarrier_ok
    rw [h.field] at hb
    have hnode : node < p.nodeCount := by
      rw [← h.poisson.shaped.nodes]
      exact (Array.getElem?_eq_some_iff.1 hstate).1
    have hdiagonal := diagonal_of_holds hbase hbase' ha hb hnode hinner
    rw [Poisson.groundConductance, hstate, Option.elim_some] at hdiagonal
    exact hdiagonal

theorem same_poisson_equation_cappedBar :
    ∃ field, NodeField.equilibrium Poisson.cappedBar.mesh Poisson.cappedBar.table = .ok field ∧
      ∃ s t s' t', Poisson.start Poisson.cappedBar field = .ok s ∧
        Poisson.setup Poisson.cappedBar s = .ok () t ∧
        TwoCarrier.start Poisson.cappedBar field = .ok s' ∧
        TwoCarrier.setup Poisson.cappedBar s' = .ok () t' ∧
        SamePoissonEquation Poisson.cappedBar t.assembly t'.assembly ∧
        ∃ state v, field.nodes[1]? = some state ∧
          t'.assembly.matrix.blockEntry 1 1 0 0 = .ok v ∧
          t.assembly.matrix.blockEntry 1 1 0 0 =
            .ok (v + Poisson.chargeConductance Poisson.cappedBar 1 state) := by
  have hsound := Poisson.sound_cappedBar
  obtain ⟨field, hfield, hcount⟩ := hsound.exists_equilibrium
  obtain ⟨s, hs⟩ := Poisson.exists_start hsound hcount
  obtain ⟨s', hs'⟩ := TwoCarrier.exists_start hsound hcount
  obtain ⟨hshaped, rfl⟩ := Poisson.shaped_start hs
  obtain ⟨hshaped', hsame⟩ := TwoCarrier.shaped_start hs'
  obtain ⟨_, _, t, _, _, _, ht, _⟩ := Poisson.exists_setup hsound.toClosed hshaped
  obtain ⟨_, _, t', _, _, _, ht', _⟩ := TwoCarrier.exists_setup hsound hshaped'
  have hboth : BothSetUp Poisson.cappedBar s t s' t' := ⟨.start hs, .start hs', hsame, ht, ht'⟩
  obtain ⟨state, hstate⟩ := Problem.exists_state hcount (show 1 < 4 by decide)
  have hinner : ¬ Poisson.cappedBar.IsContact 1 := by
    rintro (h | h) <;> cases h
  obtain ⟨v, hv, hv'⟩ := same_poisson_equation.2 hboth 1 state hinner hstate
  exact ⟨s.field, hfield, s, t, s', t', hs, ht, hs', ht', same_poisson_equation.1 hboth, state, v,
    hstate, hv, hv'⟩

end CarrierTransport.Newton
