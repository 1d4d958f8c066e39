import Mathlib
import CarrierTransport.Proofs.Device.Stack
import CarrierTransport.Proofs.Newton.Amounts
import CarrierTransport.Proofs.Newton.Contacts
import CarrierTransport.Proofs.Newton.Failure
import CarrierTransport.Proofs.Newton.Flux
import CarrierTransport.Proofs.Physics.Constants
import CarrierTransport.Proofs.State.Unknown

/-!
# From equilibrium to two carriers

The equilibrium iteration moves the carriers by the Boltzmann relations, the two-carrier iteration
by the fluxes of Scharfetter and Gummel. Over the real numbers the two agree on what equilibrium is.

The density of a carrier at a node determines the quasi-Fermi level that it would be in equilibrium
at (`NodeState.electronLevel`, `NodeState.holeLevel`). Along an element of silicon the imbalance
that drives a flux is the difference of these levels (`electronImbalance_eq`, `holeImbalance_eq`),
as both nodes of such an element are governed by silicon themselves and their potentials are not
referred to another work function. So a flux vanishes exactly between nodes of one level, and a
field in equilibrium, such as the equilibrium iteration leaves behind, is handed over to the
two-carrier iteration without a residual in the balances of the carriers
(`Device.equilibrium_handed_over`).
-/

namespace CarrierTransport

open Mesh (Element LineMesh)
open Newton (Problem Settings fluxSetting electronFlux holeFlux edge? referredPotential?)
open Physics (Material MaterialKind thermalVoltage)
open State (NodeField NodeState Unknown)
open Transition

/-! ### Levels -/

namespace State.NodeState

variable {temperature φn φp : ℝ} {s : NodeState ℝ}

/-- The quasi-Fermi level that the electrons of a node are in equilibrium at. -/
noncomputable def electronLevel (temperature : ℝ) (s : NodeState ℝ) : ℝ :=
  s.potential - thermalVoltage temperature * Real.log (s.electronDensity / s.intrinsicDensity)

/-- The quasi-Fermi level that the holes of a node are in equilibrium at. -/
noncomputable def holeLevel (temperature : ℝ) (s : NodeState ℝ) : ℝ :=
  s.potential + thermalVoltage temperature * Real.log (s.holeDensity / s.intrinsicDensity)

/-- The carriers of a node are in equilibrium at the levels it keeps, which are the given ones. -/
structure Balanced (temperature φn φp : ℝ) (s : NodeState ℝ) : Prop where
  electronQuasiFermiLevel : s.electronQuasiFermiLevel = φn
  holeQuasiFermiLevel : s.holeQuasiFermiLevel = φp
  electronDensity : s.electronDensity =
    s.intrinsicDensity * Real.exp ((s.potential - φn) / thermalVoltage temperature)
  holeDensity : s.holeDensity =
    s.intrinsicDensity * Real.exp ((φp - s.potential) / thermalVoltage temperature)

namespace Balanced

variable (h : s.Balanced temperature φn φp) (hintrinsic : 0 < s.intrinsicDensity)

include h hintrinsic

theorem electronDensity_pos : 0 < s.electronDensity := by
  rw [h.electronDensity]
  exact mul_pos hintrinsic (Real.exp_pos _)

theorem holeDensity_pos : 0 < s.holeDensity := by
  rw [h.holeDensity]
  exact mul_pos hintrinsic (Real.exp_pos _)

theorem electronLevel_eq (htemperature : 0 < temperature) : s.electronLevel temperature = φn := by
  have hthermal := Physics.thermalVoltage_pos htemperature
  rw [electronLevel, h.electronDensity, mul_div_cancel_left₀ _ hintrinsic.ne', Real.log_exp,
    mul_div_cancel₀ _ hthermal.ne', sub_sub_cancel]

theorem holeLevel_eq (htemperature : 0 < temperature) : s.holeLevel temperature = φp := by
  have hthermal := Physics.thermalVoltage_pos htemperature
  rw [holeLevel, h.holeDensity, mul_div_cancel_left₀ _ hintrinsic.ne', Real.log_exp,
    mul_div_cancel₀ _ hthermal.ne', add_sub_cancel]

end Balanced

end State.NodeState

/-- The carriers of an equilibrium state are in equilibrium at levels of zero. -/
theorem State.balanced_equilibriumState (m : Material) (temperature donor acceptor : ℝ) :
    (State.equilibriumState m temperature donor acceptor).Balanced temperature 0 0 := by
  refine ⟨rfl, rfl, ?_, ?_⟩
  · rw [sub_zero]
    rfl
  · rw [zero_sub, neg_div, Real.exp_neg, ← div_eq_mul_inv]
    rfl

/-! ### Imbalances -/

namespace Newton

section Imbalance

variable {temperature : ℝ} {left right : NodeState ℝ}

/-- Between nodes of positive densities the electrons are out of balance by the fall of their
level. -/
theorem electronImbalance_eq (htemperature : 0 < temperature) (length : ℝ)
    (hintrinsic : 0 < left.intrinsicDensity ∧ 0 < right.intrinsicDensity)
    (hdensity : 0 < left.electronDensity ∧ 0 < right.electronDensity) :
    (fluxSetting temperature length (right.potential - left.potential) left right).electronImbalance
        left.electronDensity right.electronDensity =
      (left.electronLevel temperature - right.electronLevel temperature) /
        thermalVoltage temperature := by
  have hthermal := (Physics.thermalVoltage_pos htemperature).ne'
  change -(1 / thermalVoltage temperature * (right.potential - left.potential) +
    Real.log (right.intrinsicDensity / left.intrinsicDensity)) +
    Real.log (right.electronDensity / left.electronDensity) = _
  rw [NodeState.electronLevel, NodeState.electronLevel,
    Real.log_div hintrinsic.2.ne' hintrinsic.1.ne', Real.log_div hdensity.2.ne' hdensity.1.ne',
    Real.log_div hdensity.1.ne' hintrinsic.1.ne', Real.log_div hdensity.2.ne' hintrinsic.2.ne']
  field_simp
  ring

theorem holeImbalance_eq (htemperature : 0 < temperature) (length : ℝ)
    (hintrinsic : 0 < left.intrinsicDensity ∧ 0 < right.intrinsicDensity)
    (hdensity : 0 < left.holeDensity ∧ 0 < right.holeDensity) :
    (fluxSetting temperature length (right.potential - left.potential) left right).holeImbalance
        left.holeDensity right.holeDensity =
      (right.holeLevel temperature - left.holeLevel temperature) / thermalVoltage temperature := by
  have hthermal := (Physics.thermalVoltage_pos htemperature).ne'
  change -(-(1 / thermalVoltage temperature) * (right.potential - left.potential) +
    Real.log (right.intrinsicDensity / left.intrinsicDensity)) +
    Real.log (right.holeDensity / left.holeDensity) = _
  rw [NodeState.holeLevel, NodeState.holeLevel,
    Real.log_div hintrinsic.2.ne' hintrinsic.1.ne', Real.log_div hdensity.2.ne' hdensity.1.ne',
    Real.log_div hdensity.1.ne' hintrinsic.1.ne', Real.log_div hdensity.2.ne' hintrinsic.2.ne']
  field_simp
  ring

/-- Between nodes of positive densities a flux goes the way the imbalance of its carriers drives it,
and there is none exactly where both nodes are at one level. -/
structure Driven (temperature : ℝ) (c : FluxSetting ℝ) (left right : NodeState ℝ) : Prop where
  electronFlux : 0 < left.electronDensity → 0 < right.electronDensity →
    SignType.sign (electronFlux c left.electronDensity right.electronDensity).flux =
      SignType.sign (c.electronImbalance left.electronDensity right.electronDensity)
  holeFlux : 0 < left.holeDensity → 0 < right.holeDensity →
    SignType.sign (holeFlux c left.holeDensity right.holeDensity).flux =
      -SignType.sign (c.holeImbalance left.holeDensity right.holeDensity)
  electronLevel : 0 < left.intrinsicDensity ∧ 0 < right.intrinsicDensity →
    0 < left.electronDensity ∧ 0 < right.electronDensity →
    ((Newton.electronFlux c left.electronDensity right.electronDensity).flux = 0 ↔
      left.electronLevel temperature = right.electronLevel temperature)
  holeLevel : 0 < left.intrinsicDensity ∧ 0 < right.intrinsicDensity →
    0 < left.holeDensity ∧ 0 < right.holeDensity →
    ((Newton.holeFlux c left.holeDensity right.holeDensity).flux = 0 ↔
      left.holeLevel temperature = right.holeLevel temperature)

theorem driven_fluxSetting (htemperature : 0 < temperature) {length : ℝ} (hlength : 0 < length) :
    Driven temperature (fluxSetting temperature length (right.potential - left.potential) left right)
      left right := by
  have hforce : 0 < (fluxSetting temperature length (right.potential - left.potential) left
      right).force := div_pos (mul_pos Physics.boltzmann_pos htemperature) hlength
  have hthermal := (Physics.thermalVoltage_pos htemperature).ne'
  constructor
  case electronFlux => exact fun hleft _ => sign_electronFlux hforce hleft
  case holeFlux => exact fun hleft _ => sign_holeFlux hforce hleft
  case electronLevel =>
    intro hintrinsic hdensity
    rw [← sign_eq_zero_iff, sign_electronFlux hforce hdensity.1, sign_eq_zero_iff,
      electronImbalance_eq htemperature length hintrinsic hdensity, div_eq_zero_iff,
      or_iff_left hthermal, sub_eq_zero]
  case holeLevel =>
    intro hintrinsic hdensity
    rw [← sign_eq_zero_iff, sign_holeFlux hforce hdensity.1, SignType.neg_eq_zero_iff, sign_eq_zero_iff,
      holeImbalance_eq htemperature length hintrinsic hdensity, div_eq_zero_iff,
      or_iff_left hthermal, sub_eq_zero, eq_comm]

end Imbalance

end Newton

/-! ### Fields in equilibrium -/

namespace Newton

variable {p : Problem Material ℝ} {φn φp : ℝ}

/-- The quasi-Fermi levels are the same at all nodes, and those governed by a semiconductor have a
positive intrinsic density. -/
structure Levelled (p : Problem Material ℝ) (φn φp : ℝ) (field : NodeField ℝ) : Prop where
  levels : ∀ s ∈ field.nodes, s.electronQuasiFermiLevel = φn ∧ s.holeQuasiFermiLevel = φp
  intrinsic : ∀ node s, field.nodes[node]? = some s → p.Governs node → 0 < s.intrinsicDensity

/-- The carriers of all nodes are in equilibrium at the same levels. -/
structure InEquilibrium (p : Problem Material ℝ) (φn φp : ℝ) (field : NodeField ℝ) : Prop
    extends Levelled p φn φp field where
  balanced : ∀ s ∈ field.nodes, s.Balanced p.table.temperature φn φp

theorem inEquilibrium_equilibrium (htemperature : 0 < p.table.temperature) {field : NodeField ℝ}
    (h : NodeField.equilibrium p.mesh p.table = .ok field) : InEquilibrium p 0 0 field := by
  have hbalanced : ∀ s ∈ field.nodes, s.Balanced p.table.temperature 0 0 := by
    intro s hs
    obtain ⟨node, hnode⟩ := Array.mem_iff_getElem?.1 hs
    obtain ⟨m, donor, acceptor, -, rfl⟩ := State.of_equilibrium h hnode
    exact State.balanced_equilibriumState m _ donor acceptor
  refine ⟨⟨fun s hs => ⟨(hbalanced s hs).1, (hbalanced s hs).2⟩, ?_⟩, hbalanced⟩
  rintro node s hs ⟨m, hm, hsemiconductor⟩
  obtain ⟨m', donor, acceptor, hm', rfl⟩ := State.of_equilibrium h hs
  cases hm.symm.trans hm'
  cases m with
  | silicon => exact Physics.Silicon.intrinsicDensity_pos htemperature _
  | siliconDioxide => cases hsemiconductor

/-- An update of the potential leaves a field in equilibrium behind. -/
theorem Poisson.inEquilibrium_update {s : PoissonState ℝ} (h : Levelled p φn φp s.field) :
    InEquilibrium p φn φp (update p s).field := by
  have hnode : ∀ (node : Nat) t, (update p s).field.nodes[node]? = some t →
      ∃ dx state, s.field.nodes[node]? = some state ∧ t = advance p dx node state := by
    intro node t ht
    obtain ⟨state, hstate, rfl⟩ := Option.map_eq_some_iff.1 (Array.getElem?_mapIdx.symm.trans ht)
    exact ⟨_, state, hstate, rfl⟩
  have hmem : ∀ t ∈ (update p s).field.nodes, ∃ node dx, ∃ state ∈ s.field.nodes,
      t = advance p dx node state := by
    intro t ht
    obtain ⟨node, ht⟩ := Array.mem_iff_getElem?.1 ht
    obtain ⟨dx, state, hstate, rfl⟩ := hnode node t ht
    exact ⟨node, dx, state, Array.mem_of_getElem? hstate, rfl⟩
  refine ⟨⟨?_, ?_⟩, ?_⟩
  · intro t ht
    obtain ⟨node, dx, state, hstate, rfl⟩ := hmem t ht
    exact h.levels state hstate
  · intro node t ht hgoverns
    obtain ⟨dx, state, hstate, rfl⟩ := hnode node t ht
    exact h.intrinsic node state hstate hgoverns
  · intro t ht
    obtain ⟨node, dx, state, hstate, rfl⟩ := hmem t ht
    obtain ⟨rfl, rfl⟩ := h.levels state hstate
    exact ⟨rfl, rfl, rfl, rfl⟩

/-- A run of the equilibrium iteration, however it ends, keeps a field in equilibrium. -/
theorem Poisson.inEquilibrium_run {s : PoissonState ℝ} (h : InEquilibrium p φn φp s.field)
    {ω : Type} (observe : NewtonStep.Observer ℝ ω) (w : ω) :
    InEquilibrium p φn φp (left ((step p).run observe (s, w))).1.field := by
  refine (keepsField p).run_keeps (P := InEquilibrium p φn φp) ?_ observe trivial h w
  rintro s w _ - hs ⟨⟩
  exact inEquilibrium_update hs.toLevelled

/-! ### Elements of silicon -/

section Silicon

variable {field : NodeField ℝ} {element : Element ℝ} {node sub : Nat}

theorem eq_silicon {m : Material} (h : MaterialKind.isSemiconductor m = true) : m = .silicon := by
  cases m with
  | silicon => rfl
  | siliconDioxide => cases h

theorem referredPotential_of_governs {s : NodeState ℝ} (h : p.Governs node)
    (hs : field.nodes[node]? = some s) :
    referredPotential? p.mesh p.table field Material.silicon node = some s.potential := by
  obtain ⟨m, hm, hsemiconductor⟩ := h
  obtain rfl := eq_silicon hsemiconductor
  obtain ⟨n, hn, hm⟩ := Option.bind_eq_some_iff.1 hm
  rw [referredPotential?, hn]
  simp only [Option.bind_eq_bind, Option.bind_some, hm, hs, beq_self_eq_true, if_true]
  rfl

/-- Along an element of silicon the potential rises as it does between its nodes. -/
theorem exists_siliconEdge (h : p.Sound) (hfield : field.nodeCount = p.nodeCount)
    (helement : element ∈ p.mesh.elements) (hcarriers : p.HoldsCarriers element) :
    ∃ edge left right, edge? p.mesh p.table field element = some edge ∧
      edge.rise = right.potential - left.potential ∧
      (field.nodes[element.left]? = some left ∧ p.Governs element.left) ∧
      field.nodes[element.right]? = some right ∧ p.Governs element.right := by
  obtain ⟨hi, hj⟩ := h.ends element helement
  obtain ⟨left, hleft⟩ := p.exists_state hfield hi
  obtain ⟨right, hright⟩ := p.exists_state hfield hj
  obtain ⟨e, he⟩ := Array.mem_iff_getElem?.1 helement
  have hgoverns := h.governs _ hi element ⟨e, he, .inl (.inl rfl)⟩ hcarriers
  have hgoverns' := h.governs _ hj element ⟨e, he, .inl (.inr rfl)⟩ hcarriers
  obtain ⟨m, hm, hsemiconductor⟩ := hcarriers
  obtain rfl := eq_silicon hsemiconductor
  have hedge : ∃ c, edge? p.mesh p.table field element =
      some ⟨element.left, element.right, c, left.potential, right.potential⟩ := by
    rw [edge?, hm]
    simp only [Option.bind_eq_bind, Option.bind_some, referredPotential_of_governs hgoverns hleft,
      referredPotential_of_governs hgoverns' hright]
    exact ⟨_, rfl⟩
  obtain ⟨c, hc⟩ := hedge
  exact ⟨_, left, right, hc, rfl, ⟨hleft, hgoverns⟩, hright, hgoverns'⟩

/-- In equilibrium there are no fluxes along an element of silicon. -/
theorem InEquilibrium.flux_eq_zero (h : InEquilibrium p φn φp field)
    (htemperature : 0 < p.table.temperature) {left right : NodeState ℝ}
    (hleft : field.nodes[element.left]? = some left ∧ p.Governs element.left)
    (hright : field.nodes[element.right]? = some right ∧ p.Governs element.right) (length : ℝ) :
    let c := fluxSetting p.table.temperature length (right.potential - left.potential) left right
    (electronFlux c left.electronDensity right.electronDensity).flux = 0 ∧
      (holeFlux c left.holeDensity right.holeDensity).flux = 0 := by
  intro c
  have hbalanced := h.balanced left (Array.mem_of_getElem? hleft.1)
  have hbalanced' := h.balanced right (Array.mem_of_getElem? hright.1)
  have hintrinsic := h.intrinsic _ left hleft.1 hleft.2
  have hintrinsic' := h.intrinsic _ right hright.1 hright.2
  have helectrons : c.electronImbalance left.electronDensity right.electronDensity = 0 := by
    rw [electronImbalance_eq htemperature length ⟨hintrinsic, hintrinsic'⟩
      ⟨hbalanced.electronDensity_pos hintrinsic, hbalanced'.electronDensity_pos hintrinsic'⟩,
      hbalanced.electronLevel_eq hintrinsic htemperature,
      hbalanced'.electronLevel_eq hintrinsic' htemperature, sub_self, zero_div]
  have hholes : c.holeImbalance left.holeDensity right.holeDensity = 0 := by
    rw [holeImbalance_eq htemperature length ⟨hintrinsic, hintrinsic'⟩
      ⟨hbalanced.holeDensity_pos hintrinsic, hbalanced'.holeDensity_pos hintrinsic'⟩,
      hbalanced.holeLevel_eq hintrinsic htemperature,
      hbalanced'.holeLevel_eq hintrinsic' htemperature, sub_self, zero_div]
  have hexcess : ∀ n : ℝ, n * (Real.exp 0 - 1) = 0 := by simp
  constructor
  · change c.force * _ * (_ * (Real.exp (c.electronImbalance _ _) - 1)) = 0
    rw [helectrons, hexcess, mul_zero]
  · change -c.force * _ * (_ * (Real.exp (c.holeImbalance _ _) - 1)) = 0
    rw [hholes, hexcess, mul_zero]

/-! ### Balances -/

theorem InEquilibrium.sources_element (h : InEquilibrium p φn φp field) (hp : p.Sound)
    (htemperature : 0 < p.table.temperature) (hfield : field.nodeCount = p.nodeCount)
    (helement : element ∈ p.mesh.elements) (hsub : sub ≠ 0) :
    sources node sub (TwoCarrier.elementContributions p field element) = 0 := by
  obtain ⟨m, hm⟩ := hp.material element helement
  rw [TwoCarrier.elementContributions, hm]
  by_cases hcarriers : p.HoldsCarriers element
  · obtain ⟨edge, left, right, hsome, hrise, hleft, hright⟩ :=
      exists_siliconEdge hp hfield helement hcarriers
    obtain ⟨helectrons, hholes⟩ := h.flux_eq_zero htemperature hleft hright element.length
    rw [hsome, hleft.1, hright.1]
    dsimp only
    rw [sources_append, edge.sources_of_ne hsub, zero_add]
    split_ifs
    · rw [sources_flux, hrise, helectrons, hholes, mul_zero, mul_zero, sub_zero]
    · exact sources_nil _ _
  · have hinsulator : ¬ MaterialKind.isSemiconductor m = true := fun hm' => hcarriers ⟨m, hm, hm'⟩
    split
    · next edge m' left right _ hm' _ _ =>
      cases hm'
      rw [if_neg hinsulator, List.append_nil, edge.sources_of_ne hsub]
    · simp [Contribution.sourceAt]

/-- In equilibrium the balances of the carriers hold nothing. -/
theorem InEquilibrium.sources_contributions (h : InEquilibrium p φn φp field) (hp : p.Sound)
    (htemperature : 0 < p.table.temperature) (hfield : field.nodeCount = p.nodeCount)
    (node : Nat) (hsub : sub ≠ 0) :
    sources node sub (TwoCarrier.contributions p field) = 0 := by
  rw [TwoCarrier.contributions, sources_append, TwoCarrier.sources_nodes_of_ne p field hsub,
    add_zero, sources_flatMap]
  apply List.sum_eq_zero
  intro x hx
  obtain ⟨element, helement, rfl⟩ := List.mem_map.1 hx
  exact h.sources_element hp htemperature hfield (Array.mem_toList_iff.1 helement) hsub

theorem TwoCarrier.balances_setup (hp : p.Sound) (htemperature : 0 < p.table.temperature)
    {s : TwoCarrierState ℝ} (hs : Shaped p s) (h : InEquilibrium p φn φp s.field) :
    ∃ t, setup p s = .ok () t ∧ ∀ node < p.nodeCount, p.Governs node → ∀ u : Unknown,
      u ≠ .potential → t.assembly.matrix.blockRhs node u.sub = .ok 0 := by
  obtain ⟨t, ht, hequations⟩ := amounts_setup hp hs
  refine ⟨t, ht, fun node hnode hgoverns u hu => ?_⟩
  have hsize := sub_lt_of_governs hs.sizes hnode hgoverns u
  have hsub := Unknown.sub_ne_zero hu
  by_cases hcontact : p.IsContact node
  · exact blockRhs_contact hs ht hcontact hsize
  · obtain ⟨hfirst, hlast⟩ := not_or.1 hcontact
    rw [(hequations hfirst hlast hsize).1,
      h.sources_contributions hp htemperature hs.nodes node hsub]

end Silicon

end Newton

/-! ### Devices -/

namespace Device

/-- **Equilibrium is handed over.** On an accepted device at a positive temperature and of positive
measures, a setup of the two-carrier iteration from a field whose carriers are in equilibrium at
levels that are the same everywhere finds no right hand side in the balances of the carriers, at any
node of a semiconductor. The field a simulation starts from is such a field, and so is what an update
of the equilibrium iteration leaves where the levels are the same, and what a run of it leaves,
however it ends. Between the nodes of a semiconductor element a flux of electrons has the sign of
their imbalance and one of holes the opposite sign of theirs, so there is no flux only between nodes
of one level. -/
theorem equilibrium_handed_over (d : Device ℝ) (lengthScale crossSection : ℝ)
    {table : RegionTable Material ℝ} {mesh : LineMesh ℝ} (htable : d.regionTable = .ok table)
    (hmesh : d.mesh lengthScale crossSection = .ok mesh) (htemperature : 0 < d.temperature)
    (hlengthScale : 0 < lengthScale) (hcrossSection : 0 < crossSection) (settings : Settings ℝ) :
    let p : Problem Material ℝ := ⟨mesh.topology, table, settings⟩
    (∀ φn φp s, Newton.TwoCarrier.Reachable p s → Newton.InEquilibrium p φn φp s.field →
      ∃ t, Newton.TwoCarrier.setup p s = .ok () t ∧ ∀ node < p.nodeCount, p.Governs node →
        ∀ u : Unknown, u ≠ .potential → t.assembly.matrix.blockRhs node u.sub = .ok 0) ∧
    (∀ field, NodeField.equilibrium mesh.topology table = .ok field →
      Newton.InEquilibrium p 0 0 field) ∧
    (∀ φn φp, ∀ s : Newton.PoissonState ℝ,
      (Newton.Levelled p φn φp s.field →
        Newton.InEquilibrium p φn φp (Newton.Poisson.update p s).field) ∧
      (Newton.InEquilibrium p φn φp s.field →
        ∀ (ω : Type) (observe : Newton.NewtonStep.Observer ℝ ω) (w : ω), Newton.InEquilibrium p φn φp
          (left ((Newton.Poisson.step p).run observe (s, w))).1.field)) ∧
    ∀ field : NodeField ℝ, field.nodeCount = p.nodeCount → ∀ element ∈ mesh.topology.elements,
      p.HoldsCarriers element → ∃ edge left right,
        edge? mesh.topology table field element = some edge ∧
        field.nodes[element.left]? = some left ∧ field.nodes[element.right]? = some right ∧
        Newton.Driven d.temperature
          (fluxSetting d.temperature element.length edge.rise left right) left right := by
  intro p
  have hsound : p.Sound := sound htable hmesh settings
  have hp : p.table.temperature = d.temperature := temperature_regionTable htable
  refine ⟨?_, ?_, ?_, ?_⟩
  · intro φn φp s hs h
    exact Newton.TwoCarrier.balances_setup hsound (hp ▸ htemperature) hs.shaped h
  · intro field hfield
    exact Newton.inEquilibrium_equilibrium (p := p) (hp ▸ htemperature) hfield
  · intro φn φp s
    constructor
    · exact fun h => Newton.Poisson.inEquilibrium_update h
    · exact fun h ω observe w => Newton.Poisson.inEquilibrium_run h observe w
  · intro field hfield element helement hcarriers
    obtain ⟨edge, left, right, hedge, hrise, ⟨hleft, -⟩, hright, -⟩ :=
      Newton.exists_siliconEdge hsound hfield helement hcarriers
    have hlength := (geometry hmesh hlengthScale hcrossSection element helement).1
    refine ⟨edge, left, right, hedge, hleft, hright, ?_⟩
    rw [hrise]
    exact Newton.driven_fluxSetting htemperature hlength

/-- A junction of heavily doped and lightly doped silicon. -/
noncomputable def junction : Device ℝ where
  temperature := 350
  layers := [⟨.silicon, 1, 2, 100000000000000000000, 0⟩, ⟨.silicon, 1, 1, 0, 1000000000000000⟩]

theorem exists_mesh_junction :
    ∃ table mesh, junction.regionTable = .ok table ∧ junction.mesh 1 1 = .ok mesh := by
  have hlayers : junction.layers ≠ [] := by simp [junction]
  have haccepted : ∀ layer ∈ junction.layers, layer.divisions ≠ 0 ∧ ¬ layer.thickness ≤ 0 := by
    intro layer hlayer
    simp only [junction, List.mem_cons, List.not_mem_nil, or_false] at hlayer
    rcases hlayer with rfl | rfl
    · norm_num
    · norm_num
  obtain ⟨table, htable⟩ := exists_regionTable hlayers
  obtain ⟨mesh, hmesh⟩ := exists_mesh hlayers haccepted 1 1
  exact ⟨table, mesh, htable, hmesh⟩

theorem governs_junction {table : RegionTable Material ℝ} (htable : junction.regionTable = .ok table)
    {p : Problem Material ℝ} (hp : p.Closed) (hsame : p.table = table) {node : Nat}
    (hnode : node < p.nodeCount) : p.Governs node := by
  obtain ⟨m, hm⟩ := hp.governing node hnode
  obtain ⟨n, hn, hmaterial⟩ := Option.bind_eq_some_iff.1 hm
  rw [hsame, material?_regionTable htable] at hmaterial
  obtain ⟨layer, hlayer, rfl⟩ := Option.map_eq_some_iff.1 hmaterial
  have hmem : layer ∈ junction.layers := List.mem_of_getElem? hlayer
  simp only [junction, List.mem_cons, List.not_mem_nil, or_false] at hmem
  rcases hmem with rfl | rfl
  · exact ⟨.silicon, hm, rfl⟩
  · exact ⟨.silicon, hm, rfl⟩

/-- The junction in local equilibrium is handed over: no node has a right hand side in the balances
of its carriers. -/
theorem equilibrium_handed_over_junction :
    ∃ table mesh, junction.regionTable = .ok table ∧ junction.mesh 1 1 = .ok mesh ∧
      let p : Problem Material ℝ := ⟨mesh.topology, table, .ofTolerances 1 1 1⟩
      2 ≤ p.nodeCount ∧ ∃ field, NodeField.equilibrium mesh.topology table = .ok field ∧
        ∃ s, Newton.TwoCarrier.start p field = .ok s ∧
        ∃ t, Newton.TwoCarrier.setup p s = .ok () t ∧ ∀ node < p.nodeCount, ∀ u : Unknown,
          u ≠ .potential → t.assembly.matrix.blockRhs node u.sub = .ok 0 := by
  obtain ⟨table, mesh, htable, hmesh⟩ := exists_mesh_junction
  have hsound := sound htable hmesh (.ofTolerances 1 1 1)
  obtain ⟨hzero, hstart, -⟩ := equilibrium_handed_over junction 1 1 htable hmesh
    (by norm_num [junction]) one_pos one_pos (.ofTolerances 1 1 1)
  obtain ⟨field, hfield, hcount⟩ := hsound.exists_equilibrium
  obtain ⟨s, hs⟩ := Newton.TwoCarrier.exists_start hsound hcount
  obtain ⟨-, hsame⟩ := Newton.TwoCarrier.shaped_start hs
  obtain ⟨t, ht, hbalances⟩ := hzero 0 0 s (.start hs) (hsame ▸ hstart field hfield)
  refine ⟨table, mesh, htable, hmesh, hsound.two_le, field, hfield, s, hs, t, ht, ?_⟩
  exact fun node hnode => hbalances node hnode (governs_junction htable hsound.toClosed rfl hnode)

end Device

end CarrierTransport
