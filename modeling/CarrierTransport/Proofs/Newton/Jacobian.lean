import Mathlib
import CarrierTransport.Proofs.Newton.Amounts
import CarrierTransport.Proofs.Newton.Flux
import CarrierTransport.Proofs.Newton.History
import CarrierTransport.Proofs.Newton.Line
import CarrierTransport.Proofs.State.Unknown

/-!
# The matrix is the derivative of the right hand side

An assembly contributes amounts to right hand sides and, for Newton's method, amounts to
coefficients that are meant to be their derivatives. Contributions are consistent if the right hand
side of an unknown changes with another unknown at the rate that the coefficients give, with the
opposite sign (`Consistent`). This holds of everything that an element or a node contributes and is
kept by appending. As an assembly adds contributions up, it holds of the assembled system
(`TwoCarrier.matrix_is_jacobian`).
-/

namespace CarrierTransport

open Mesh (Element IsLine)
open Physics (MaterialKind MaterialModel elementaryCharge seriesThreshold)
open State (NodeField NodeState Unknown)

namespace Newton

/-! ### Rates -/

section Rates

variable {i j node node' sub sub' : Nat} {x : ℝ}

/-- The state of a node while an unknown of the field changes: that unknown changes at rate one, the
others and the doping do not change. -/
structure Moves (i node' sub' : Nat) (state : ℝ → NodeState ℝ) (x : ℝ) : Prop where
  rate : ∀ w : Unknown,
    HasDerivAt (fun t => (state t).get w.quantity) (same i w.sub node' sub') x
  intrinsicDensity : ∀ t, (state t).intrinsicDensity = (state x).intrinsicDensity
  donorDensity : ∀ t, (state t).donorDensity = (state x).donorDensity
  acceptorDensity : ∀ t, (state t).acceptorDensity = (state x).acceptorDensity

/-- What a node goes through while an unknown of the field takes all values. -/
theorem exists_moves {field : NodeField ℝ} {s : NodeState ℝ} (hs : field.nodes[i]? = some s)
    (node' : Nat) (u : Unknown) :
    ∃ state : ℝ → NodeState ℝ, (∀ t, (field.setUnknown node' u t).nodes[i]? = some (state t)) ∧
      state (field.unknown node' u) = s ∧ Moves i node' u.sub state (field.unknown node' u) := by
  by_cases h : node' = i
  · subst h
    refine ⟨fun t => s.set u.quantity t, fun t => ?_, ?_, ?_⟩
    · rw [NodeField.setUnknown, Array.getElem?_modify, if_pos rfl, hs]
      rfl
    · rw [NodeField.unknown, hs]
      exact s.set_get_unknown u
    · constructor
      case rate =>
        intro w
        simp only [NodeState.get_set_unknown, same, true_and, Unknown.sub_inj, eq_comm (a := w)]
        split_ifs
        · exact hasDerivAt_id' _
        · exact hasDerivAt_const _ _
      all_goals intro t; cases u <;> rfl
  · refine ⟨fun _ => s, fun t => ?_, rfl, ?_⟩
    · rw [NodeField.setUnknown, Array.getElem?_modify, if_neg h, hs]
    · refine ⟨fun w => ?_, fun _ => rfl, fun _ => rfl, fun _ => rfl⟩
      simp only [same, Ne.symm h, false_and, if_false]
      exact hasDerivAt_const _ _

/-! ### Consistent contributions -/

/-- The right hand side of an unknown changes at the rate that the coefficients give. -/
def Consistent (node node' sub sub' : Nat) (cs : ℝ → List (Contribution ℝ)) (x : ℝ) : Prop :=
  HasDerivAt (fun t => sources node sub (cs t)) (-coefficients node node' sub sub' (cs x)) x

theorem Consistent.append {cs ds : ℝ → List (Contribution ℝ)}
    (h : Consistent node node' sub sub' cs x) (h' : Consistent node node' sub sub' ds x) :
    Consistent node node' sub sub' (fun t => cs t ++ ds t) x := by
  simp only [Consistent, sources_append]
  refine (HasDerivAt.fun_add h h').congr_deriv ?_
  rw [coefficients_append, neg_add]

/-- Contributions that add to no entry are consistent. -/
theorem Consistent.zero {cs : ℝ → List (Contribution ℝ)}
    (hsources : ∀ t, sources node sub (cs t) = 0)
    (hcoefficients : coefficients node node' sub sub' (cs x) = 0) :
    Consistent node node' sub sub' cs x := by
  simp only [Consistent, hsources, hcoefficients, neg_zero]
  exact hasDerivAt_const _ _

theorem Consistent.nil : Consistent node node' sub sub' (fun _ => []) x :=
  .zero (fun _ => sources_nil _ _) (coefficients_nil _ _ _ _)

theorem Consistent.flatMap {ι : Type} {items : List ι} {cs : ι → ℝ → List (Contribution ℝ)}
    (h : ∀ item ∈ items, Consistent node node' sub sub' (cs item) x) :
    Consistent node node' sub sub' (fun t => items.flatMap fun item => cs item t) x := by
  induction items with
  | nil => exact .nil
  | cons item items ih =>
    simp only [List.flatMap_cons]
    obtain ⟨hitem, hitems⟩ := List.forall_mem_cons.1 h
    exact hitem.append (ih hitems)

/-! ### Elements -/

theorem consistent_edge (c : ℝ) {u v : ℝ → ℝ} (hu : HasDerivAt u (same i 0 node' sub') x)
    (hv : HasDerivAt v (same j 0 node' sub') x) :
    Consistent node node' sub sub' (fun t => Edge.contributions ⟨i, j, c, u t, v t⟩) x := by
  simp only [Consistent, Edge.sources_contributions, Edge.rise]
  refine ((hv.fun_sub hu).const_mul _).congr_deriv ?_
  rw [Edge.coefficients_contributions]
  ring

/-- A flux leaves one node and enters the other. -/
theorem consistent_balance (w : Unknown) {sign opposite : ℝ → ℝ} {factor : ℝ}
    (hsign : ∀ v, sign v = factor * v) (hopposite : ∀ v, opposite v = -factor * v) (weight : ℝ)
    {f : ℝ → CarrierFlux ℝ}
    (hf : HasDerivAt (fun t => (f t).flux)
      (-(f x).byLeftPotential * (same j 0 node' sub' - same i 0 node' sub') +
        (f x).byLeftDensity * same i w.sub node' sub' +
        (f x).byRightDensity * same j w.sub node' sub') x) :
    Consistent node node' sub sub'
      (fun t => balanceContributions i j w sign opposite weight (f t)) x := by
  simp only [Consistent, sources_balance w hsign hopposite]
  refine (hf.const_mul _).congr_deriv ?_
  rw [coefficients_balance w hsign hopposite]
  ring

theorem consistent_magnitude (w : Unknown) (weight : ℝ) {left right : ℝ → ℝ}
    {f : ℝ → CarrierFlux ℝ} :
    Consistent node node' sub sub'
      (fun t => magnitudeContributions i j w weight (left t) (right t) (f t)) x := by
  exact .zero (fun t => sources_magnitude w weight _ _ _) (coefficients_magnitude w weight _ _ _)

/-- What both fluxes along an element contribute, away from the threshold of the Bernoulli
function. -/
theorem consistent_flux {M : Type} [MaterialModel M ℝ] (material : M) {temperature : ℝ}
    {element : Element ℝ} (c : ℝ) {a b : ℝ} {left right : ℝ → NodeState ℝ} {setting : FluxSetting ℝ}
    (hleft : Moves i node' sub' left x) (hright : Moves j node' sub' right x)
    (hsetting : setting = fluxSetting temperature element.length
      (((right x).potential + b) - ((left x).potential + a)) (left x) (right x))
    (hleftPos : 0 < (left x).electronDensity ∧ 0 < (left x).holeDensity)
    (hrightPos : 0 < (right x).electronDensity ∧ 0 < (right x).holeDensity)
    (helectrons : |setting.electronStep| ≠ seriesThreshold)
    (hholes : |setting.holeStep| ≠ seriesThreshold) :
    Consistent node node' sub sub' (fun t => fluxContributions material temperature element
      ⟨i, j, c, (left t).potential + a, (right t).potential + b⟩ (left t) (right t)) x := by
  have hrise : HasDerivAt (fun t => ((right t).potential + b) - ((left t).potential + a))
      (same j 0 node' sub' - same i 0 node' sub') x :=
    ((hright.rate .potential).add_const b).fun_sub ((hleft.rate .potential).add_const a)
  have hat : setting.rise = ((right x).potential + b) - ((left x).potential + a) := by
    rw [hsetting]
    rfl
  -- along the path only the rise of the potential changes
  have hpath : ∀ t, fluxSetting temperature element.length
      (((right t).potential + b) - ((left t).potential + a)) (left t) (right t) =
      { setting with rise := ((right t).potential + b) - ((left t).potential + a) } := by
    intro t
    rw [hsetting, fluxSetting, fluxSetting, hleft.intrinsicDensity t, hright.intrinsicDensity t]
  have hself : { setting with rise := ((right x).potential + b) - ((left x).potential + a) } =
      setting := by rw [← hat]
  have helectronFlux := hasDerivAt_electronFlux hrise (hleft.rate .electronDensity)
    (hright.rate .electronDensity) hat hleftPos.1.ne' hrightPos.1.ne' helectrons
  have hholeFlux := hasDerivAt_holeFlux hrise (hleft.rate .holeDensity)
    (hright.rate .holeDensity) hat hleftPos.2.ne' hrightPos.2.ne' hholes
  have hid : ∀ v : ℝ, id v = 1 * v := fun v => (one_mul v).symm
  have hneg : ∀ v : ℝ, -v = -1 * v := fun v => (neg_one_mul v).symm
  have hid' : ∀ v : ℝ, id v = - -1 * v := fun v => by rw [neg_neg, one_mul, id]
  simp only [fluxContributions, Edge.rise, hpath]
  refine (((consistent_balance .electronDensity hid hneg _ ?_).append
    (consistent_balance .holeDensity hneg hid' _ ?_)).append
    (consistent_magnitude _ _)).append (consistent_magnitude _ _)
  · rw [hself]
    exact helectronFlux
  · rw [hself]
    exact hholeFlux

/-! ### Nodes -/

theorem consistent_charge {state : ℝ → NodeState ℝ} (h : Moves i node' sub' state x)
    (volumes : List (Option ℝ)) :
    Consistent node node' sub sub' (fun t => chargeContributions
      (fun v => [.coefficient i i 0 Unknown.electronDensity.sub (elementaryCharge * v),
        .coefficient i i 0 Unknown.holeDensity.sub (-(elementaryCharge * v))]) i (state t) volumes)
      x := by
  have hcharge : HasDerivAt (fun t => netCharge (state t))
      (same i Unknown.holeDensity.sub node' sub' - same i Unknown.electronDensity.sub node' sub')
      x := by
    simp only [netCharge, h.donorDensity, h.acceptorDensity]
    exact ((h.rate .holeDensity).const_add _).fun_sub (h.rate .electronDensity)
  simp only [chargeContributions]
  refine .append (.flatMap fun v _ => ?_) (.zero (fun t => ?_) ?_)
  · cases v with
    | none =>
      exact .zero (fun t => by simp [Contribution.sourceAt]) (by simp [Contribution.coefficientAt])
    | some v =>
      have hsources : ∀ t, sources node sub
          ([Contribution.coefficient i i 0 Unknown.electronDensity.sub (elementaryCharge * v),
            .coefficient i i 0 Unknown.holeDensity.sub (-(elementaryCharge * v))] ++
            [.source i 0 (elementaryCharge * netCharge (state t) * v)]) =
          same i 0 node sub * elementaryCharge * v * netCharge (state t) := by
        intro t
        simp only [List.cons_append, List.nil_append, sources_cons, sources_nil,
          Contribution.sourceAt]
        ring
      simp only [Consistent, hsources]
      refine (hcharge.const_mul _).congr_deriv ?_
      simp only [List.cons_append, List.nil_append, coefficients_cons, coefficients_nil,
        Contribution.coefficientAt]
      ring
  · simp [Contribution.sourceAt]
  · simp [Contribution.coefficientAt]

end Rates

/-! ### The equations of a problem -/

namespace Problem

variable {M : Type} [MaterialModel M ℝ] [BEq M] {p : Problem M ℝ}

/-- An element sees the potential of a node at a distance that does not depend on the field. -/
theorem Sound.exists_shift (h : p.Sound) (m : M) {i : Nat} (hi : i < p.nodeCount) :
    ∃ shift : ℝ, ∀ field s, field.nodes[i]? = some s →
      referredPotential? p.mesh p.table field m i = some (s.potential + shift) := by
  obtain ⟨governing, hgoverning⟩ := h.governing i hi
  obtain ⟨n, hn, -⟩ := p.exists_node hi
  rw [governing?, hn] at hgoverning
  simp only [Option.bind_eq_bind, Option.bind_some] at hgoverning
  refine ⟨if governing == m then 0 else MaterialModel.workFunction m p.table.temperature -
    MaterialModel.workFunction governing p.table.temperature, fun field s hs => ?_⟩
  rw [referredPotential?, hn]
  simp only [Option.bind_eq_bind, Option.bind_some, hgoverning, hs, pure]
  split_ifs
  · rw [add_zero]
  · rw [add_sub_assoc]

end Problem

namespace TwoCarrier

variable {M : Type} [MaterialModel M ℝ] [BEq M] {p : Problem M ℝ} {field : NodeField ℝ}
  {node node' sub : Nat} {u : Unknown}

/-- Where the fluxes have derivatives: the densities are positive at the nodes of semiconductors,
and along semiconductor elements no band edge rises or falls by exactly the threshold of the
Bernoulli function. -/
structure Smooth (p : Problem M ℝ) (field : NodeField ℝ) : Prop where
  carriers : ∀ node s, field.nodes[node]? = some s → p.Governs node →
    0 < s.electronDensity ∧ 0 < s.holeDensity
  steps : ∀ element ∈ p.mesh.elements, p.HoldsCarriers element → ∀ edge left right,
    edge? p.mesh p.table field element = some edge → field.nodes[element.left]? = some left →
    field.nodes[element.right]? = some right →
    let setting := fluxSetting p.table.temperature element.length edge.rise left right
    |setting.electronStep| ≠ seriesThreshold ∧ |setting.holeStep| ≠ seriesThreshold

theorem consistent_element (h : p.Sound) (hfield : field.nodeCount = p.nodeCount)
    (hsmooth : Smooth p field) {element : Element ℝ} (helement : element ∈ p.mesh.elements) :
    Consistent node node' sub u.sub
      (fun t => elementContributions p (field.setUnknown node' u t) element)
      (field.unknown node' u) := by
  obtain ⟨m, hm⟩ := h.material element helement
  obtain ⟨hi, hj⟩ := h.ends element helement
  obtain ⟨l, hl⟩ := p.exists_state hfield hi
  obtain ⟨r, hr⟩ := p.exists_state hfield hj
  obtain ⟨left, hleft, hleftAt, hleftMoves⟩ := exists_moves hl node' u
  obtain ⟨right, hright, hrightAt, hrightMoves⟩ := exists_moves hr node' u
  obtain ⟨a, ha⟩ := h.exists_shift m hi
  obtain ⟨b, hb⟩ := h.exists_shift m hj
  obtain ⟨c, hc⟩ : ∃ c, c = MaterialModel.permittivity m * element.area / element.length := ⟨_, rfl⟩
  have hedge : ∀ f s s', f.nodes[element.left]? = some s → f.nodes[element.right]? = some s' →
      edge? p.mesh p.table f element =
        some ⟨element.left, element.right, c, s.potential + a, s'.potential + b⟩ := by
    intro f s s' hs hs'
    rw [edge?, hm]
    simp only [Option.bind_eq_bind, Option.bind_some, ha f s hs, hb f s' hs', hc, pure]
  have hpath : ∀ t, elementContributions p (field.setUnknown node' u t) element =
      Edge.contributions
        ⟨element.left, element.right, c, (left t).potential + a, (right t).potential + b⟩ ++
      if MaterialKind.isSemiconductor m then
        fluxContributions m p.table.temperature element
          ⟨element.left, element.right, c, (left t).potential + a, (right t).potential + b⟩
          (left t) (right t)
      else [] := by
    intro t
    rw [elementContributions, hedge _ _ _ (hleft t) (hright t), hm, hleft t, hright t]
  simp only [hpath]
  refine (consistent_edge c ((hleftMoves.rate .potential).add_const a)
    ((hrightMoves.rate .potential).add_const b)).append ?_
  split_ifs with hsemiconductor
  · have hcarriers : p.HoldsCarriers element := ⟨m, hm, hsemiconductor⟩
    obtain ⟨e, he⟩ := Array.mem_iff_getElem?.1 helement
    have hgoverns := h.governs _ hi element ⟨e, he, .inl (.inl rfl)⟩ hcarriers
    have hgoverns' := h.governs _ hj element ⟨e, he, .inl (.inr rfl)⟩ hcarriers
    obtain ⟨helectrons, hholes⟩ :=
      hsmooth.steps element helement hcarriers _ _ _ (hedge field l r hl hr) hl hr
    have hleftPos := hsmooth.carriers _ _ hl hgoverns
    have hrightPos := hsmooth.carriers _ _ hr hgoverns'
    subst hleftAt hrightAt
    exact consistent_flux m c hleftMoves hrightMoves rfl hleftPos hrightPos helectrons hholes
  · exact .nil

/-- **The contributions of a whole problem are consistent.** -/
theorem consistent_contributions (h : p.Sound) (hfield : field.nodeCount = p.nodeCount)
    (hsmooth : Smooth p field) :
    Consistent node node' sub u.sub (fun t => contributions p (field.setUnknown node' u t))
      (field.unknown node' u) := by
  have hsize : ∀ t, (field.setUnknown node' u t).nodes.size = field.nodes.size := fun t =>
    field.nodeCount_setUnknown node' u t
  simp only [contributions, Loop.flatten_mapIdx, hsize]
  refine .append (.flatMap fun element helement => ?_) (.flatMap fun i hi => ?_)
  · exact consistent_element h hfield hsmooth (Array.mem_toList_iff.1 helement)
  · rw [List.mem_range] at hi
    obtain ⟨state, hstate, -, hmoves⟩ := exists_moves (Array.getElem?_eq_getElem hi) node' u
    simp only [hstate, Option.elim_some, nodeContributions]
    exact consistent_charge hmoves _

/-- **The matrix is the exact Jacobian.** On a line whose nodes at semiconductor elements are
governed by semiconductors, let a setup start from a field where the fluxes have derivatives. Then
the right hand side of every equation but those of the contacts has a derivative by each unknown of
the system, those of the contacts included. It is the stored coefficient with the opposite sign, and
zero where none is stored. Coefficients are stored for nodes that are the same or joined by an
element. -/
theorem matrix_is_jacobian {regions : List Nat} {priority : Nat → Int}
    (hline : IsLine p.mesh regions priority) (hregions : regions ≠ [])
    (hmaterial : ∀ r ∈ regions, ∃ m, p.table.material? r = some m)
    (hgoverns : ∀ node < p.nodeCount, ∀ element, p.Borders node element →
      p.HoldsCarriers element → p.Governs node)
    {s : TwoCarrierState ℝ} (hs : Reachable p s) (hsmooth : Smooth p s.field) :
    ∃ t, setup p s = .ok () t ∧
      ∀ node sub, node ≠ 0 → node ≠ p.lastNode → sub < s.blockSizes.getD node 0 →
      ∀ node' (u : Unknown), u.sub < s.blockSizes.getD node' 0 →
        ∃ (rhs : ℝ → ℝ) (rate : ℝ),
          (∀ x, ∃ t', setup p { s with field := s.field.setUnknown node' u x } = .ok () t' ∧
            t'.assembly.matrix.blockRhs node sub = .ok (rhs x)) ∧
          HasDerivAt rhs rate (s.field.unknown node' u) ∧
          (p.Coupled node node' →
            t.assembly.matrix.blockEntry node node' sub u.sub = .ok (-rate)) ∧
          (¬ p.Coupled node node' →
            (∃ e, t.assembly.matrix.blockEntry node node' sub u.sub = .error e) ∧ rate = 0) := by
  have hsound := Problem.sound_of_isLine hline hregions hmaterial hgoverns
  have hshaped := hs.shaped
  obtain ⟨t, ht, hequations⟩ := amounts_setup hsound hshaped
  refine ⟨t, ht, fun node sub hfirst hlast hsub node' u hu => ?_⟩
  obtain ⟨-, hcoefficients⟩ := hequations hfirst hlast hsub
  obtain ⟨hcoupled, huncoupled⟩ := hcoefficients hu
  have hconsistent : Consistent node node' sub u.sub
      (fun x => contributions p (s.field.setUnknown node' u x)) (s.field.unknown node' u) :=
    consistent_contributions hsound hshaped.nodes hsmooth
  rw [Consistent, s.field.setUnknown_unknown] at hconsistent
  refine ⟨_, _, fun x => ?_, hconsistent, ?_, ?_⟩
  · have hnodes := (s.field.nodeCount_setUnknown node' u x).trans hshaped.nodes
    have hchanged : Shaped p { s with field := s.field.setUnknown node' u x } :=
      ⟨hnodes, hshaped.sizes, hshaped.equipped⟩
    obtain ⟨t', ht', hequations'⟩ := amounts_setup hsound hchanged
    exact ⟨t', ht', (hequations' hfirst hlast hsub).1⟩
  · intro h
    rw [neg_neg]
    exact hcoupled h
  · intro h
    obtain ⟨herror, hzero⟩ := huncoupled h
    exact ⟨herror, by rw [hzero, neg_zero]⟩

/-- Two elements of silicon between three nodes. -/
noncomputable def bar : Problem Physics.Material ℝ where
  mesh := ⟨#[⟨[0], 0⟩, ⟨[0, 1], 0⟩, ⟨[1], 0⟩], #[⟨0, 1, 1, 1, 0⟩, ⟨1, 2, 1, 1, 0⟩]⟩
  table := ⟨#[⟨.silicon, 0, 0⟩], 300⟩
  settings := .ofTolerances 1 1 1

theorem isLine_bar : IsLine bar.mesh [0, 0] fun _ => 0 where
  elements_size := rfl
  nodes_size := rfl
  element e he := by
    match e, he with
    | 0, _ => exact ⟨_, rfl, rfl, rfl, rfl⟩
    | 1, _ => exact ⟨_, rfl, rfl, rfl, rfl⟩
  node i hi := by
    match i, hi with
    | 0, _ => rfl
    | 1, _ => rfl
    | 2, _ => rfl

/-- Carriers of which the ones become more and the others fewer along the bar. -/
def slopedField : NodeField ℝ :=
  ⟨#[⟨1, 0, 0, 0, 1, 3, 0, 0⟩, ⟨1, 0, 0, 0, 2, 2, 0, 0⟩, ⟨1, 0, 0, 0, 3, 1, 0, 0⟩]⟩

theorem governs_bar (node : Nat) (h : node < bar.nodeCount) : bar.Governs node := by
  match node, h with
  | 0, _ => exact ⟨.silicon, rfl, rfl⟩
  | 1, _ => exact ⟨.silicon, rfl, rfl⟩
  | 2, _ => exact ⟨.silicon, rfl, rfl⟩

/-- Where neither the potential nor the intrinsic density rises, no band edge does. -/
theorem smooth_bar : Smooth bar slopedField := by
  have hstate : ∀ {i : Nat} {s : NodeState ℝ}, slopedField.nodes[i]? = some s →
      s.intrinsicDensity = 1 ∧ 0 < s.electronDensity ∧ 0 < s.holeDensity := by
    intro i s hs
    have hmem : s = ⟨1, 0, 0, 0, 1, 3, 0, 0⟩ ∨ s = ⟨1, 0, 0, 0, 2, 2, 0, 0⟩ ∨
        s = ⟨1, 0, 0, 0, 3, 1, 0, 0⟩ := by
      simpa [slopedField] using Array.mem_of_getElem? hs
    rcases hmem with rfl | rfl | rfl <;> norm_num
  constructor
  case carriers => exact fun node s hs _ => (hstate hs).2
  case steps =>
    intro element helement _ edge left right hedge hleft hright
    have hrise : edge.rise = 0 := by
      have helements : element = ⟨0, 1, 1, 1, 0⟩ ∨ element = ⟨1, 2, 1, 1, 0⟩ := by
        simpa [bar] using helement
      rcases helements with rfl | rfl <;> cases hedge <;> exact sub_self (0 : ℝ)
    have hlog : Real.log (right.intrinsicDensity / left.intrinsicDensity) = 0 := by
      rw [(hstate hleft).1, (hstate hright).1]
      norm_num
    have hne : |(0 : ℝ)| ≠ seriesThreshold := by
      rw [abs_zero]
      exact Physics.seriesThreshold_pos.ne
    rw [hrise]
    constructor
    · convert hne using 2
      exact (congrArg₂ (· + ·) (mul_zero _) hlog).trans (add_zero 0)
    · convert hne using 2
      exact (congrArg₂ (· + ·) (mul_zero _) hlog).trans (add_zero 0)

/-- In the bar the balance of the electrons at the inner node depends on the potential of the first
contact as the coefficient there says. -/
theorem matrix_is_jacobian_bar :
    ∃ s, start bar slopedField = .ok s ∧ ∃ t c, setup bar s = .ok () t ∧
      t.assembly.matrix.blockEntry 1 0 1 0 = .ok c ∧ ∃ rhs : ℝ → ℝ, HasDerivAt rhs (-c) 0 ∧
        ∀ x, ∃ t', setup bar { s with field := s.field.setUnknown 0 .potential x } = .ok () t' ∧
          t'.assembly.matrix.blockRhs 1 1 = .ok (rhs x) := by
  have hregions : [0, 0] ≠ ([] : List Nat) := by decide
  have hmaterial : ∀ r ∈ [0, 0], ∃ m, bar.table.material? r = some m := by
    intro r hr
    obtain rfl : r = 0 := by simpa using hr
    exact ⟨.silicon, rfl⟩
  have hgoverns : ∀ node < bar.nodeCount, ∀ element, bar.Borders node element →
      bar.HoldsCarriers element → bar.Governs node := fun node hnode _ _ _ => governs_bar node hnode
  have hsound := Problem.sound_of_isLine isLine_bar hregions hmaterial hgoverns
  have hcount : slopedField.nodeCount = bar.nodeCount := rfl
  obtain ⟨s, hs⟩ := exists_start hsound hcount
  obtain ⟨hshaped, hfield⟩ := shaped_start hs
  have hsmooth : Smooth bar s.field := by
    rw [hfield]
    exact smooth_bar
  have hblock : ∀ node < bar.nodeCount, ∀ u : Unknown, u.sub < s.blockSizes.getD node 0 :=
    fun node hnode => sub_lt_of_governs hshaped.sizes hnode (governs_bar node hnode)
  obtain ⟨t, ht, hequations⟩ := matrix_is_jacobian isLine_bar hregions hmaterial hgoverns
    (.start hs) hsmooth
  obtain ⟨rhs, rate, hrhs, hrate, hcoupled, -⟩ := hequations 1 1 (by decide) (by decide)
    (hblock 1 (by decide) .electronDensity) 0 .potential (hblock 0 (by decide) .potential)
  have hneighbours : bar.Coupled 1 0 := .inr ⟨⟨0, 1, 1, 1, 0⟩, by simp [bar], .inr ⟨rfl, rfl⟩⟩
  refine ⟨s, hs, t, -rate, ht, hcoupled hneighbours, rhs, ?_, hrhs⟩
  rw [neg_neg]
  rw [hfield] at hrate
  exact hrate

end TwoCarrier

end Newton

end CarrierTransport
