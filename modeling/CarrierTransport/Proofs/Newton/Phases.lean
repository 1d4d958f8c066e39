import Mathlib
import CarrierTransport.Newton.Poisson
import CarrierTransport.Newton.TwoCarrier
import CarrierTransport.Proofs.LinearSystem.Workspace
import CarrierTransport.Proofs.Newton.Assembly
import CarrierTransport.Proofs.Newton.Iteration
import CarrierTransport.Proofs.Newton.Update

/-!
# The phases of two iterations side by side

A state carries an assembly and a workspace on the places of its problem (`Problem.Equipped`), and
its field has a node for every node of the mesh. What the phases of an iteration do to such a state
depends on little of it: a setup on the field alone, a solve and an update on the field and the
assembly. So two states with the same field stay in step, whatever else they held before
(`NewtonStep.Lockstep`), and so does a state with itself, which is how its shape is kept.
-/

namespace CarrierTransport.Newton

open LinearSystem (BlockMatrix Couplings Envelope SolveObserver Workspace)
open LinearSystem.BlockMatrix
open Physics (MaterialKind MaterialModel)
open State (NodeField)
open Transition

/-! ### Assemblies and workspaces of a problem -/

namespace Problem

variable {M α : Type} [Scalar α] {p : Problem M α} {sizes : Array Nat}
  {stride : Nat} {a b : Assembly stride α} {ws ws' : Workspace α}

/-- An assembly and a workspace for blocks of the given sizes. -/
def Equipped (p : Problem M α) (sizes : Array Nat) (a : Assembly stride α) (ws : Workspace α) :
    Prop :=
  ∃ base, p.matrix sizes = .ok base ∧ a.Over base ∧ ws.Fits base.envelope

/-- The system of a problem is the empty one of its mesh, but for the tolerance. -/
theorem matrix_eq_ok :
    p.matrix sizes = .ok base ↔ ∃ m, ofTopology p.mesh sizes = .ok m ∧
      base = { m with pivotTolerance := p.settings.pivotTolerance } := by
  rw [matrix]
  cases ofTopology p.mesh sizes <;> simp [eq_comm]

theorem wellFormed_matrix (h : p.matrix sizes = .ok base) : base.WellFormed := by
  obtain ⟨m, hm, rfl⟩ := p.matrix_eq_ok.1 h
  exact (wellFormed_ofTopology hm).of_samePlaces ⟨rfl, rfl, rfl, rfl⟩

/-- What the system of a problem is like. -/
theorem of_matrix (h : p.matrix sizes = .ok base) :
    ∃ c, Couplings.ofTopology? p.mesh = some c ∧ sizes.size = p.nodeCount ∧
      base =
        { ofCouplings (.ofSizes sizes) c with pivotTolerance := p.settings.pivotTolerance } := by
  obtain ⟨m, hm, rfl⟩ := p.matrix_eq_ok.1 h
  obtain ⟨hcount, -, c, hc, rfl⟩ := ofTopology_eq_ok.1 hm
  exact ⟨c, hc, hcount, rfl⟩

theorem size_of_matrix (h : p.matrix sizes = .ok base) : sizes.size = p.nodeCount := by
  obtain ⟨m, hm, -⟩ := p.matrix_eq_ok.1 h
  exact (ofTopology_eq_ok.1 hm).1

theorem layout_matrix (h : p.matrix sizes = .ok base) : base.layout = .ofSizes sizes := by
  obtain ⟨c, -, -, rfl⟩ := p.of_matrix h
  rfl

theorem pivotTolerance_matrix (h : p.matrix sizes = .ok base) :
    base.pivotTolerance = p.settings.pivotTolerance := by
  obtain ⟨c, -, -, rfl⟩ := p.of_matrix h
  rfl

theorem sizes_matrix (h : p.matrix sizes = .ok base) : base.layout.sizes = sizes := by
  rw [p.layout_matrix h]
  rfl

theorem nodeCount_matrix (h : p.matrix sizes = .ok base) : base.layout.nodeCount = p.nodeCount := by
  rw [p.layout_matrix h]
  exact p.size_of_matrix h

/-- Every node has an unknown. -/
theorem size_pos_of_matrix (h : p.matrix sizes = .ok base) {node : Nat}
    (hnode : node < p.nodeCount) : 0 < base.layout.sizes.getD node 0 := by
  have hlt : node < sizes.size := p.size_of_matrix h ▸ hnode
  rw [p.sizes_matrix h, Array.getD_eq_getD_getElem?, Array.getElem?_eq_getElem hlt,
    Option.getD_some]
  obtain ⟨m, hm, -⟩ := p.matrix_eq_ok.1 h
  exact (ofTopology_eq_ok.1 hm).2.1 _ (Array.getElem_mem hlt)

/-- The elements end at nodes. -/
theorem ends_lt_of_matrix (h : p.matrix sizes = .ok base) {element : Mesh.Element α}
    (helement : element ∈ p.mesh.elements) :
    element.left < p.nodeCount ∧ element.right < p.nodeCount := by
  obtain ⟨c, hc, -, -⟩ := p.of_matrix h
  exact Couplings.ends_lt hc helement

theorem size_rhs_matrix (h : p.matrix sizes = .ok base) :
    base.rhs.size = base.layout.total := by
  obtain ⟨c, -, -, rfl⟩ := p.of_matrix h
  exact Array.size_replicate

theorem equipped_ofMatrix {m : BlockMatrix α} (h : p.matrix sizes = .ok m) :
    p.Equipped sizes (.ofMatrix m : Assembly stride α)
      (.ofEnvelope (Envelope.ofPattern m.pattern)) :=
  ⟨m, h, Assembly.over_ofMatrix m, Workspace.fits_ofEnvelope m.envelope⟩

theorem Equipped.wellFormed (h : p.Equipped sizes a ws) : a.matrix.WellFormed := by
  obtain ⟨base, hbase, hover, -⟩ := h
  exact (wellFormed_matrix hbase).of_samePlaces hover.matrix.toSamePlaces

theorem Equipped.pivotTolerance (h : p.Equipped sizes a ws) :
    a.matrix.pivotTolerance = p.settings.pivotTolerance := by
  obtain ⟨base, hbase, hover, -⟩ := h
  exact hover.matrix.pivotTolerance.trans (p.pivotTolerance_matrix hbase)

theorem Equipped.clear (h : p.Equipped sizes a ws) : p.Equipped sizes a ws.clear := by
  obtain ⟨base, hbase, hover, hfits⟩ := h
  exact ⟨base, hbase, hover, hfits.clear⟩

theorem Equipped.rebuild (h : p.Equipped sizes a ws) (cs : List (Contribution α)) (diagonal : α)
    (lastNode : Nat) :
    Ends (fun _ a => p.Equipped sizes a ws) (fun _ a => p.Equipped sizes a ws)
      (Assembly.rebuild cs diagonal lastNode a) := by
  obtain ⟨base, hbase, hover, hfits⟩ := h
  refine (hover.rebuild cs diagonal lastNode).mono ?_ ?_
  · exact fun _ a ha => ⟨base, hbase, ha, hfits⟩
  · exact fun _ a ha => ⟨base, hbase, ha, hfits⟩

theorem Equipped.rebuild_eq (ha : p.Equipped sizes a ws) (hb : p.Equipped sizes b ws')
    (cs : List (Contribution α)) (diagonal : α) (lastNode : Nat) :
    Assembly.rebuild cs diagonal lastNode a = Assembly.rebuild cs diagonal lastNode b := by
  obtain ⟨base, hbase, hover, -⟩ := ha
  obtain ⟨base', hbase', hover', -⟩ := hb
  cases hbase.symm.trans hbase'
  exact Assembly.rebuild_eq hover hover'

/-- What two solves of one system leave behind: the same system, and workspaces of its size. -/
def Solved (p : Problem M α) (sizes : Array Nat) (a : Assembly stride α)
    (s t : BlockMatrix α × Workspace α) : Prop :=
  t.1 = s.1 ∧ p.Equipped sizes ({ a with matrix := s.1 } : Assembly stride α) s.2 ∧
    p.Equipped sizes ({ a with matrix := t.1 } : Assembly stride α) t.2

/-- A solve with the workspace ends as one without it. -/
theorem Equipped.solveIn_eq (h : p.Equipped sizes a ws) :
    ∃ ws', p.Equipped sizes ({ a with matrix := left (solve a.matrix) } : Assembly stride α) ws' ∧
      BlockMatrix.solveIn (a.matrix, ws) = match solve a.matrix with
        | .ok u s => .ok u (s, ws')
        | .error e s => .error e (s, ws') := by
  have hwell := h.wellFormed
  obtain ⟨base, hbase, hover, hfits⟩ := h
  rw [← hover.matrix.envelope] at hfits
  obtain ⟨ws', hws', hsolve⟩ := BlockMatrix.solveIn_eq hwell hfits
  rw [hover.matrix.envelope] at hws'
  have hsame := hover.matrix.trans (sameSystem_solve hwell)
  exact ⟨ws', ⟨base, hbase, ⟨hsame, hover.scales, hover.couplings⟩, hws'⟩, hsolve⟩

theorem Equipped.solveIn (h : p.Equipped sizes a ws) (h' : p.Equipped sizes a ws') :
    EndAlike (p.Solved sizes a) (p.Solved sizes a) (solveIn (a.matrix, ws))
      (solveIn (a.matrix, ws')) := by
  obtain ⟨u, hu, hsolve⟩ := h.solveIn_eq
  obtain ⟨v, hv, hsolve'⟩ := h'.solveIn_eq
  rw [hsolve, hsolve']
  cases hr : solve a.matrix with
  | ok b s =>
    rw [hr] at hu hv
    exact .ok b ⟨rfl, hu, hv⟩
  | error e s =>
    rw [hr] at hu hv
    exact .error e ⟨rfl, hu, hv⟩

theorem Solved.solveIn {s t : BlockMatrix α × Workspace α} (h : p.Solved sizes a s t) :
    EndAlike (p.Solved sizes a) (p.Solved sizes a) (BlockMatrix.solveIn s)
      (BlockMatrix.solveIn t) := by
  obtain ⟨m, ws⟩ := s
  obtain ⟨m', ws'⟩ := t
  obtain ⟨hm, hs, ht⟩ := h
  obtain rfl : m' = m := hm
  exact hs.solveIn ht

end Problem

/-! ### Iterations in step -/

namespace NewtonStep

variable {α σ ω : Type}

/-- Two states related by `alike` are in step: a setup relates them by `assembled`, and keeps what
an update related by `updated`. -/
structure Lockstep (step : NewtonStep α σ ω) (alike assembled updated : σ → σ → Prop) : Prop where
  setup : ∀ {s t} (w : ω), alike s t →
    EndAlike (fun x y => (assembled x.1 y.1 ∧ (updated s t → updated x.1 y.1)) ∧ x.2 = y.2)
      (fun x y => alike x.1 y.1 ∧ x.2 = y.2) (step.setup (s, w)) (step.setup (t, w))
  solve : ∀ {s t} (w : ω), assembled s t →
    EndAlike (fun x y => assembled x.1 y.1 ∧ x.2 = y.2) (fun x y => alike x.1 y.1 ∧ x.2 = y.2)
      (step.solve (s, w)) (step.solve (t, w))
  update : ∀ {s t} (w : ω), assembled s t →
    EndAlike (fun x y => (alike x.1 y.1 ∧ updated x.1 y.1) ∧ x.2 = y.2)
      (fun x y => alike x.1 y.1 ∧ x.2 = y.2) (step.update (s, w)) (step.update (t, w))
  weaken : ∀ {s t}, assembled s t → alike s t
  field : ∀ {s t}, alike s t → step.field s = step.field t
  isConverged : ∀ {s t}, assembled s t → updated s t → step.isConverged s = step.isConverged t

variable {step : NewtonStep α σ ω} {alike assembled updated : σ → σ → Prop}

theorem Lockstep.round (h : step.Lockstep alike assembled updated) (observe : Observer α ω)
    (number : Nat) {s t : σ} (w : ω) (hst : assembled s t) :
    EndAlike (fun x y => (assembled x.1 y.1 ∧ updated x.1 y.1) ∧ x.2 = y.2)
      (fun x y => alike x.1 y.1 ∧ x.2 = y.2)
      (step.round observe number (s, w)) (step.round observe number (t, w)) := by
  refine (h.solve w hst).bind ?_
  rintro _ ⟨s, w⟩ ⟨t, _⟩ ⟨hst, rfl⟩
  refine (h.update w hst).bind ?_
  rintro _ ⟨s, w⟩ ⟨t, _⟩ ⟨⟨halike, hupdated⟩, rfl⟩
  refine (h.setup w halike).bind ?_
  rintro _ ⟨s, w⟩ ⟨t, _⟩ ⟨⟨hst, hkept⟩, rfl⟩
  change EndAlike _ _ (onSecond (observe number (step.field s)) (s, w))
    (onSecond (observe number (step.field t)) (t, w))
  rw [h.field (h.weaken hst)]
  refine .onSecond _ w ?_ ?_
  · exact fun v => ⟨⟨hst, hkept hupdated⟩, rfl⟩
  · exact fun v => ⟨h.weaken hst, rfl⟩

/-- Whole iterations stay in step. -/
theorem Lockstep.run (h : step.Lockstep alike assembled updated) (observe : Observer α ω)
    {s t : σ} (w : ω) (hst : alike s t) :
    EndAlike (fun x y => (assembled x.1 y.1 ∧ updated x.1 y.1) ∧ x.2 = y.2)
      (fun x y => alike x.1 y.1 ∧ x.2 = y.2) (step.run observe (s, w)) (step.run observe (t, w)) := by
  refine run_alike (fun x y => assembled x.1 y.1 ∧ x.2 = y.2) ?_ ?_ ?_ ?_ rfl
  · refine (h.setup w hst).mono ?_ ?_
    · exact fun x y hxy => ⟨hxy.1.1, hxy.2⟩
    · exact fun x y hxy => hxy
  · rintro number ⟨s, w⟩ ⟨t, _⟩ ⟨hst, rfl⟩
    exact h.round observe number w hst
  · rintro x y ⟨⟨hxy, hupdated⟩, hw⟩
    exact ⟨⟨hxy, hw⟩, h.isConverged hxy hupdated⟩
  · rintro x y ⟨hxy, hw⟩
    exact ⟨h.weaken hxy, hw⟩

end NewtonStep

/-! ### Contacts -/

section Contacts

variable {M α : Type} [Scalar α] [MaterialModel M α]

/-- A contact is placed at its built-in potential, changed by an offset, and nothing else changes. -/
theorem placeContact_eq (p : Problem M α) (node : Nat) (offset : α → α) (field : NodeField α) :
    placeContact p node offset field =
      match builtInPotential p field node with
      | .ok v => .ok () ⟨field.nodes.modify node fun s => { s with potential := offset v }⟩
      | .error e => .error e field := by
  rw [placeContact, replace]
  cases hv : builtInPotential p field node with
  | error e => rfl
  | ok v =>
    have hnode : node < field.nodes.size := by
      by_contra hge
      rw [builtInPotential, Array.getElem?_eq_none (not_lt.1 hge)] at hv
      split at hv
      · next hnone => cases hnone
      · cases hv
    simp only [bind, Except.bind, pure, Except.pure, NodeField.modify?, if_pos hnode,
      Option.getD_some]
    rfl

theorem nodeCount_placeContact (p : Problem M α) (node : Nat) (offset : α → α)
    (field : NodeField α) :
    Ends (fun _ f => f.nodeCount = field.nodeCount) (fun _ f => f.nodeCount = field.nodeCount)
      (placeContact p node offset field) := by
  rw [placeContact_eq]
  cases builtInPotential p field node with
  | error e => exact .error rfl
  | ok v => exact .ok Array.size_modify

theorem nodeCount_placeContacts (p : Problem M α) (voltage : α) (field : NodeField α) :
    Ends (fun _ f => f.nodeCount = field.nodeCount) (fun _ f => f.nodeCount = field.nodeCount)
      (placeContacts p voltage field) := by
  refine (nodeCount_placeContact p 0 id field).bind fun _ f hf => ?_
  rw [← hf]
  exact nodeCount_placeContact p p.lastNode (voltage + ·) f

end Contacts

/-! ### The equilibrium iteration -/

namespace Poisson

variable {M α : Type} [Scalar α] {p : Problem M α} {s t : PoissonState α}

/-- A state whose field and arrays have the sizes of the problem. -/
structure Shaped (p : Problem M α) (s : PoissonState α) : Prop where
  nodes : s.field.nodeCount = p.nodeCount
  equipped : p.Equipped (Array.replicate p.nodeCount 1) s.assembly s.workspace

/-- Two states with the same field. -/
structure Alike (p : Problem M α) (s t : PoissonState α) : Prop where
  left : Shaped p s
  right : Shaped p t
  field : t.field = s.field

/-- Two states that a setup or a solve has left with the same system. -/
structure Assembled (p : Problem M α) (s t : PoissonState α) : Prop extends Alike p s t where
  assembly : t.assembly = s.assembly
  residuals : t.residuals = s.residuals
  residualConverged : t.residualConverged = s.residualConverged

/-- Two states with the same report of the last update. -/
structure Updated (s t : PoissonState α) : Prop where
  increment : t.increment = s.increment
  incrementConverged : t.incrementConverged = s.incrementConverged

theorem shaped_start {field : NodeField α} (h : start p field = .ok s) :
    Shaped p s ∧ s.field = field := by
  obtain ⟨_, hvalid, h⟩ := except_bind_eq_ok.1 h
  obtain ⟨m, hm, h⟩ := except_bind_eq_ok.1 h
  cases h
  rw [Problem.validate] at hvalid
  split_ifs at hvalid with hcount hsize
  exact ⟨⟨not_not.1 hsize, p.equipped_ofMatrix hm⟩, rfl⟩

theorem Assembled.eq (h : Assembled p s t) (h' : Updated s t) :
    t = { s with workspace := t.workspace } := by
  obtain ⟨⟨-, -, hfield⟩, hassembly, hresiduals, hresidualConverged⟩ := h
  obtain ⟨hincrement, hincrementConverged⟩ := h'
  cases s
  cases t
  cases hfield
  cases hassembly
  cases hresiduals
  cases hresidualConverged
  cases hincrement
  cases hincrementConverged
  rfl

theorem solve_alike (h : Assembled p s t) :
    EndAlike (Assembled p) (Alike p) (solve s) (solve t) := by
  have hright := h.right.equipped
  rw [h.assembly] at hright
  refine .widenError _ (.zoom ?_)
  dsimp only
  rw [h.assembly]
  refine (h.left.equipped.solveIn hright).mono ?_ ?_
  · rintro ⟨m, ws⟩ ⟨_, ws'⟩ ⟨rfl, hs, ht⟩
    exact ⟨⟨⟨h.left.nodes, hs⟩, ⟨h.right.nodes, ht⟩, h.field⟩, rfl, h.residuals,
      h.residualConverged⟩
  · rintro ⟨m, ws⟩ ⟨_, ws'⟩ ⟨rfl, hs, ht⟩
    exact ⟨⟨h.left.nodes, hs⟩, ⟨h.right.nodes, ht⟩, h.field⟩

theorem update_alike (h : Assembled p s t) :
    Alike p (update p s) (update p t) ∧ Updated (update p s) (update p t) := by
  have hfield : (update p t).field = (update p s).field := by
    rw [update, update, h.field, h.assembly]
  have hnodes : (update p s).field.nodeCount = p.nodeCount := by
    rw [← h.left.nodes]
    exact Array.size_mapIdx
  refine ⟨⟨⟨hnodes, h.left.equipped⟩, ⟨?_, h.right.equipped⟩, hfield⟩, ?_, ?_⟩
  · rw [hfield, hnodes]
  · rw [update, update, h.field, h.assembly]
  · rw [update, update, h.field, h.assembly]

variable [MaterialModel M α] [BEq M]

theorem setup_eq (p : Problem M α) (s : PoissonState α) :
    setup p s =
      match Assembly.rebuild (contributions p s.field) p.settings.dirichletDiagonal p.lastNode
          s.assembly with
      | .error e a => .error (.matrix e) { s with workspace := s.workspace.clear, assembly := a }
      | .ok _ a => match checkResidual p a with
        | .error e => .error (.matrix e) { s with workspace := s.workspace.clear, assembly := a }
        | .ok report => .ok () { s with
            workspace := s.workspace.clear
            assembly := a
            residuals := report
            residualConverged := report.coupled.magnitude < p.settings.residualTolerance } := by
  change EStateM.bind (widenError NewtonError.matrix (zoom PoissonState.assembly _
    (Assembly.rebuild (contributions p s.field) _ _))) _
    { s with workspace := s.workspace.clear } = _
  rw [EStateM.bind, widenError, zoom]
  cases Assembly.rebuild (contributions p s.field) p.settings.dirichletDiagonal p.lastNode
    s.assembly with
  | error e a => rfl
  | ok u a =>
    dsimp only [replace]
    cases checkResidual p a <;> rfl

/-- What a setup that succeeds did. -/
theorem of_setup (h : setup p s = .ok () t) :
    Assembly.rebuild (contributions p s.field) p.settings.dirichletDiagonal p.lastNode s.assembly =
      .ok () t.assembly ∧ t.field = s.field := by
  rw [setup_eq] at h
  split at h
  · cases h
  · next a hrebuild =>
    split at h
    · cases h
    · cases h
      exact ⟨hrebuild, rfl⟩

theorem setup_alike (h : Alike p s t) :
    EndAlike (fun s' t' => Assembled p s' t' ∧ (Updated s t → Updated s' t')) (Alike p)
      (setup p s) (setup p t) := by
  have hleft := h.left.equipped.clear.rebuild (contributions p s.field)
    p.settings.dirichletDiagonal p.lastNode
  have hright := h.right.equipped.clear.rebuild (contributions p s.field)
    p.settings.dirichletDiagonal p.lastNode
  rw [setup_eq, setup_eq, h.field]
  rw [← h.left.equipped.rebuild_eq h.right.equipped] at hright ⊢
  cases hr : Assembly.rebuild (contributions p s.field) p.settings.dirichletDiagonal p.lastNode
    s.assembly with
  | error e a =>
    rw [hr] at hleft hright
    exact .error _ ⟨⟨h.left.nodes, hleft.left⟩, ⟨h.left.nodes, hright.left⟩, rfl⟩
  | ok u a =>
    rw [hr] at hleft hright
    dsimp only
    cases checkResidual p a with
    | error e =>
      exact .error _ ⟨⟨h.left.nodes, hleft.left⟩, ⟨h.left.nodes, hright.left⟩, rfl⟩
    | ok report =>
      exact .ok _ ⟨⟨⟨⟨h.left.nodes, hleft.left⟩, ⟨h.left.nodes, hright.left⟩, rfl⟩, rfl, rfl, rfl⟩,
        fun hupdated => ⟨hupdated.increment, hupdated.incrementConverged⟩⟩

/-- Two equilibrium iterations on the same field stay in step. -/
theorem lockstep (p : Problem M α) (ω : Type) :
    (step p : NewtonStep α (PoissonState α) ω).Lockstep (Alike p) (Assembled p) Updated where
  setup w h := .onFirst ((setup_alike h).mono (fun _ _ h => ⟨h, rfl⟩) fun _ _ h => ⟨h, rfl⟩)
  solve w h := .onFirst ((solve_alike h).mono (fun _ _ h => ⟨h, rfl⟩) fun _ _ h => ⟨h, rfl⟩)
  update w h := .onFirst (.ok () ⟨update_alike h, rfl⟩)
  weaken h := h.toAlike
  field h := h.field.symm
  isConverged h h' := by
    change (_ && _) = (_ && _)
    rw [h'.incrementConverged, h.residualConverged]

omit [BEq M] in
theorem setVoltage_alike (h : Alike p s t) (voltage : α) :
    EndAlike (Alike p) (Alike p) (setVoltage p voltage s) (setVoltage p voltage t) := by
  have hcontacts := nodeCount_placeContacts p voltage s.field
  refine .zoom ?_
  rw [h.field]
  have hkept : ∀ f g : NodeField α, g = f ∧ f.nodeCount = s.field.nodeCount →
      Alike p { s with field := f } { t with field := g } := by
    rintro f _ ⟨rfl, hf⟩
    exact ⟨⟨hf.trans h.left.nodes, h.left.equipped⟩, ⟨hf.trans h.left.nodes, h.right.equipped⟩, rfl⟩
  exact hcontacts.endAlike.mono hkept hkept

end Poisson

/-! ### The two-carrier iteration -/

namespace TwoCarrier

variable {M α : Type} [Scalar α]

section Shape

variable [MaterialKind M] {p : Problem M α} {s t : TwoCarrierState α}

/-- A state whose field and arrays have the sizes of the problem. -/
structure Shaped (p : Problem M α) (s : TwoCarrierState α) : Prop where
  nodes : s.field.nodeCount = p.nodeCount
  sizes : blockSizes p = .ok s.blockSizes
  equipped : p.Equipped s.blockSizes s.assembly s.workspace

/-- Two states with the same field. -/
structure Alike (p : Problem M α) (s t : TwoCarrierState α) : Prop where
  left : Shaped p s
  right : Shaped p t
  field : t.field = s.field

/-- Two states that a setup or a solve has left with the same system. -/
structure Assembled (p : Problem M α) (s t : TwoCarrierState α) : Prop extends Alike p s t where
  assembly : t.assembly = s.assembly
  residuals : t.residuals = s.residuals
  residualConverged : t.residualConverged = s.residualConverged

/-- Two states with the same reports of the last update. -/
structure Updated (s t : TwoCarrierState α) : Prop where
  increments : t.increments = s.increments
  incrementConverged : t.incrementConverged = s.incrementConverged
  dampingFactor : t.dampingFactor = s.dampingFactor

theorem shaped_start {field : NodeField α} (h : start p field = .ok s) :
    Shaped p s ∧ s.field = field := by
  obtain ⟨_, hvalid, h⟩ := except_bind_eq_ok.1 h
  obtain ⟨sizes, hsizes, h⟩ := except_bind_eq_ok.1 h
  obtain ⟨m, hm, h⟩ := except_bind_eq_ok.1 h
  cases h
  rw [Problem.validate] at hvalid
  split_ifs at hvalid with hcount hsize
  exact ⟨⟨not_not.1 hsize, hsizes, p.equipped_ofMatrix hm⟩, rfl⟩

theorem Shaped.fitting (h : Shaped p s) : Fitting s := by
  obtain ⟨base, hbase, hover, -⟩ := h.equipped
  constructor
  case sizes => rw [hover.matrix.layout, p.sizes_matrix hbase]
  case nodes => rw [p.size_of_matrix hbase, h.nodes]
  case pos => exact pos_of_mem_blockSizes h.sizes

theorem Alike.blockSizes (h : Alike p s t) : t.blockSizes = s.blockSizes :=
  Except.ok.inj (h.right.sizes.symm.trans h.left.sizes)

theorem Assembled.eq (h : Assembled p s t) (h' : Updated s t) :
    t = { s with workspace := t.workspace } := by
  have hsizes := h.blockSizes
  obtain ⟨⟨-, -, hfield⟩, hassembly, hresiduals, hresidualConverged⟩ := h
  obtain ⟨hincrements, hincrementConverged, hdampingFactor⟩ := h'
  cases s
  cases t
  cases hsizes
  cases hfield
  cases hassembly
  cases hresiduals
  cases hresidualConverged
  cases hincrements
  cases hincrementConverged
  cases hdampingFactor
  rfl

omit [MaterialKind M] in
theorem lookIn_alike {ω : Type} {sizes : Array Nat} {a : Assembly semiconductorBlock α}
    (observe : BlockMatrix α → EStateM StorageError ω Unit) {x y : BlockMatrix α × Workspace α}
    (h : p.Solved sizes a x y) (w : ω) :
    EndAlike (fun x y => p.Solved sizes a x.1 y.1 ∧ x.2 = y.2)
      (fun x y => p.Solved sizes a x.1 y.1 ∧ x.2 = y.2)
      (SolveObserver.lookIn observe (x, w)) (SolveObserver.lookIn observe (y, w)) := by
  obtain ⟨m, ws⟩ := x
  obtain ⟨m', ws'⟩ := y
  obtain ⟨hm, hs, ht⟩ := h
  obtain rfl : m' = m := hm
  refine .zoom ?_
  simp only [SolveObserver.look]
  cases observe m' w with
  | ok u w => exact .ok _ ⟨⟨rfl, hs, ht⟩, rfl⟩
  | error e w => exact .error _ ⟨⟨rfl, hs, ht⟩, rfl⟩

theorem solve_alike {ω : Type} (observer : SolveObserver α ω) (h : Assembled p s t) (w : ω) :
    EndAlike (fun x y => Assembled p x.1 y.1 ∧ x.2 = y.2) (fun x y => Alike p x.1 y.1 ∧ x.2 = y.2)
      (solve observer (s, w)) (solve observer (t, w)) := by
  have hright := h.right.equipped
  rw [h.assembly, h.blockSizes] at hright
  have hkept : ∀ {x y : BlockMatrix α × Workspace α}, p.Solved s.blockSizes s.assembly x y →
      Assembled p
        { s with assembly := { s.assembly with matrix := x.1 }, workspace := x.2 }
        { t with assembly := { s.assembly with matrix := y.1 }, workspace := y.2 } := by
    rintro ⟨m, ws⟩ ⟨_, ws'⟩ ⟨rfl, hs, ht⟩
    rw [← h.blockSizes] at ht
    exact ⟨⟨⟨h.left.nodes, h.left.sizes, hs⟩, ⟨h.right.nodes, h.right.sizes, ht⟩, h.field⟩, rfl,
      h.residuals, h.residualConverged⟩
  refine .widenError _ (.zoom ?_)
  dsimp only
  rw [h.assembly]
  have hsolve : EndAlike (fun x y => p.Solved s.blockSizes s.assembly x.1 y.1 ∧ x.2 = y.2)
      (fun x y => p.Solved s.blockSizes s.assembly x.1 y.1 ∧ x.2 = y.2)
      (solveObservedIn observer ((s.assembly.matrix, s.workspace), w))
      (solveObservedIn observer ((s.assembly.matrix, t.workspace), w)) := by
    have hbefore : p.Solved s.blockSizes s.assembly (s.assembly.matrix, s.workspace)
        (s.assembly.matrix, t.workspace) := ⟨rfl, h.left.equipped, hright⟩
    refine (lookIn_alike observer.before hbefore w).bind ?_
    rintro _ ⟨x, w⟩ ⟨y, _⟩ ⟨hxy, rfl⟩
    have hsolve : EndAlike (fun x y => p.Solved s.blockSizes s.assembly x.1 y.1 ∧ x.2 = y.2)
        (fun x y => p.Solved s.blockSizes s.assembly x.1 y.1 ∧ x.2 = y.2)
        (onFirst BlockMatrix.solveIn (x, w)) (onFirst BlockMatrix.solveIn (y, w)) :=
      .onFirst (hxy.solveIn.mono (fun _ _ h => ⟨h, rfl⟩) fun _ _ h => ⟨h, rfl⟩)
    refine hsolve.bind ?_
    rintro _ ⟨x, w⟩ ⟨y, _⟩ ⟨hxy, rfl⟩
    exact lookIn_alike observer.after hxy w
  refine hsolve.mono ?_ ?_
  · exact fun x y hxy => ⟨hkept hxy.1, hxy.2⟩
  · exact fun x y hxy => ⟨(hkept hxy.1).toAlike, hxy.2⟩

omit [MaterialKind M] in
theorem nodeCount_advanceField {settings : Settings α} {factor : α} {field : NodeField α}
    (h : advanceField settings s factor = .ok field) :
    field.nodeCount = min s.field.nodeCount s.blockSizes.size := by
  obtain ⟨states, hstates, h⟩ := except_bind_eq_ok.1 h
  cases h
  rw [Loop.mapM_eq_ok] at hstates
  simpa [NodeField.nodeCount] using hstates.length_eq.symm

theorem update_alike (settings : Settings α) (h : Assembled p s t) :
    EndAlike (fun s t => Alike p s t ∧ Updated s t) (Alike p) (replace (update settings) s)
      (replace (update settings) t) := by
  have htargets : dampingTargets t = dampingTargets s := by
    rw [dampingTargets, dampingTargets, h.field, h.assembly, h.blockSizes]
  have hadvance : advanceField settings t = advanceField settings s := by
    funext factor
    rw [advanceField, advanceField, h.field, h.assembly, h.blockSizes]
  have hsize : s.blockSizes.size = p.nodeCount := by
    obtain ⟨base, hbase, -⟩ := h.left.equipped
    exact p.size_of_matrix hbase
  rw [replace, replace, update, update, htargets, hadvance, h.assembly, h.blockSizes]
  cases dampingTargets s with
  | error e => exact .error _ h.toAlike
  | ok targets =>
    simp only [Except.mapError, bind, Except.bind]
    cases Damping.find settings.densityFloor targets with
    | error halvings => exact .error _ h.toAlike
    | ok factor =>
      dsimp only
      cases hfield : advanceField settings s factor with
      | error e => exact .error _ h.toAlike
      | ok field =>
        have hnodes : field.nodeCount = p.nodeCount := by
          rw [nodeCount_advanceField hfield, h.left.nodes, hsize, min_self]
        dsimp only
        cases incrementReports s.assembly.matrix field (unknowns s.blockSizes) with
        | error e => exact .error _ h.toAlike
        | ok reports =>
          have hequipped := h.right.equipped
          rw [h.blockSizes, h.assembly] at hequipped
          exact .ok _ ⟨⟨⟨hnodes, h.left.sizes, h.left.equipped⟩,
            ⟨hnodes, h.left.sizes, hequipped⟩, rfl⟩, rfl, rfl, rfl⟩

end Shape

variable [MaterialModel M α] [BEq M] {p : Problem M α} {s t : TwoCarrierState α}

theorem setup_eq (p : Problem M α) (s : TwoCarrierState α) :
    setup p s =
      match Assembly.rebuild (contributions p s.field) p.settings.dirichletDiagonal p.lastNode
          s.assembly with
      | .error e a => .error (.matrix e) { s with workspace := s.workspace.clear, assembly := a }
      | .ok _ a => match checkResidual s.blockSizes a with
        | .error e => .error (.matrix e) { s with workspace := s.workspace.clear, assembly := a }
        | .ok reports => .ok () { s with
            workspace := s.workspace.clear
            assembly := a
            residuals := reports
            residualConverged := reports.toList.all fun report =>
              report.coupled.magnitude < p.settings.residualTolerance } := by
  change EStateM.bind (widenError NewtonError.matrix (zoom TwoCarrierState.assembly _
    (Assembly.rebuild (contributions p s.field) _ _))) _
    { s with workspace := s.workspace.clear } = _
  rw [EStateM.bind, widenError, zoom]
  cases Assembly.rebuild (contributions p s.field) p.settings.dirichletDiagonal p.lastNode
    s.assembly with
  | error e a => rfl
  | ok u a =>
    dsimp only [replace]
    cases checkResidual s.blockSizes a <;> rfl

/-- A setup that succeeds has assembled its contributions, and the field is as it was. -/
theorem of_setup (h : setup p s = .ok () t) :
    Assembly.rebuild (contributions p s.field) p.settings.dirichletDiagonal p.lastNode s.assembly =
      .ok () t.assembly ∧ t.field = s.field := by
  rw [setup_eq] at h
  split at h
  · cases h
  · next a hrebuild =>
    split at h
    · cases h
    · cases h
      exact ⟨hrebuild, rfl⟩

theorem setup_alike (h : Alike p s t) :
    EndAlike (fun s' t' => Assembled p s' t' ∧ (Updated s t → Updated s' t')) (Alike p)
      (setup p s) (setup p t) := by
  have hequipped := h.right.equipped
  rw [h.blockSizes] at hequipped
  have hleft := h.left.equipped.clear.rebuild (contributions p s.field)
    p.settings.dirichletDiagonal p.lastNode
  have hright := hequipped.clear.rebuild (contributions p s.field)
    p.settings.dirichletDiagonal p.lastNode
  rw [setup_eq, setup_eq, h.field, h.blockSizes]
  rw [← h.left.equipped.rebuild_eq hequipped] at hright ⊢
  cases hr : Assembly.rebuild (contributions p s.field) p.settings.dirichletDiagonal p.lastNode
    s.assembly with
  | error e a =>
    rw [hr] at hleft hright
    exact .error _ ⟨⟨h.left.nodes, h.left.sizes, hleft.left⟩,
      ⟨h.left.nodes, h.left.sizes, hright.left⟩, rfl⟩
  | ok u a =>
    rw [hr] at hleft hright
    dsimp only
    cases checkResidual s.blockSizes a with
    | error e =>
      exact .error _ ⟨⟨h.left.nodes, h.left.sizes, hleft.left⟩,
        ⟨h.left.nodes, h.left.sizes, hright.left⟩, rfl⟩
    | ok report =>
      refine .ok _ ⟨⟨⟨⟨h.left.nodes, h.left.sizes, hleft.left⟩,
        ⟨h.left.nodes, h.left.sizes, hright.left⟩, rfl⟩, rfl, rfl, rfl⟩, fun hupdated => ?_⟩
      exact ⟨hupdated.increments, hupdated.incrementConverged, hupdated.dampingFactor⟩

/-- Two two-carrier iterations on the same field stay in step. -/
theorem lockstep {ω : Type} (p : Problem M α) (observer : SolveObserver α ω) :
    (step p observer).Lockstep (Alike p) (Assembled p) Updated where
  setup w h := .onFirst ((setup_alike h).mono (fun _ _ h => ⟨h, rfl⟩) fun _ _ h => ⟨h, rfl⟩)
  solve w h := solve_alike observer h w
  update w h := by
    refine .onFirst ?_
    rw [h.left.fitting.updateInPlace_eq, h.right.fitting.updateInPlace_eq]
    exact (update_alike p.settings h).mono (fun _ _ h => ⟨h, rfl⟩) fun _ _ h => ⟨h, rfl⟩
  weaken h := h.toAlike
  field h := h.field.symm
  isConverged h h' := by
    change (_ && _) = (_ && _)
    rw [h'.incrementConverged, h.residualConverged]

omit [BEq M] in
theorem setVoltage_alike (h : Alike p s t) (voltage : α) :
    EndAlike (Alike p) (Alike p) (setVoltage p voltage s) (setVoltage p voltage t) := by
  have hcontacts := nodeCount_placeContacts p voltage s.field
  refine .zoom ?_
  rw [h.field]
  have hkept : ∀ f g : NodeField α, g = f ∧ f.nodeCount = s.field.nodeCount →
      Alike p { s with field := f } { t with field := g } := by
    rintro f _ ⟨rfl, hf⟩
    exact ⟨⟨hf.trans h.left.nodes, h.left.sizes, h.left.equipped⟩,
      ⟨hf.trans h.left.nodes, h.right.sizes, h.right.equipped⟩, rfl⟩
  exact hcontacts.endAlike.mono hkept hkept

end TwoCarrier

end CarrierTransport.Newton
