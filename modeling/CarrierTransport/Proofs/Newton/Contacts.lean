import Mathlib
import CarrierTransport.Proofs.LinearSystem.Solve
import CarrierTransport.Proofs.Newton.History
import CarrierTransport.Proofs.Newton.Sound

/-!
# Contacts stay where they were put

The equations of the contacts are `diagonal * x = 0`, so over an exact scalar type a solve that
succeeds finds no increment there (`BlockMatrix.IsDirichlet.solution_eq_zero`), and an update that
adds increments leaves the contacts alone. Hence every field that a run shows its observer, and the
one it ends with, has the contacts at the potentials they were placed at (`contacts_held`).
-/

namespace CarrierTransport

open LinearSystem (BlockMatrix SolveObserver Workspace)
open LinearSystem.BlockMatrix
open Physics (MaterialKind MaterialModel)
open State (NodeField NodeState)
open Transition

/-! ### Solutions of contact equations -/

/-- Where the equation of a row is `diagonal * x = 0`, a solve finds zero. -/
theorem LinearSystem.BlockMatrix.IsDirichlet.solution_eq_zero {α : Type} [ExactScalar α]
    {m s : BlockMatrix α} {diagonal : α} {row : Nat} (h : m.IsDirichlet diagonal row)
    (hm : m.WellFormed) (hmin : 0 < (Scalar.minPositive : α))
    (htolerance : Scalar.minPositive ≤ m.pivotTolerance) (hdiagonal : diagonal ≠ 0)
    (hplace : row ∈ m.columnsOf row) (hsolve : solve m = .ok () s) :
    s.solution.getD row 0 = 0 := by
  obtain ⟨hpivot, rfl⟩ := of_solve_eq_ok hsolve
  obtain ⟨-, hsolved⟩ := hm.solves_solutionOf hmin fun row hrow =>
    htolerance.trans (hpivot row hrow)
  have hrow : row < m.rowCount := hm.lt row row hplace
  have hsum := hsolved row hrow
  rw [Finset.sum_eq_single row, h.coefficient_eq hplace, if_pos rfl, h.2] at hsum
  · exact (mul_eq_zero.1 hsum).resolve_left hdiagonal
  · intro column _ hne
    rw [h.coefficient_eq hplace, if_neg hne, zero_mul]
  · intro hnot
    exact absurd (Finset.mem_range.2 hrow) hnot

namespace Newton

/-! ### Contacts of two fields -/

namespace Problem

variable {M α : Type} (p : Problem M α)

/-- The two ends of the device. -/
def IsContact (node : Nat) : Prop :=
  node = 0 ∨ node = p.lastNode

/-- At the contacts the states of two fields are related. -/
def AtContacts (keep : NodeState α → NodeState α → Prop) (f f' : NodeField α) : Prop :=
  ∀ node, p.IsContact node → ∀ s, f.nodes[node]? = some s →
    ∃ s', f'.nodes[node]? = some s' ∧ keep s s'

variable {p} {keep keep' : NodeState α → NodeState α → Prop} {f f' f'' : NodeField α}

theorem AtContacts.refl (hkeep : ∀ s, keep s s) (f : NodeField α) : p.AtContacts keep f f :=
  fun _ _ s hs => ⟨s, hs, hkeep s⟩

theorem AtContacts.trans (hkeep : ∀ s s' s'', keep s s' → keep s' s'' → keep s s'')
    (h : p.AtContacts keep f f') (h' : p.AtContacts keep f' f'') : p.AtContacts keep f f'' := by
  intro node hnode s hs
  obtain ⟨s', hs', hkept⟩ := h node hnode s hs
  obtain ⟨s'', hs'', hkept'⟩ := h' node hnode s' hs'
  exact ⟨s'', hs'', hkeep s s' s'' hkept hkept'⟩

theorem AtContacts.mono (hkeep : ∀ s s', keep s s' → keep' s s') (h : p.AtContacts keep f f') :
    p.AtContacts keep' f f' := by
  intro node hnode s hs
  obtain ⟨s', hs', hkept⟩ := h node hnode s hs
  exact ⟨s', hs', hkeep s s' hkept⟩

end Problem

/-- The doping is the same. -/
structure SameDoping {α : Type} (s s' : NodeState α) : Prop where
  donorDensity : s'.donorDensity = s.donorDensity
  acceptorDensity : s'.acceptorDensity = s.acceptorDensity

/-- The potential and the doping are the same. -/
structure SamePotential {α : Type} (s s' : NodeState α) : Prop extends SameDoping s s' where
  potential : s'.potential = s.potential

/-- The potential and the doping are the same, and so are the densities that are not below the
floor. -/
structure SameCarriers {α : Type} [LE α] (floor : α) (s s' : NodeState α) : Prop
    extends SamePotential s s' where
  electronDensity : floor ≤ s.electronDensity → s'.electronDensity = s.electronDensity
  holeDensity : floor ≤ s.holeDensity → s'.holeDensity = s.holeDensity

section Preorder

variable {α : Type} {s s' s'' : NodeState α}

theorem SameDoping.refl (s : NodeState α) : SameDoping s s :=
  ⟨rfl, rfl⟩

theorem SameDoping.trans (h : SameDoping s s') (h' : SameDoping s' s'') : SameDoping s s'' :=
  ⟨h'.donorDensity.trans h.donorDensity, h'.acceptorDensity.trans h.acceptorDensity⟩

theorem SamePotential.trans (h : SamePotential s s') (h' : SamePotential s' s'') :
    SamePotential s s'' :=
  ⟨h.toSameDoping.trans h'.toSameDoping, h'.potential.trans h.potential⟩

theorem SameCarriers.refl [LE α] (floor : α) (s : NodeState α) : SameCarriers floor s s :=
  ⟨⟨⟨rfl, rfl⟩, rfl⟩, fun _ => rfl, fun _ => rfl⟩

theorem SameCarriers.trans [LE α] {floor : α} (h : SameCarriers floor s s')
    (h' : SameCarriers floor s' s'') : SameCarriers floor s s'' := by
  refine ⟨h.toSamePotential.trans h'.toSamePotential, fun hfloor => ?_, fun hfloor => ?_⟩
  · have hkept := h.electronDensity hfloor
    rw [← hkept] at hfloor ⊢
    exact h'.electronDensity hfloor
  · have hkept := h.holeDensity hfloor
    rw [← hkept] at hfloor ⊢
    exact h'.holeDensity hfloor

end Preorder

/-! ### Potentials of the contacts -/

section AtBias

variable {M α : Type} [Scalar α] [MaterialModel M α] {p : Problem M α} {v : α}
  {doped doped' f f' : NodeField α}

/-- The contacts are at the built-in potentials of a doping, the last one raised by a voltage. -/
structure AtBias (p : Problem M α) (v : α) (doped f : NodeField α) : Prop where
  first : ∃ b, builtInPotential p doped 0 = .ok b ∧ (f.nodes[0]?).map NodeState.potential = some b
  last : ∃ b, builtInPotential p doped p.lastNode = .ok b ∧
    (f.nodes[p.lastNode]?).map NodeState.potential = some (v + b)

theorem AtBias.of_samePotential (h : AtBias p v doped f)
    (hkept : p.AtContacts SamePotential f f') : AtBias p v doped f' := by
  have hmap : ∀ node, p.IsContact node → ∀ b, (f.nodes[node]?).map NodeState.potential = some b →
      (f'.nodes[node]?).map NodeState.potential = some b := by
    intro node hnode b hb
    obtain ⟨s, hs, rfl⟩ := Option.map_eq_some_iff.1 hb
    obtain ⟨s', hs', hkept⟩ := hkept node hnode s hs
    rw [hs', Option.map_some, hkept.potential]
  obtain ⟨⟨b, hb, hfirst⟩, ⟨b', hb', hlast⟩⟩ := h
  exact ⟨⟨b, hb, hmap 0 (.inl rfl) b hfirst⟩, ⟨b', hb', hmap _ (.inr rfl) _ hlast⟩⟩

/-- Where the doping is the same the built-in potential is. -/
theorem builtInPotential_of_sameDoping (h : p.AtContacts SameDoping doped doped') {node : Nat}
    (hnode : p.IsContact node) {s : NodeState α} (hs : doped.nodes[node]? = some s) :
    builtInPotential p doped' node = builtInPotential p doped node := by
  obtain ⟨s', hs', hsame⟩ := h node hnode s hs
  rw [builtInPotential, builtInPotential, hs, hs']
  cases p.governing? node with
  | none => rfl
  | some m =>
    dsimp only
    rw [hsame.donorDensity, hsame.acceptorDensity]

theorem builtInPotential_eq_ok {field : NodeField α} {node : Nat} {b : α}
    (h : builtInPotential p field node = .ok b) : ∃ s, field.nodes[node]? = some s := by
  rw [builtInPotential] at h
  split at h
  · next s _ hs => exact ⟨_, hs⟩
  · cases h

/-- A contact that is placed keeps its doping, and nothing else changes. -/
theorem of_placeContact {node : Nat} {offset : α → α} {u : Unit}
    (h : placeContact p node offset f = .ok u f') :
    ∃ b s, builtInPotential p f node = .ok b ∧ f.nodes[node]? = some s ∧
      f'.nodes[node]? = some { s with potential := offset b } ∧
      ∀ i, i ≠ node → f'.nodes[i]? = f.nodes[i]? := by
  rw [placeContact_eq] at h
  split at h
  · next b hb =>
    cases h
    obtain ⟨s, hs⟩ := builtInPotential_eq_ok hb
    refine ⟨b, s, hb, hs, ?_, fun i hi => ?_⟩
    · rw [Array.getElem?_modify, if_pos rfl, hs, Option.map_some]
    · rw [Array.getElem?_modify, if_neg (Ne.symm hi)]
  · cases h

/-- Placed contacts are at their built-in potentials, and the doping stays. -/
theorem atBias_of_placeContacts (htwo : 2 ≤ p.nodeCount) {u : Unit}
    (h : placeContacts p v f = .ok u f') : AtBias p v f f' ∧ p.AtContacts SameDoping f f' := by
  have hne : p.lastNode ≠ 0 := by
    rw [Problem.lastNode]
    omega
  obtain ⟨_, g, hfirst, hlast⟩ := bind_eq_ok.1 h
  obtain ⟨b, s, hb, hs, hsg, hrest⟩ := of_placeContact hfirst
  obtain ⟨b', s', hb', hs', hsf, hrest'⟩ := of_placeContact hlast
  have hsame : builtInPotential p f p.lastNode = .ok b' := by
    rw [← hb', builtInPotential, builtInPotential, hrest _ hne]
  rw [hrest _ hne] at hs'
  have hzero := (hrest' 0 hne.symm).trans hsg
  constructor
  · refine ⟨⟨b, hb, ?_⟩, ⟨b', hsame, ?_⟩⟩
    · rw [hzero]
      rfl
    · rw [hsf]
      rfl
  · rintro node (rfl | rfl) t ht
    · cases hs.symm.trans ht
      exact ⟨_, hzero, rfl, rfl⟩
    · cases hs'.symm.trans ht
      exact ⟨_, hsf, rfl, rfl⟩

end AtBias

/-! ### Systems whose contact equations are replaced -/

namespace Problem

variable {M α : Type} [Scalar α] {p : Problem M α} {sizes : Array Nat} {stride : Nat}
  {a a' : Assembly stride α}
  {m m' base : BlockMatrix α} {ws : Workspace α}

/-- The equations of the contacts say that nothing changes there. -/
def Grounded (p : Problem M α) (m : BlockMatrix α) : Prop :=
  ∀ node, p.IsContact node → ∀ row ∈ m.layout.block node,
    m.IsDirichlet p.settings.dirichletDiagonal row

theorem Grounded.blockRhs (h : p.Grounded m) {node sub : Nat} (hcontact : p.IsContact node)
    (hsub : sub < m.layout.sizes.getD node 0) : m.blockRhs node sub = .ok 0 := by
  rw [blockRhs_of_lt hsub]
  exact congrArg Except.ok
    (h node hcontact _ (LinearSystem.Layout.offset_add_mem_block hsub)).2

/-- The equations of the contacts have nothing beside the diagonal. -/
theorem Grounded.coefficient (h : p.Grounded m) (hbase : p.matrix sizes = .ok base)
    (hsame : base.SameSystem m) {node sub : Nat} (hcontact : p.IsContact node)
    (hsub : sub < m.layout.sizes.getD node 0) (column : Nat) :
    m.coefficient (m.layout.offset node + sub) column =
      if column = m.layout.offset node + sub then p.settings.dirichletDiagonal else 0 := by
  refine (h node hcontact _ (LinearSystem.Layout.offset_add_mem_block hsub)).coefficient_eq ?_ column
  rw [hsame.columnsOf]
  rw [hsame.layout] at hsub ⊢
  exact (p.mem_columnsOf_matrix hbase hsub hsub).2 (p.coupled_self node)

/-- Every row of a node has a place on the diagonal. -/
theorem mem_columnsOf_self (hbase : p.matrix sizes = .ok base) (hsame : base.SameSystem m)
    {node row : Nat} (hrow : row ∈ m.layout.block node) : row ∈ m.columnsOf row := by
  obtain ⟨hle, hlt⟩ := m.layout.mem_block.1 hrow
  obtain ⟨k, rfl⟩ := Nat.exists_eq_add_of_le hle
  rw [hsame.columnsOf]
  rw [hsame.layout] at hlt ⊢
  have hk : k < base.layout.sizes.getD node 0 := by omega
  exact (p.mem_columnsOf_matrix hbase hk hk).2 (p.coupled_self node)

/-- The solution is zero at the contacts. -/
def Still (p : Problem M α) (m : BlockMatrix α) : Prop :=
  ∀ node, p.IsContact node → ∀ row ∈ m.layout.block node, m.solution.getD row 0 = 0

/-- An assembly ends with the equations of the contacts. -/
theorem grounded_of_rebuild {cs : List (Contribution α)} {u : Unit}
    (h : Assembly.rebuild cs p.settings.dirichletDiagonal p.lastNode a = .ok u a') :
    p.Grounded a'.matrix := by
  obtain ⟨b, m, -, hfirst, hlast, -⟩ := Assembly.of_rebuild h
  obtain ⟨-, hzero, -⟩ := of_applyDirichlet hfirst
  obtain ⟨hsame, hdirichlet, hrest⟩ := of_applyDirichlet hlast
  rintro node (rfl | rfl) row hrow
  · by_cases hmem : row ∈ m.layout.block p.lastNode
    · exact hdirichlet row hmem
    · rw [hsame.layout] at hrow
      have hlayout := (of_applyDirichlet hfirst).1.layout
      rw [hlayout] at hrow
      exact (hzero row hrow).of_sameEquation hsame (hrest row hmem)
  · rw [hsame.layout] at hrow
    exact hdirichlet row hrow

end Problem

section Solve

variable {M α : Type} [ExactScalar α] {p : Problem M α} {sizes : Array Nat} {stride : Nat}
  {a : Assembly stride α}  {ws : Workspace α}

/-- What keeps the contacts of a problem still over exact arithmetic. -/
structure Problem.Anchored (p : Problem M α) : Prop where
  diagonal : p.settings.dirichletDiagonal ≠ 0
  minPositive : 0 < (Scalar.minPositive : α)
  tolerance : Scalar.minPositive ≤ p.settings.pivotTolerance

/-- A solve of a grounded system that succeeds finds no increment at the contacts. -/
theorem Problem.still_of_solve (hp : p.Anchored) {m s base : BlockMatrix α}
    (hbase : p.matrix sizes = .ok base) (hm : base.SameSystem m) (hgrounded : p.Grounded m)
    (h : solve m = .ok () s) : p.Still s := by
  have hwell := (Problem.wellFormed_matrix hbase).of_samePlaces hm.toSamePlaces
  have htolerance : m.pivotTolerance = p.settings.pivotTolerance :=
    hm.pivotTolerance.trans (p.pivotTolerance_matrix hbase)
  have hsame := sameSystem_solve hwell
  rw [h] at hsame
  intro node hnode row hrow
  have hlayout : s.layout = m.layout := hsame.layout
  rw [hlayout] at hrow
  have hplace := p.mem_columnsOf_self hbase hm hrow
  refine (hgrounded node hnode row hrow).solution_eq_zero hwell hp.minPositive ?_ hp.diagonal
    hplace h
  rw [htolerance]
  exact hp.tolerance

/-- The same with a workspace, which stays of the right size. -/
theorem Problem.Equipped.solveIn_still (hp : p.Anchored) (h : p.Equipped sizes a ws)
    (hgrounded : p.Grounded a.matrix) :
    Ends
      (fun _ x => p.Equipped sizes ({ a with matrix := x.1 } : Assembly stride α) x.2 ∧
        p.Still x.1)
      (fun _ x => p.Equipped sizes ({ a with matrix := x.1 } : Assembly stride α) x.2)
      (BlockMatrix.solveIn (a.matrix, ws)) := by
  have hequipped := (h.solveIn h).mono (fun _ _ hx => hx.2.1) fun _ _ hx => hx.2.1
  obtain ⟨ws', -, hsolve⟩ := h.solveIn_eq
  obtain ⟨base, hbase, hover, -⟩ := h
  have hstill : Ends (fun _ x => p.Still x.1) (fun _ _ => True)
      (BlockMatrix.solveIn (a.matrix, ws)) := by
    rw [hsolve]
    cases hr : solve a.matrix with
    | ok u s => exact .ok (Problem.still_of_solve hp hbase hover.matrix hgrounded hr)
    | error e s => exact .error trivial
  exact (hequipped.ends.and hstill).mono (fun _ _ hx => hx) fun _ _ hx => hx.1

end Solve

/-! ### The equilibrium iteration -/

namespace Poisson

section Phases

variable {M α : Type} [Scalar α] {p : Problem M α} {s : PoissonState α}

theorem solve_shaped (h : Shaped p s) :
    Ends (fun _ t => Shaped p t ∧ t.field = s.field) (fun _ t => Shaped p t ∧ t.field = s.field)
      (solve s) := by
  refine .widenError _ (.zoom ?_)
  refine ((h.equipped.solveIn h.equipped).mono (fun x _ hx => ?_) fun x _ hx => ?_).ends
  · exact ⟨⟨h.nodes, hx.2.1⟩, rfl⟩
  · exact ⟨⟨h.nodes, hx.2.1⟩, rfl⟩

variable [MaterialModel M α] [BEq M]

/-- A setup leaves the contacts with equations that say that nothing changes there. -/
theorem setup_grounded (h : Shaped p s) :
    Ends (fun _ t => (Shaped p t ∧ t.field = s.field) ∧ p.Grounded t.assembly.matrix)
      (fun _ t => Shaped p t ∧ t.field = s.field) (setup p s) := by
  have hshaped := ((setup_alike h.alike).mono (fun _ _ h => h.1.left) fun _ _ h => h.left).ends
  have hrest : Ends (fun _ t => t.field = s.field ∧ p.Grounded t.assembly.matrix)
      (fun _ t => t.field = s.field) (setup p s) := by
    rw [setup_eq]
    cases hr : Assembly.rebuild (contributions p s.field) p.settings.dirichletDiagonal p.lastNode
      s.assembly with
    | error e a => exact .error rfl
    | ok u a =>
      have hgrounded := p.grounded_of_rebuild hr
      dsimp only
      cases checkResidual p a with
      | error e => exact .error rfl
      | ok report => exact .ok ⟨rfl, hgrounded⟩
  exact (hshaped.and hrest).mono (fun _ _ h => ⟨⟨h.1, h.2.1⟩, h.2.2⟩) fun _ _ h => h

/-- The phases keep a relation of the contacts that the update keeps. -/
theorem keeps {keep : NodeState α → NodeState α → Prop} {solved : PoissonState α → Prop}
    (htrans : ∀ s s' s'', keep s s' → keep s' s'' → keep s s'')
    (hsolve : ∀ s, Shaped p s → p.Grounded s.assembly.matrix →
      Ends (fun _ t => (Shaped p t ∧ t.field = s.field) ∧ solved t)
        (fun _ t => Shaped p t ∧ t.field = s.field) (solve s))
    (hupdate : ∀ s, Shaped p s → solved s → p.AtContacts keep s.field (update p s).field)
    (f : NodeField α) (ω : Type) (seen : ω → Prop) :
    (step p : NewtonStep α (PoissonState α) ω).Keeps
      (fun s => Shaped p s ∧ p.AtContacts keep f s.field) (fun s => p.Grounded s.assembly.matrix)
      solved seen := by
  constructor
  case setup =>
    rintro s w ⟨hs, hkept⟩ hw
    refine .onFirst ((setup_grounded hs).mono ?_ ?_)
    · rintro _ t ⟨⟨ht, hfield⟩, hgrounded⟩
      exact ⟨⟨⟨ht, hfield ▸ hkept⟩, hgrounded⟩, hw⟩
    · rintro _ t ⟨ht, hfield⟩
      exact ⟨⟨ht, hfield ▸ hkept⟩, hw⟩
  case solve =>
    rintro s w ⟨⟨hs, hkept⟩, hgrounded⟩ hw
    refine .onFirst ((hsolve s hs hgrounded).mono ?_ ?_)
    · rintro _ t ⟨⟨ht, hfield⟩, hsolved⟩
      exact ⟨⟨⟨ht, hfield ▸ hkept⟩, hsolved⟩, hw⟩
    · rintro _ t ⟨ht, hfield⟩
      exact ⟨⟨ht, hfield ▸ hkept⟩, hw⟩
  case update =>
    rintro s w ⟨⟨hs, hkept⟩, hsolved⟩ hw
    refine .onFirst (.ok ⟨⟨?_, ?_⟩, hw⟩)
    · exact (update_alike hs.assembled).1.left
    · exact hkept.trans htrans (hupdate s hs hsolved)

omit [MaterialModel M α] [BEq M] in
/-- What an update does at a node. -/
theorem getElem?_update {node : Nat} {state : NodeState α}
    (h : s.field.nodes[node]? = some state) :
    (update p s).field.nodes[node]? =
      some (advance p (s.assembly.matrix.solution.getD node 0) node state) := by
  simp [update, Array.getElem?_mapIdx, h]

omit [MaterialModel M α] [BEq M] in
theorem sameDoping_update (p : Problem M α) (s : PoissonState α) :
    p.AtContacts SameDoping s.field (update p s).field :=
  fun _ _ _ hstate => ⟨_, getElem?_update hstate, rfl, rfl⟩

end Phases

section Exact

variable {M α : Type} [ExactScalar α] {p : Problem M α} {s : PoissonState α}

theorem solve_still (hp : p.Anchored) (h : Shaped p s) (hgrounded : p.Grounded s.assembly.matrix) :
    Ends (fun _ t => (Shaped p t ∧ t.field = s.field) ∧ p.Still t.assembly.matrix)
      (fun _ t => Shaped p t ∧ t.field = s.field) (solve s) := by
  refine .widenError _ (.zoom ((h.equipped.solveIn_still hp hgrounded).mono ?_ ?_))
  · exact fun _ x hx => ⟨⟨⟨h.nodes, hx.1⟩, rfl⟩, hx.2⟩
  · exact fun _ x hx => ⟨⟨h.nodes, hx⟩, rfl⟩

/-- An update that adds increments leaves the potential of a node alone that has none. -/
theorem samePotential_update (hadditive : p.settings.potentialUpdate = .additive)
    (h : Shaped p s) (hstill : p.Still s.assembly.matrix) :
    p.AtContacts SamePotential s.field (update p s).field := by
  intro node hnode state hstate
  have hzero : s.assembly.matrix.solution.getD node 0 = 0 := by
    obtain ⟨base, hbase, hover, -⟩ := h.equipped
    have hlayout := hover.matrix.layout.trans (p.layout_matrix hbase)
    have hlt : node < p.nodeCount := by
      rw [← h.nodes]
      exact (Array.getElem?_eq_some_iff.1 hstate).1
    refine hstill node hnode node ?_
    rw [hlayout, LinearSystem.Layout.mem_block, LinearSystem.Layout.offset_ofSizes_replicate hlt.le]
    simp [LinearSystem.Layout.ofSizes, hlt]
  refine ⟨_, getElem?_update hstate, ⟨rfl, rfl⟩, ?_⟩
  simp [hzero, advance, hadditive]

end Exact

end Poisson

/-! ### The two-carrier iteration -/

namespace TwoCarrier

section Solve

variable {M α ω : Type} [ExactScalar α] [MaterialKind M] {p : Problem M α}
  {s : TwoCarrierState α} {observer : SolveObserver α ω} {seen : ω → Prop}

omit [ExactScalar α] [MaterialKind M] in
theorem lookIn_ends {observe : BlockMatrix α → EStateM StorageError ω Unit}
    (hobserve : ∀ m w, seen w → Ends (fun _ => seen) (fun _ => seen) (observe m w))
    (x : BlockMatrix α × Workspace α) {w : ω} (hw : seen w) :
    Ends (fun _ y => y.1 = x ∧ seen y.2) (fun _ y => y.1 = x ∧ seen y.2)
      (SolveObserver.lookIn observe (x, w)) := by
  obtain ⟨m, ws⟩ := x
  refine .zoom ?_
  have hends := hobserve m w hw
  simp only [SolveObserver.look]
  cases hr : observe m w with
  | ok u w' =>
    rw [hr] at hends
    exact .ok ⟨rfl, hends.left⟩
  | error e w' =>
    rw [hr] at hends
    exact .error ⟨rfl, hends.left⟩

/-- A solve finds no increment at the contacts, whoever looks at it. -/
theorem solve_still (hp : p.Anchored)
    (hbefore : ∀ m w, seen w → Ends (fun _ => seen) (fun _ => seen) (observer.before m w))
    (hafter : ∀ m w, seen w → Ends (fun _ => seen) (fun _ => seen) (observer.after m w))
    (h : Shaped p s) (hgrounded : p.Grounded s.assembly.matrix) {w : ω} (hw : seen w) :
    Ends (fun _ x =>
        ((Shaped p x.1 ∧ x.1.field = s.field) ∧ p.Still x.1.assembly.matrix) ∧ seen x.2)
      (fun _ x => (Shaped p x.1 ∧ x.1.field = s.field) ∧ seen x.2) (solve observer (s, w)) := by
  let solved (m : BlockMatrix α) : Assembly semiconductorBlock α :=
    { s.assembly with matrix := m }
  have hkept : ∀ {x : BlockMatrix α × Workspace α},
      p.Equipped s.blockSizes (solved x.1) x.2 →
      Shaped p { s with assembly := solved x.1, workspace := x.2 } :=
    fun hx => ⟨h.nodes, h.sizes, hx⟩
  have hsolve : Ends
      (fun _ x => (p.Equipped s.blockSizes (solved x.1.1) x.1.2 ∧
        p.Still x.1.1) ∧ seen x.2)
      (fun _ x => p.Equipped s.blockSizes (solved x.1.1) x.1.2 ∧ seen x.2)
      (solveObservedIn observer ((s.assembly.matrix, s.workspace), w)) := by
    refine ((lookIn_ends hbefore _ hw).mono (fun _ _ hx => hx) ?_).bind ?_
    · rintro _ ⟨x, w⟩ ⟨rfl, hw⟩
      exact ⟨h.equipped, hw⟩
    rintro _ ⟨x, w⟩ ⟨rfl, hw⟩
    have hstill : Ends
        (fun _ x => (p.Equipped s.blockSizes (solved x.1.1) x.1.2 ∧
          p.Still x.1.1) ∧ seen x.2)
        (fun _ x => p.Equipped s.blockSizes (solved x.1.1) x.1.2 ∧ seen x.2)
        (onFirst BlockMatrix.solveIn ((s.assembly.matrix, s.workspace), w)) :=
      .onFirst ((h.equipped.solveIn_still hp hgrounded).mono (fun _ _ hx => ⟨hx, hw⟩)
        fun _ _ hx => ⟨hx, hw⟩)
    refine hstill.bind ?_
    rintro _ ⟨x, w⟩ ⟨hx, hw⟩
    refine (lookIn_ends hafter x hw).mono ?_ ?_
    · rintro _ ⟨_, v⟩ ⟨rfl, hv⟩
      exact ⟨hx, hv⟩
    · rintro _ ⟨_, v⟩ ⟨rfl, hv⟩
      exact ⟨hx.1, hv⟩
  refine .widenError _ (.zoom (hsolve.mono ?_ ?_))
  · exact fun _ x hx => ⟨⟨⟨hkept hx.1.1, rfl⟩, hx.1.2⟩, hx.2⟩
  · exact fun _ x hx => ⟨⟨hkept hx.1, rfl⟩, hx.2⟩

end Solve

section Update

variable {M α : Type}

/-- The field after an update consists of the states that the increments lead to. -/
theorem getElem?_advanceField [Scalar α] {settings : Settings α} {s : TwoCarrierState α}
    {factor : α} {field : NodeField α} (h : advanceField settings s factor = .ok field)
    {node size : Nat} {state : NodeState α} (hstate : s.field.nodes[node]? = some state)
    (hsize : s.blockSizes[node]? = some size) :
    ∃ state', field.nodes[node]? = some state' ∧
      advance s.assembly.matrix (appliedShare settings factor) settings.densityFloor size node
        state = .ok state' := by
  obtain ⟨states, hstates, h⟩ := except_bind_eq_ok.1 h
  cases h
  rw [Loop.mapM_eq_ok, List.forall₂_iff_get] at hstates
  obtain ⟨hlength, hall⟩ := hstates
  obtain ⟨hnode, rfl⟩ := Array.getElem?_eq_some_iff.1 hstate
  obtain ⟨hnode', rfl⟩ := Array.getElem?_eq_some_iff.1 hsize
  rw [Array.length_toList, Array.size_mapIdx, Array.size_zip] at hlength
  have hlt : node < states.length := by omega
  have hadvance := hall node (by simp; omega) hlt
  simp only [List.get_eq_getElem, Array.getElem_toList, Array.getElem_mapIdx, Array.getElem_zip,
    id_eq] at hadvance
  exact ⟨_, by rw [List.getElem?_toArray, List.getElem?_eq_getElem hlt], hadvance⟩

variable [ExactScalar α] {p : Problem M α} {s t : TwoCarrierState α}

theorem blockSolution_eq_zero {m : BlockMatrix α} (h : p.Still m) {node sub : Nat}
    (hnode : p.IsContact node) {v : α} (hv : m.blockSolution node sub = .ok v) : v = 0 := by
  obtain ⟨hlt, rfl⟩ := blockSolution_eq_ok.1 hv
  exact h node hnode _ (LinearSystem.Layout.offset_add_mem_block hlt)

/-- Without increments a state advances to itself, up to densities below the floor. -/
theorem sameCarriers_advance {m : BlockMatrix α} (h : p.Still m) {node size : Nat}
    (hnode : p.IsContact node) {share floor : α} {state state' : NodeState α}
    (hadvance : advance m share floor size node state = .ok state') :
    SameCarriers floor state state' := by
  have hlarger : ∀ x : α, floor ≤ x → Scalar.larger (x + share * 0) floor = x := by
    intro x hx
    rw [mul_zero, add_zero, ExactScalar.larger_eq_max, max_eq_left hx]
  obtain ⟨v, hv, hadvance⟩ := except_bind_eq_ok.1 hadvance
  cases blockSolution_eq_zero h hnode hv
  split_ifs at hadvance
  · obtain ⟨n, hn, hadvance⟩ := except_bind_eq_ok.1 hadvance
    cases blockSolution_eq_zero h hnode hn
    obtain ⟨q, hq, hadvance⟩ := except_bind_eq_ok.1 hadvance
    cases blockSolution_eq_zero h hnode hq
    cases hadvance
    refine ⟨⟨⟨rfl, rfl⟩, ?_⟩, fun hfloor => ?_, fun hfloor => ?_⟩
    · simp
    · exact hlarger _ hfloor
    · exact hlarger _ hfloor
  · cases hadvance
    exact ⟨⟨⟨rfl, rfl⟩, by simp⟩, fun _ => rfl, fun _ => rfl⟩

variable [MaterialKind M]

/-- An update keeps contacts that have no increment. -/
theorem sameCarriers_update {settings : Settings α} (hs : Shaped p s)
    (hstill : p.Still s.assembly.matrix) (h : update settings s = .ok t) :
    p.AtContacts (SameCarriers settings.densityFloor) s.field t.field := by
  obtain ⟨field, reports, -, hfield, -, h⟩ := update_eq_ok.1 h
  rw [h]
  intro node hnode state hstate
  obtain ⟨size, hsize⟩ : ∃ size, s.blockSizes[node]? = some size := by
    have hlt : node < s.blockSizes.size := by
      rw [size_blockSizes hs.sizes, ← hs.nodes]
      exact (Array.getElem?_eq_some_iff.1 hstate).1
    exact ⟨_, Array.getElem?_eq_getElem hlt⟩
  obtain ⟨state', hstate', hadvance⟩ := getElem?_advanceField hfield hstate hsize
  exact ⟨state', hstate', sameCarriers_advance hstill hnode hadvance⟩

end Update

section Setup

variable {M α : Type} [Scalar α] [MaterialModel M α] [BEq M] {p : Problem M α}
  {s : TwoCarrierState α}

/-- A setup leaves the contacts with equations that say that nothing changes there. -/
theorem setup_grounded (h : Shaped p s) :
    Ends (fun _ t => (Shaped p t ∧ t.field = s.field) ∧ p.Grounded t.assembly.matrix)
      (fun _ t => Shaped p t ∧ t.field = s.field) (setup p s) := by
  have hshaped := ((setup_alike h.alike).mono (fun _ _ h => h.1.left) fun _ _ h => h.left).ends
  have hrest : Ends (fun _ t => t.field = s.field ∧ p.Grounded t.assembly.matrix)
      (fun _ t => t.field = s.field) (setup p s) := by
    rw [setup_eq]
    cases hr : Assembly.rebuild (contributions p s.field) p.settings.dirichletDiagonal p.lastNode
      s.assembly with
    | error e a => exact .error rfl
    | ok u a =>
      have hgrounded := p.grounded_of_rebuild hr
      dsimp only
      cases checkResidual s.blockSizes a with
      | error e => exact .error rfl
      | ok reports => exact .ok ⟨rfl, hgrounded⟩
  exact (hshaped.and hrest).mono (fun _ _ h => ⟨⟨h.1, h.2.1⟩, h.2.2⟩) fun _ _ h => h

/-- After a setup the right hand sides of the contacts are zero. -/
theorem blockRhs_contact {t : TwoCarrierState α} (h : Shaped p s) (ht : setup p s = .ok () t)
    {node sub : Nat} (hnode : p.IsContact node) (hsub : sub < s.blockSizes.getD node 0) :
    t.assembly.matrix.blockRhs node sub = .ok 0 := by
  have hends := setup_grounded h
  rw [ht] at hends
  cases hends with
  | ok hkept =>
    obtain ⟨⟨hshaped, -⟩, hgrounded⟩ := hkept
    obtain ⟨base, hbase, hover, -⟩ := hshaped.equipped
    rw [Except.ok.inj (h.sizes.symm.trans hshaped.sizes), ← p.sizes_matrix hbase,
      ← hover.matrix.layout] at hsub
    exact hgrounded.blockRhs hnode hsub

end Setup

section Phases

variable {M α ω : Type} [ExactScalar α] [MaterialModel M α] [BEq M] {p : Problem M α}
  {s : TwoCarrierState α}

/-- The phases keep the contacts, with either damping policy. -/
theorem keeps (hp : p.Anchored) (observer : SolveObserver α ω) (seen : ω → Prop)
    (hbefore : ∀ m w, seen w → Ends (fun _ => seen) (fun _ => seen) (observer.before m w))
    (hafter : ∀ m w, seen w → Ends (fun _ => seen) (fun _ => seen) (observer.after m w))
    (f : NodeField α) :
    (step p observer).Keeps
      (fun s => Shaped p s ∧ p.AtContacts (SameCarriers p.settings.densityFloor) f s.field)
      (fun s => p.Grounded s.assembly.matrix) (fun s => p.Still s.assembly.matrix) seen := by
  constructor
  case setup =>
    rintro s w ⟨hs, hkept⟩ hw
    refine .onFirst ((setup_grounded hs).mono ?_ ?_)
    · rintro _ t ⟨⟨ht, hfield⟩, hgrounded⟩
      exact ⟨⟨⟨ht, hfield ▸ hkept⟩, hgrounded⟩, hw⟩
    · rintro _ t ⟨ht, hfield⟩
      exact ⟨⟨ht, hfield ▸ hkept⟩, hw⟩
  case solve =>
    rintro s w ⟨⟨hs, hkept⟩, hgrounded⟩ hw
    refine (solve_still hp hbefore hafter hs hgrounded hw).mono ?_ ?_
    · rintro _ x ⟨⟨⟨ht, hfield⟩, hstill⟩, hw⟩
      exact ⟨⟨⟨ht, hfield ▸ hkept⟩, hstill⟩, hw⟩
    · rintro _ x ⟨⟨ht, hfield⟩, hw⟩
      exact ⟨⟨ht, hfield ▸ hkept⟩, hw⟩
  case update =>
    rintro s w ⟨⟨hs, hkept⟩, hstill⟩ hw
    have hshaped := ((update_alike p.settings hs.assembled).mono (fun _ _ h => h.1.left)
      fun _ _ h => h.left).ends
    have hupdated : Ends
        (fun _ t => p.AtContacts (SameCarriers p.settings.densityFloor) s.field t.field)
        (fun _ t => t = s) (replace (update p.settings) s) := by
      rw [replace]
      cases hr : update p.settings s with
      | ok t => exact .ok (sameCarriers_update hs hstill hr)
      | error e => exact .error rfl
    have hends := hshaped.and hupdated
    rw [← hs.fitting.updateInPlace_eq] at hends
    refine .onFirst (hends.mono ?_ ?_)
    · rintro _ t ⟨ht, hcontacts⟩
      exact ⟨⟨ht, hkept.trans (fun _ _ _ => SameCarriers.trans) hcontacts⟩, hw⟩
    · rintro _ t ⟨ht, rfl⟩
      exact ⟨⟨ht, hkept⟩, hw⟩

end Phases

end TwoCarrier

end Newton

end CarrierTransport
