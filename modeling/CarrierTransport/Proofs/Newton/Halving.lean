import CarrierTransport.Proofs.Newton.FixedPoint

/-!
# The largest admissible power of one half

The search for a damping factor halves it in the middle of a sweep, several times if need be, and
compares the number of halvings with the greatest one between sweeps only. A density that falls
below the floor at `(1 / 2) ^ k` rules the exponent `k` out and no other one, so the exponent
reached never passes an admissible one (`Damping.OnPath`). A search that ends without an error
therefore ends at the least admissible exponent, and it ends with one where no exponent within the
limit is admissible (`Damping.Verdict`).

How many halvings an exhausted search has made depends on the order of the nodes, for the last sweep
is made whole; which factor is found, and whether one is, does not
(`TwoCarrier.findDamping_least_power`).
-/

namespace CarrierTransport.Newton

namespace Damping

/-! ### The loop -/

section Loop

variable {α : Type} [Scalar α] {floor : α} {targets : List (α × α)} {d : Damping α}
  {r r' : Except Nat α}

/-- The whole increments, which the search starts with. -/
def whole : Damping α :=
  ⟨1.0, 0⟩

/-- The loop of the search without a bound on its sweeps. A sweep that halves nothing ends it and so
does one that reaches the greatest number of halvings; after any other one it goes on. -/
inductive Halves (floor : α) (targets : List (α × α)) : Damping α → Except Nat α → Prop
  | found {d : Damping α} (h : (sweep floor targets d).halvings = d.halvings) :
      Halves floor targets d (.ok (sweep floor targets d).factor)
  | exhausted {d : Damping α} (h : (sweep floor targets d).halvings ≠ d.halvings)
      (hmax : maximalHalvings ≤ (sweep floor targets d).halvings) :
      Halves floor targets d (.error (sweep floor targets d).halvings)
  | again {d : Damping α} {r : Except Nat α} (h : (sweep floor targets d).halvings ≠ d.halvings)
      (hmax : (sweep floor targets d).halvings < maximalHalvings)
      (hrest : Halves floor targets (sweep floor targets d) r) : Halves floor targets d r

/-- The loop ends in one way only. -/
theorem Halves.unique (h : Halves floor targets d r) (h' : Halves floor targets d r') : r = r' := by
  induction h with
  | found h =>
    cases h' with
    | found => rfl
    | exhausted hne => exact absurd h hne
    | again hne => exact absurd h hne
  | exhausted hne hmax =>
    cases h' with
    | found h => exact absurd h hne
    | exhausted => rfl
    | again _ hlt => exact absurd hmax (not_le.2 hlt)
  | again hne hlt _ ih =>
    cases h' with
    | found h => exact absurd h hne
    | exhausted _ hmax => exact absurd hmax (not_le.2 hlt)
    | again _ _ hrest => exact ih hrest

/-- Sweeps enough for every halving that is left are as good as any number of them. -/
theorem halves_search {sweeps : Nat} (hd : d.halvings < maximalHalvings)
    (hsweeps : maximalHalvings ≤ d.halvings + sweeps) :
    Halves floor targets d (search floor targets sweeps d) := by
  induction sweeps generalizing d with
  | zero => omega
  | succ sweeps ih =>
    have hle := halvings_le_sweep floor targets d
    rw [search]
    split
    · next h => exact .found h
    · next h =>
      split
      · next hmax => exact .exhausted h hmax
      · next hmax =>
        apply Halves.again h (not_le.1 hmax)
        exact ih (not_le.1 hmax) (by omega)

/-- **The loop always ends**, and it ends with what the search finds. -/
theorem halves_iff : Halves floor targets whole r ↔ r = find floor targets := by
  have hfind : Halves floor targets whole (find floor targets) :=
    halves_search (Nat.succ_pos 63) le_rfl
  constructor
  · exact fun h => h.unique hfind
  · rintro rfl
    exact hfind

theorem halvings_sweep_le (floor : α) (targets : List (α × α)) (d : Damping α) :
    (sweep floor targets d).halvings ≤ d.halvings + targets.length := by
  induction targets generalizing d with
  | nil => exact le_rfl
  | cons target targets ih =>
    have hvisit : (visit floor d target).halvings ≤ d.halvings + 1 := by
      unfold visit
      split
      · exact le_rfl
      · exact Nat.le_succ _
    have hrest := ih (visit floor d target)
    rw [sweep, List.foldl_cons, ← sweep, List.length_cons]
    omega

end Loop

/-! ### Powers of one half -/

section Exact

variable {α : Type} [ExactScalar α] {floor : α} {targets : List (α × α)} {d : Damping α}
  {r : Except Nat α}

/-- The factor is the power of one half that the halvings make, and no admissible exponent has been
passed. -/
structure OnPath (floor : α) (targets : List (α × α)) (d : Damping α) : Prop where
  factor : d.factor = (1 / 2) ^ d.halvings
  le : ∀ k, Admits floor targets ((1 / 2) ^ k) → d.halvings ≤ k

theorem onPath_whole : OnPath floor targets whole :=
  ⟨ExactScalar.ofDecimal_one.trans (pow_zero _).symm, fun k _ => Nat.zero_le k⟩

/-- A violation rules out the exponent at which it is found. -/
theorem OnPath.visit {target : α × α} (h : OnPath floor targets d) (htarget : target ∈ targets) :
    OnPath floor targets (visit floor d target) := by
  unfold Damping.visit
  split
  · next hlt =>
    constructor
    case factor =>
      have hhalf : (Scalar.ofDecimal 5 true 1 : α) = 1 / 2 := by
        rw [ExactScalar.ofDecimal_eq]
        norm_num
      exact (congrArg₂ (· * ·) h.factor hhalf).trans (pow_succ _ _).symm
    case le =>
      intro k hk
      apply Nat.succ_le_of_lt
      apply lt_of_le_of_ne (h.le k hk)
      rintro rfl
      have hadmits := hk target htarget
      rw [← h.factor] at hadmits
      exact absurd hlt hadmits
  · exact h

theorem OnPath.sweep (h : OnPath floor targets d) : OnPath floor targets (sweep floor targets d) :=
  List.foldlRecOn targets (Damping.visit floor) h fun _ hd _ htarget => hd.visit htarget

/-- What a search comes to: the least admissible exponent, if it is below the greatest number of
halvings, and otherwise a number of halvings that passes this one by less than a sweep. -/
inductive Verdict (floor : α) (targets : List (α × α)) : Except Nat α → Prop
  | found {k : ℕ} (hleast : IsLeast {k | Admits floor targets ((1 / 2) ^ k)} k)
      (hk : k < maximalHalvings) : Verdict floor targets (.ok ((1 / 2) ^ k))
  | exhausted {k : ℕ} (hnone : ∀ j, Admits floor targets ((1 / 2) ^ j) → maximalHalvings ≤ j)
      (hk : maximalHalvings ≤ k) (hle : k < maximalHalvings + targets.length) :
      Verdict floor targets (.error k)

/-- **Every way out of the loop has its reason.** -/
theorem Halves.verdict (h : Halves floor targets d r) (hd : OnPath floor targets d)
    (hlt : d.halvings < maximalHalvings) : Verdict floor targets r := by
  induction h with
  | @found d h =>
    have hadmits := halvings_sweep_eq_iff.1 h
    rw [hadmits.sweep_eq, hd.factor]
    apply Verdict.found _ hlt
    constructor
    · rw [hd.factor] at hadmits
      exact hadmits
    · exact fun k hk => hd.le k hk
  | @exhausted d h hmax =>
    have hle := halvings_sweep_le floor targets d
    apply Verdict.exhausted _ hmax (by omega)
    exact fun k hk => hmax.trans (hd.sweep.le k hk)
  | again h hmax _ ih => exact ih hd.sweep hmax

theorem verdict_find (floor : α) (targets : List (α × α)) :
    Verdict floor targets (find floor targets) :=
  (halves_iff.2 rfl).verdict onPath_whole (Nat.succ_pos 63)

end Exact

end Damping

namespace TwoCarrier

open LinearSystem (BlockMatrix)
open Physics (MaterialKind)
open State (NodeField Unknown)
open Transition

/-! ### The densities of a state -/

section Targets

theorem nodup_unknowns (sizes : Array ℕ) : (unknowns sizes).Nodup := by
  rw [unknowns, Loop.flatten_mapIdx, List.nodup_flatMap]
  constructor
  · intro node _
    cases sizes[node]? with
    | none => exact List.nodup_nil
    | some size =>
      have hblock : (Unknown.ofBlock size).Nodup :=
        (List.take_sublist size Unknown.all).nodup (by decide)
      exact hblock.map fun _ _ h => (Prod.ext_iff.1 h).2
  · refine List.nodup_range.imp fun {i j} hne => ?_
    intro x hi hj
    have hnode : ∀ node, x ∈ (sizes[node]?).elim []
        (fun size => (Unknown.ofBlock size).map fun u => (node, u)) → x.1 = node := by
      intro node hx
      cases hsize : sizes[node]? with
      | none =>
        rw [hsize] at hx
        cases hx
      | some size =>
        rw [hsize] at hx
        obtain ⟨u, -, rfl⟩ := List.mem_map.1 hx
        rfl
    exact hne ((hnode i hi).symm.trans (hnode j hj))

variable {M α : Type} [MaterialKind M] {p : Problem M α} {sizes : Array ℕ} {node : ℕ}

theorem lt_nodeCount_of_governs (h : p.Governs node) : node < p.nodeCount := by
  obtain ⟨m, hm, -⟩ := h
  by_contra hge
  rw [Problem.governing?, Array.getElem?_eq_none (not_lt.1 hge)] at hm
  cases hm

theorem mem_unknowns_of_governs (hsizes : blockSizes p = .ok sizes) (h : p.Governs node)
    (u : Unknown) : (node, u) ∈ unknowns sizes :=
  mem_unknowns.2 (sub_lt_of_governs hsizes (lt_nodeCount_of_governs h) h u)

/-- There are at most two densities for every node that a semiconductor governs. -/
theorem length_carriers_le (hsizes : blockSizes p = .ok sizes) :
    ((unknowns sizes).filter fun i => i.2 ≠ .potential).length ≤
      2 * {node | p.Governs node}.ncard := by
  have hnodup := (nodup_unknowns sizes).filter fun i => i.2 ≠ .potential
  generalize hcarriers : ((unknowns sizes).filter fun i => i.2 ≠ .potential) = carriers at hnodup ⊢
  have hfinite : {node | p.Governs node}.Finite :=
    (Set.finite_lt_nat p.nodeCount).subset fun node h => lt_nodeCount_of_governs h
  have hsubset : (carriers.toFinset : Set (ℕ × Unknown)) ⊆
      {node | p.Governs node} ×ˢ {.electronDensity, .holeDensity} := by
    rintro ⟨node, u⟩ hmem
    rw [Finset.mem_coe, List.mem_toFinset, ← hcarriers, List.mem_filter] at hmem
    have hcarrier : u ≠ .potential := by simpa using hmem.2
    refine ⟨governs_of_mem_unknowns hsizes hmem.1 hcarrier, ?_⟩
    cases u with
    | potential => exact absurd rfl hcarrier
    | electronDensity => exact .inl rfl
    | holeDensity => exact .inr rfl
  have hle := Set.ncard_le_ncard hsubset (hfinite.prod (Set.toFinite _))
  rw [Set.ncard_coe_finset, List.toFinset_card_of_nodup hnodup, Set.ncard_prod,
    Set.ncard_pair (by decide), mul_comm] at hle
  exact hle

end Targets

section Outcome

variable {M α : Type} [ExactScalar α] [MaterialKind M] {p p' : Problem M α}
  {s s' : TwoCarrierState α}

/-- With this share of its increment no density of a node that a semiconductor governs falls below
the floor. -/
def Admissible (p : Problem M α) (s : TwoCarrierState α) (factor : α) : Prop :=
  ∀ node, p.Governs node →
    p.settings.densityFloor ≤
        s.field.unknown node .electronDensity + factor * increment s node .electronDensity ∧
      p.settings.densityFloor ≤
        s.field.unknown node .holeDensity + factor * increment s node .holeDensity

/-- The nodes of a problem in a state are those of another one in another state, with other
numbers. -/
structure Renumbers (σ : Equiv.Perm ℕ) (p p' : Problem M α) (s s' : TwoCarrierState α) :
    Prop where
  densityFloor : p'.settings.densityFloor = p.settings.densityFloor
  governs : ∀ node, p'.Governs (σ node) ↔ p.Governs node
  unknown : ∀ node u, p.Governs node →
    s'.field.unknown (σ node) u = s.field.unknown node u
  increment : ∀ node u, p.Governs node → increment s' (σ node) u = increment s node u

theorem Renumbers.admissible_iff {σ : Equiv.Perm ℕ} (h : Renumbers σ p p' s s')
    (factor : α) : Admissible p' s' factor ↔ Admissible p s factor := by
  constructor
  · intro hadmissible node hnode
    have hmoved := hadmissible (σ node) ((h.governs node).2 hnode)
    rwa [h.densityFloor, h.unknown node _ hnode, h.unknown node _ hnode, h.increment node _ hnode,
      h.increment node _ hnode] at hmoved
  · intro hadmissible node hnode
    obtain ⟨i, rfl⟩ := σ.surjective node
    have hi := (h.governs i).1 hnode
    rw [h.densityFloor, h.unknown i _ hi, h.unknown i _ hi, h.increment i _ hi,
      h.increment i _ hi]
    exact hadmissible i hi

/-- What the search compares are the densities of these nodes. -/
theorem Shaped.admits_iff (hs : Shaped p s) {targets : List (α × α)}
    (htargets : dampingTargets s = .ok targets) (factor : α) :
    Damping.Admits p.settings.densityFloor targets factor ↔ Admissible p s factor := by
  rw [hs.fitting.dampingTargets_eq] at htargets
  cases htargets
  constructor
  · intro h node hnode
    have hcarrier : ∀ u : Unknown, u ≠ .potential →
        p.settings.densityFloor ≤ s.field.unknown node u + factor * increment s node u := by
      intro u hu
      apply not_lt.1
      apply h (s.field.unknown node u, increment s node u)
      apply List.mem_map.2
      refine ⟨(node, u), List.mem_filter.2 ⟨mem_unknowns_of_governs hs.sizes hnode u, ?_⟩, rfl⟩
      simpa using hu
    exact ⟨hcarrier _ (by decide), hcarrier _ (by decide)⟩
  · intro h target htarget
    obtain ⟨⟨node, u⟩, hu, rfl⟩ := List.mem_map.1 htarget
    obtain ⟨hu, hcarrier⟩ := List.mem_filter.1 hu
    rw [decide_eq_true_eq] at hcarrier
    obtain ⟨helectrons, hholes⟩ := h node (governs_of_mem_unknowns hs.sizes hu hcarrier)
    cases u with
    | potential => exact absurd rfl hcarrier
    | electronDensity => exact not_lt.2 helectrons
    | holeDensity => exact not_lt.2 hholes

/-- The search goes through the densities of a state in its loop, which ends with its verdict. -/
theorem Shaped.verdict (hs : Shaped p s) :
    ∃ targets r, dampingTargets s = .ok targets ∧
      (∀ r', Damping.Halves p.settings.densityFloor targets .whole r' ↔ r' = r) ∧
      findDamping p.settings s = r.mapError .dampingExhausted ∧
      Damping.Verdict p.settings.densityFloor targets r ∧
      targets.length ≤ 2 * {node | p.Governs node}.ncard := by
  have htargets := hs.fitting.dampingTargets_eq
  refine ⟨_, _, htargets, fun r' => Damping.halves_iff, ?_, Damping.verdict_find _ _, ?_⟩
  · rw [findDamping, htargets]
    rfl
  · rw [List.length_map]
    exact length_carriers_le hs.sizes

theorem Shaped.isLeast_iff (hs : Shaped p s) {targets : List (α × α)}
    (htargets : dampingTargets s = .ok targets) (k : ℕ) :
    IsLeast {k | Damping.Admits p.settings.densityFloor targets ((1 / 2) ^ k)} k ↔
      IsLeast {k | Admissible p s ((1 / 2) ^ k)} k := by
  simp only [hs.admits_iff htargets]

/-- The least admissible exponent is found. -/
theorem Shaped.findDamping_of_isLeast (hs : Shaped p s) {k : ℕ} (hk : k < 64)
    (hleast : IsLeast {k | Admissible p s ((1 / 2) ^ k)} k) :
    findDamping p.settings s = .ok ((1 / 2) ^ k) := by
  obtain ⟨targets, r, htargets, -, hfind, hverdict, -⟩ := hs.verdict
  rw [hfind]
  cases hverdict with
  | found hleast' =>
    rw [hleast.unique ((hs.isLeast_iff htargets _).1 hleast')]
    rfl
  | exhausted hnone =>
    have hmax := hnone k ((hs.admits_iff htargets _).2 hleast.1)
    exact absurd hk (not_lt.2 hmax)

/-- Without one the search gives up, in the sweep that reaches the greatest number of halvings. -/
theorem Shaped.findDamping_of_none (hs : Shaped p s)
    (hnone : ∀ k < 64, ¬ Admissible p s ((1 / 2) ^ k)) :
    ∃ k, findDamping p.settings s = .error (.dampingExhausted k) ∧ 64 ≤ k ∧
      k ≤ 63 + 2 * {node | p.Governs node}.ncard := by
  obtain ⟨targets, r, htargets, -, hfind, hverdict, hlength⟩ := hs.verdict
  rw [hfind]
  cases hverdict with
  | found hleast hk => exact absurd ((hs.admits_iff htargets _).1 hleast.1) (hnone _ hk)
  | @exhausted k _ hk hle =>
    have hmax : maximalHalvings = 64 := rfl
    exact ⟨k, rfl, hk, by omega⟩

/-- Other numbers of the nodes change neither the factor nor whether there is one. -/
theorem Renumbers.toOption_findDamping {σ : Equiv.Perm ℕ} (h : Renumbers σ p p' s s')
    (hs : Shaped p s) (hs' : Shaped p' s') :
    (findDamping p'.settings s').toOption = (findDamping p.settings s).toOption := by
  obtain ⟨targets, r, htargets, -, hfind, hverdict, -⟩ := hs.verdict
  rw [hfind]
  cases hverdict with
  | @found k hleast hk =>
    have hleast' : IsLeast {k | Admissible p' s' ((1 / 2) ^ k)} k := by
      simp only [h.admissible_iff]
      exact (hs.isLeast_iff htargets k).1 hleast
    rw [hs'.findDamping_of_isLeast hk hleast']
    rfl
  | exhausted hnone =>
    have hnone' : ∀ k < 64, ¬ Admissible p' s' ((1 / 2) ^ k) := by
      intro k hk hadmissible
      rw [h.admissible_iff, ← hs.admits_iff htargets] at hadmissible
      exact absurd hk (not_lt.2 (hnone k hadmissible))
    obtain ⟨k, hk, -⟩ := hs'.findDamping_of_none hnone'
    rw [hk]
    rfl

end Outcome

/-! ### A row of silicon -/

/-- Three elements of undoped silicon in a row, with the inner nodes in either order. -/
def siliconRow (turned : Bool) : Problem Physics.Material ℚ where
  mesh :=
    if turned then
      { nodes := #[⟨[0], 0⟩, ⟨[1, 2], 0⟩, ⟨[0, 1], 0⟩, ⟨[2], 0⟩]
        elements := #[⟨0, 2, 1, 1, 0⟩, ⟨2, 1, 1, 1, 0⟩, ⟨1, 3, 1, 1, 0⟩] }
    else
      { nodes := #[⟨[0], 0⟩, ⟨[0, 1], 0⟩, ⟨[1, 2], 0⟩, ⟨[2], 0⟩]
        elements := #[⟨0, 1, 1, 1, 0⟩, ⟨1, 2, 1, 1, 0⟩, ⟨2, 3, 1, 1, 0⟩] }
  table := { regions := #[⟨.silicon, 0, 0⟩], temperature := 300 }
  settings := { Settings.ofTolerances (1 / 1000) (1 / 1000) 5 with densityFloor := 1 }

/-- The densities of a node with their increments. -/
structure Drift where
  electrons : ℚ
  holes : ℚ
  electronIncrement : ℚ
  holeIncrement : ℚ

def rowField (a b : Drift) : NodeField ℚ :=
  ⟨#[⟨0, 0, 0, 0, 1, 1, 0, 0⟩, ⟨0, 0, 0, 0, a.electrons, a.holes, 0, 0⟩,
    ⟨0, 0, 0, 0, b.electrons, b.holes, 0, 0⟩, ⟨0, 0, 0, 0, 1, 1, 0, 0⟩]⟩

def rowSolution (a b : Drift) : Array ℚ :=
  #[0, 0, 0, 0, a.electronIncrement, a.holeIncrement, 0, b.electronIncrement, b.holeIncrement,
    0, 0, 0]

/-- A state after a solve with another solution. -/
def withSolution {α : Type} (s : TwoCarrierState α) (x : Array α) : TwoCarrierState α :=
  { s with assembly := { s.assembly with matrix := { s.assembly.matrix with solution := x } } }

theorem Shaped.withSolution {M α : Type} [Scalar α] [MaterialKind M] {p : Problem M α}
    {s : TwoCarrierState α} (hs : Shaped p s) {x : Array α}
    (hx : x.size = s.assembly.matrix.solution.size) : Shaped p (withSolution s x) := by
  obtain ⟨hnodes, hsizes, base, hbase, ⟨hmatrix, hscales, hcouplings⟩, hfits⟩ := hs
  obtain ⟨⟨hlayout, hpattern, hrhs, hsolution⟩, htolerance⟩ := hmatrix
  exact ⟨hnodes, hsizes, base, hbase,
    ⟨⟨⟨hlayout, hpattern, hrhs, hx.trans hsolution⟩, htolerance⟩, hscales, hcouplings⟩, hfits⟩

/-- What the search comes to on the row with these inner nodes, in the order of their numbers. -/
def rowOutcome (turned : Bool) (a b : Drift) : Option (Except ℕ ℚ) :=
  match start (siliconRow turned) (rowField a b) with
  | .error _ => none
  | .ok s =>
    if (rowSolution a b).size = s.assembly.matrix.solution.size then
      match findDamping (siliconRow turned).settings (withSolution s (rowSolution a b)) with
      | .ok factor => some (.ok factor)
      | .error (.dampingExhausted k) => some (.error k)
      | .error _ => none
    else none

/-- A state of the row with these inner nodes. -/
structure RowState (turned : Bool) (a b : Drift) (s : TwoCarrierState ℚ) : Prop where
  shaped : Shaped (siliconRow turned) s
  field : s.field = rowField a b
  solution : s.assembly.matrix.solution = rowSolution a b

variable {turned : Bool} {a b : Drift} {s s' : TwoCarrierState ℚ}

theorem exists_rowState {r : Except ℕ ℚ} (h : rowOutcome turned a b = some r) :
    ∃ s, RowState turned a b s ∧
      findDamping (siliconRow turned).settings s = r.mapError .dampingExhausted := by
  unfold rowOutcome at h
  split at h
  · cases h
  · next s hs =>
    obtain ⟨hshaped, hfield⟩ := shaped_start hs
    split at h
    · next hsize =>
      refine ⟨_, ⟨hshaped.withSolution hsize, hfield, rfl⟩, ?_⟩
      split at h
      · next hfind =>
        cases h
        exact hfind
      · next hfind =>
        cases h
        exact hfind
      · cases h
    · cases h

theorem governs_siliconRow {node : ℕ} : (siliconRow turned).Governs node ↔ node < 4 := by
  constructor
  · intro h
    have hlt := lt_nodeCount_of_governs h
    cases turned <;> exact hlt
  · intro h
    refine ⟨.silicon, ?_, rfl⟩
    cases turned <;> interval_cases node <;> rfl

namespace RowState

theorem unknown (h : RowState turned a b s) (node : ℕ) (u : Unknown) :
    s.field.unknown node u = (rowField a b).unknown node u := by
  rw [h.field]

theorem increment (h : RowState turned a b s) {node : ℕ} (hnode : node < 4) (u : Unknown) :
    increment s node u = (rowSolution a b).getD (3 * node + u.sub) 0 := by
  have hblocks : blockSizes (siliconRow turned) = .ok #[3, 3, 3, 3] := by
    cases turned <;> rfl
  have hsizes := h.shaped.fitting.sizes
  rw [Except.ok.inj (h.shaped.sizes.symm.trans hblocks)] at hsizes
  rw [TwoCarrier.increment, h.solution, LinearSystem.Layout.offset,
    s.assembly.matrix.layout.offsets_eq, hsizes]
  interval_cases node <;> rfl

/-- Only the inner nodes are asked, for the contacts have no increments. -/
theorem admissible_iff (h : RowState turned a b s) (factor : ℚ) :
    Admissible (siliconRow turned) s factor ↔
      (1 ≤ a.electrons + factor * a.electronIncrement ∧
        1 ≤ a.holes + factor * a.holeIncrement) ∧
      1 ≤ b.electrons + factor * b.electronIncrement ∧
        1 ≤ b.holes + factor * b.holeIncrement := by
  constructor
  · intro hadmissible
    have hfirst := hadmissible 1 (governs_siliconRow.2 (by decide))
    have hsecond := hadmissible 2 (governs_siliconRow.2 (by decide))
    rw [h.unknown, h.unknown, h.increment (by decide), h.increment (by decide)] at hfirst hsecond
    exact ⟨hfirst, hsecond⟩
  · rintro ⟨hfirst, hsecond⟩ node hnode
    have hlt := governs_siliconRow.1 hnode
    have hcontact : 1 ≤ 1 + factor * 0 := by rw [mul_zero, add_zero]
    rw [h.unknown, h.unknown, h.increment hlt, h.increment hlt]
    match node, hlt with
    | 0, _ => exact ⟨hcontact, hcontact⟩
    | 1, _ => exact hfirst
    | 2, _ => exact hsecond
    | 3, _ => exact ⟨hcontact, hcontact⟩

/-- The turned row has the nodes of the other one, with the inner ones exchanged. -/
theorem renumbers (h : RowState false a b s) (h' : RowState true b a s') :
    Renumbers (Equiv.swap 1 2) (siliconRow false) (siliconRow true) s s' := by
  have hswap : ∀ node < 4, Equiv.swap 1 2 node < 4 := by decide
  have hgoverns : ∀ node, Equiv.swap 1 2 node < 4 ↔ node < 4 := by
    intro node
    refine ⟨fun hlt => ?_, hswap node⟩
    have hback := hswap _ hlt
    rwa [Equiv.swap_apply_self] at hback
  constructor
  case densityFloor => rfl
  case governs =>
    intro node
    rw [governs_siliconRow, governs_siliconRow]
    exact hgoverns node
  case unknown =>
    intro node u hnode
    have hlt := governs_siliconRow.1 hnode
    rw [h.unknown, h'.unknown]
    interval_cases node <;> cases u <;> rfl
  case increment =>
    intro node u hnode
    have hlt := governs_siliconRow.1 hnode
    rw [h.increment hlt, h'.increment (hswap node hlt)]
    interval_cases node <;> cases u <;> rfl

theorem aboveFloor (h : RowState turned a b s) (ha : 1 ≤ a.electrons ∧ 1 ≤ a.holes)
    (hb : 1 ≤ b.electrons ∧ 1 ≤ b.holes) : AboveFloor (siliconRow turned) s.field := by
  intro node hnode
  have hlt := governs_siliconRow.1 hnode
  rw [h.unknown, h.unknown]
  match node, hlt with
  | 0, _ => exact ⟨le_refl (1 : ℚ), le_refl (1 : ℚ)⟩
  | 1, _ => exact ha
  | 2, _ => exact hb
  | 3, _ => exact ⟨le_refl (1 : ℚ), le_refl (1 : ℚ)⟩

end RowState

/-- A node whose electrons may follow half of their increment. -/
def drained : Drift := ⟨2, 2, -2, 0⟩

/-- A node that may follow nothing of its increments. -/
def floored : Drift := ⟨1, 1, -1, -1⟩

/-- A node that may follow all of its increments. -/
def filled : Drift := ⟨2, 2, 1, 1⟩

/-! ### The factor found -/

/-- **The damping factor is the largest admissible power of one half.** Let `k` be the least
exponent at which the share `(1 / 2) ^ k` of the increments leads no density of a semiconductor
below the floor. If there is one below 64, the factor found is `(1 / 2) ^ k`; otherwise the search
gives up, with at least 64 halvings and at most 63 and two for every semiconductor node. The loop of
the search ends, in one way only, and neither the factor nor whether there is one depends on how the
nodes are numbered. -/
theorem findDamping_least_power {M α : Type} [ExactScalar α] [MaterialKind M] {p : Problem M α}
    {s : TwoCarrierState α} (hs : Shaped p s) :
    (∃ targets r, dampingTargets s = .ok targets ∧
      (∀ r', Damping.Halves p.settings.densityFloor targets .whole r' ↔ r' = r) ∧
      findDamping p.settings s = r.mapError .dampingExhausted) ∧
    (∀ k < 64, IsLeast {k | Admissible p s ((1 / 2) ^ k)} k →
      findDamping p.settings s = .ok ((1 / 2) ^ k)) ∧
    ((∀ k < 64, ¬ Admissible p s ((1 / 2) ^ k)) →
      ∃ k, findDamping p.settings s = .error (.dampingExhausted k) ∧ 64 ≤ k ∧
        k ≤ 63 + 2 * {node | p.Governs node}.ncard) ∧
    ∀ σ p' s', Shaped p' s' → Renumbers σ p p' s s' →
      (findDamping p'.settings s').toOption = (findDamping p.settings s).toOption := by
  obtain ⟨targets, r, htargets, hloop, hfind, -⟩ := hs.verdict
  refine ⟨⟨targets, r, htargets, hloop, hfind⟩, ?_, hs.findDamping_of_none, ?_⟩
  · exact fun k hk hleast => hs.findDamping_of_isLeast hk hleast
  · exact fun σ p' s' hs' hrenumbers => hrenumbers.toOption_findDamping hs hs'

theorem findDamping_least_power_siliconRow :
    (∃ s, RowState false drained filled s ∧
      findDamping (siliconRow false).settings s = .ok ((1 / 2) ^ 1)) ∧
    ∃ s s' k, RowState false drained floored s ∧ RowState true floored drained s' ∧
      findDamping (siliconRow false).settings s = .error (.dampingExhausted k) ∧ 64 ≤ k ∧
      k ≤ 63 + 2 * {node | (siliconRow false).Governs node}.ncard ∧
      (findDamping (siliconRow true).settings s').toOption =
        (findDamping (siliconRow false).settings s).toOption := by
  constructor
  · have hhalf : rowOutcome false drained filled = some (.ok (1 / 2)) := by decide +kernel
    obtain ⟨s, hs, -⟩ := exists_rowState hhalf
    have hleast : IsLeast {k : ℕ | Admissible (siliconRow false) s ((1 / 2) ^ k)} 1 := by
      constructor
      · exact (hs.admissible_iff _).2 (by norm_num [drained, filled])
      · intro k hk
        apply Nat.one_le_iff_ne_zero.2
        rintro rfl
        have hwhole := ((hs.admissible_iff _).1 hk).1.1
        norm_num [drained] at hwhole
    obtain ⟨-, hfound, -⟩ := findDamping_least_power hs.shaped
    exact ⟨s, hs, hfound 1 (by decide) hleast⟩
  · have hfirst : rowOutcome false drained floored = some (.error 65) := by decide +kernel
    have hlast : rowOutcome true floored drained = some (.error 64) := by decide +kernel
    obtain ⟨s, hs, -⟩ := exists_rowState hfirst
    obtain ⟨s', hs', -⟩ := exists_rowState hlast
    obtain ⟨-, -, hexhausted, hsame⟩ := findDamping_least_power hs.shaped
    obtain ⟨k, hk⟩ := hexhausted fun k _ hadmissible => by
      have hfloor := ((hs.admissible_iff _).1 hadmissible).2.1
      have hpos : (0 : ℚ) < (1 / 2) ^ k := by positivity
      rw [show floored = ⟨1, 1, -1, -1⟩ from rfl] at hfloor
      linarith
    exact ⟨s, s', k, hs, hs', hk.1, hk.2.1, hk.2.2, hsame _ _ _ hs'.shaped (hs.renumbers hs')⟩

/-- **The halvings of an exhausted search depend on how the nodes are numbered.** Where the node
that may follow half of its increment comes first, it halves the factor once before the other node
halves it twice in every sweep; where it comes last, the factor has been halved before it is
asked. -/
theorem halvings_depend_on_order :
    ∃ s s', Shaped (siliconRow false) s ∧ Shaped (siliconRow true) s' ∧
      AboveFloor (siliconRow false) s.field ∧ AboveFloor (siliconRow true) s'.field ∧
      Renumbers (Equiv.swap 1 2) (siliconRow false) (siliconRow true) s s' ∧
      findDamping (siliconRow false).settings s = .error (.dampingExhausted 65) ∧
      findDamping (siliconRow true).settings s' = .error (.dampingExhausted 64) := by
  have hfirst : rowOutcome false drained floored = some (.error 65) := by decide +kernel
  have hlast : rowOutcome true floored drained = some (.error 64) := by decide +kernel
  obtain ⟨s, hs, hfind⟩ := exists_rowState hfirst
  obtain ⟨s', hs', hfind'⟩ := exists_rowState hlast
  have hdrained : 1 ≤ drained.electrons ∧ 1 ≤ drained.holes := by decide +kernel
  have hfloored : 1 ≤ floored.electrons ∧ 1 ≤ floored.holes := by decide +kernel
  exact ⟨s, s', hs.shaped, hs'.shaped, hs.aboveFloor hdrained hfloored,
    hs'.aboveFloor hfloored hdrained, hs.renumbers hs', hfind, hfind'⟩

end TwoCarrier

end CarrierTransport.Newton
