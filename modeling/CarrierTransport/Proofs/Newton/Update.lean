import Mathlib
import CarrierTransport.Newton.TwoCarrier
import CarrierTransport.Proofs.LinearSystem.Places
import CarrierTransport.Proofs.Loop

/-!
# Updates in place

A two-carrier update writes to the field where it stands: the potential of a node, then its
densities, then the next node. Each write reads an increment first, so in principle it could fail
half way (`TwoCarrier.updateInPlace_eq` tells what it would leave behind). Where it succeeds, it has
moved every node exactly as the increments say (`TwoCarrier.update_of_updateInPlace`).

A state whose solution has a number for every unknown lets no read fail. What can fail then is the
search for a damping factor alone, and that comes before the first write, so such an update either
is carried out in full or leaves everything as it was (`TwoCarrier.Fitting.updateInPlace_eq`).
-/

namespace CarrierTransport.Newton.TwoCarrier

open LinearSystem (BlockMatrix)
open LinearSystem.BlockMatrix
open Physics (MaterialKind)
open State (NodeField NodeState Unknown)
open Transition

/-! ### Blocks -/

section Blocks

variable {M α : Type} [MaterialKind M] {p : Problem M α} {sizes : Array Nat} {node : Nat}

theorem size_blockSizes (h : blockSizes p = .ok sizes) : sizes.size = p.nodeCount := by
  obtain ⟨list, hlist, rfl⟩ := except_map_eq_ok.1 h
  have hlength := (Loop.mapM_eq_ok.1 hlist).length_eq
  rw [List.length_range] at hlength
  exact hlength.symm

theorem getElem?_blockSizes (h : blockSizes p = .ok sizes) (hnode : node < p.nodeCount) :
    ∃ m, p.governing? node = some m ∧
      sizes[node]? = some (if MaterialKind.isSemiconductor m then semiconductorBlock else 1) := by
  obtain ⟨list, hlist, rfl⟩ := except_map_eq_ok.1 h
  rw [Loop.mapM_eq_ok, List.forall₂_iff_get] at hlist
  obtain ⟨hlength, hall⟩ := hlist
  rw [List.length_range] at hlength
  have hsize := hall node (by rwa [List.length_range]) (by omega)
  simp only [List.get_eq_getElem, List.getElem_range] at hsize
  split at hsize
  · next m hm =>
    refine ⟨m, hm, ?_⟩
    rw [List.getElem?_toArray, List.getElem?_eq_getElem (by omega), ← Except.ok.inj hsize]
  · cases hsize

/-- A node that has an unknown has a governing material, which says how many it has. -/
theorem exists_governing_of_lt {k : Nat} (h : blockSizes p = .ok sizes)
    (hk : k < sizes.getD node 0) :
    ∃ m, p.governing? node = some m ∧
      k < if MaterialKind.isSemiconductor m then semiconductorBlock else 1 := by
  rw [Array.getD_eq_getD_getElem?] at hk
  have hnode : node < p.nodeCount := by
    rw [← size_blockSizes h]
    by_contra hge
    rw [Array.getElem?_eq_none (not_lt.1 hge)] at hk
    exact Nat.not_lt_zero _ hk
  obtain ⟨m, hm, hsize⟩ := getElem?_blockSizes h hnode
  rw [hsize, Option.getD_some] at hk
  exact ⟨m, hm, hk⟩

theorem getD_blockSizes_pos (h : blockSizes p = .ok sizes) (hnode : node < p.nodeCount) :
    0 < sizes.getD node 0 := by
  obtain ⟨m, -, hm⟩ := getElem?_blockSizes h hnode
  rw [Array.getD_eq_getD_getElem?, hm, Option.getD_some]
  split_ifs <;> decide

theorem pos_of_mem_blockSizes (h : blockSizes p = .ok sizes) : ∀ size ∈ sizes, 0 < size := by
  intro size hsize
  obtain ⟨node, hnode, rfl⟩ := Array.mem_iff_getElem.1 hsize
  have hpos := getD_blockSizes_pos h (lt_of_lt_of_eq hnode (size_blockSizes h))
  rwa [Array.getD_eq_getD_getElem?, Array.getElem?_eq_getElem hnode] at hpos

omit [MaterialKind M] in
theorem mem_unknowns {u : Unknown} : (node, u) ∈ unknowns sizes ↔ u.sub < sizes.getD node 0 := by
  have hall : ∀ k (hk : k < Unknown.all.length), (Unknown.all[k]).sub = k := by decide
  constructor
  · intro h
    obtain ⟨us, hus, hu⟩ := List.mem_flatten.1 h
    rw [Array.mem_toList_iff, Array.mem_mapIdx] at hus
    obtain ⟨i, hi, rfl⟩ := hus
    obtain ⟨u', hu', heq⟩ := List.mem_map.1 hu
    cases heq
    rw [Array.getD_eq_getD_getElem?, Array.getElem?_eq_getElem hi, Option.getD_some]
    rw [Unknown.ofBlock, List.mem_take_iff_getElem] at hu'
    obtain ⟨k, hk, rfl⟩ := hu'
    rw [hall]
    omega
  · intro h
    have hnode : node < sizes.size := by
      by_contra hge
      rw [Array.getD_eq_getD_getElem?, Array.getElem?_eq_none (not_lt.1 hge)] at h
      exact Nat.not_lt_zero _ h
    rw [Array.getD_eq_getD_getElem?, Array.getElem?_eq_getElem hnode, Option.getD_some] at h
    apply List.mem_flatten.2
    refine ⟨_, Array.mem_toList_iff.2 (Array.mem_mapIdx.2 ⟨node, hnode, rfl⟩), ?_⟩
    apply List.mem_map.2
    refine ⟨u, List.mem_take_iff_getElem.2 ⟨u.sub, ?_, ?_⟩, rfl⟩
    · cases u <;> simp [Unknown.all, Unknown.sub] at h ⊢ <;> omega
    · cases u <;> rfl

end Blocks

variable {α : Type} [Scalar α] {settings : Settings α} {s t : TwoCarrierState α}
  {m : BlockMatrix α} {share floor factor : α} {f f' : NodeField α} {e : NewtonError α} {x : Unit}

/-! ### One node -/

theorem moveUnknown_eq_ok {bound : α → α} {node : Nat} {u : Unknown} :
    moveUnknown m share bound node u f = .ok x f' ↔ ∃ v, m.blockSolution node u.sub = .ok v ∧
      f' = ⟨f.nodes.modify node fun s =>
        s.set u.quantity (bound (s.get u.quantity + share * v))⟩ := by
  rw [moveUnknown, replace_eq_ok]
  refine except_bind_eq_ok.trans (exists_congr fun v => and_congr_right fun _ => ?_)
  exact ⟨fun h => by cases h; rfl, fun h => by rw [h]; rfl⟩

/-- A node that is moved goes to the state that its increments lead to, and no other node moves. -/
theorem of_moveNode {size node : Nat} (h : moveNode m share floor size node f = .ok x f') :
    ∃ next : NodeState α → NodeState α, f' = ⟨f.nodes.modify node next⟩ ∧
      ∀ s, advance m share floor size node s = .ok (next s) := by
  rw [moveNode] at h
  obtain ⟨_, g, hpotential, h⟩ := bind_eq_ok.1 h
  obtain ⟨v, hv, rfl⟩ := moveUnknown_eq_ok.1 hpotential
  split_ifs at h with hsize
  · obtain ⟨_, g, helectrons, h⟩ := bind_eq_ok.1 h
    obtain ⟨n, hn, rfl⟩ := moveUnknown_eq_ok.1 helectrons
    obtain ⟨q, hq, rfl⟩ := moveUnknown_eq_ok.1 h
    let next (s : NodeState α) : NodeState α :=
      { s with
        potential := s.potential + share * v
        electronDensity := Scalar.larger (s.electronDensity + share * n) floor
        holeDensity := Scalar.larger (s.holeDensity + share * q) floor }
    refine ⟨next, congrArg NodeField.mk ?_, fun s => ?_⟩
    · refine Array.ext_getElem? fun i => ?_
      simp only [Array.getElem?_modify]
      split_ifs
      · simp only [Option.map_map]
        rfl
      · rfl
    · rw [advance]
      refine except_bind_eq_ok.2 ⟨v, hv, ?_⟩
      rw [if_pos hsize]
      exact except_bind_eq_ok.2 ⟨n, hn, except_bind_eq_ok.2 ⟨q, hq, rfl⟩⟩
  · cases h
    refine ⟨_, rfl, fun s => ?_⟩
    rw [advance]
    refine except_bind_eq_ok.2 ⟨v, hv, ?_⟩
    rw [if_neg hsize]
    rfl

/-! ### All nodes -/

/-- The nodes that are moved go to the states that their increments lead to, the others stay. -/
theorem of_moveNodes {sizes : Array Nat} {count first : Nat}
    (h : moveNodes m share floor sizes count first f = .ok x f') :
    f'.nodeCount = f.nodeCount ∧ ∀ node s, f.nodes[node]? = some s →
      ∃ s', f'.nodes[node]? = some s' ∧
        if first ≤ node ∧ node < first + count then
          ∃ size, sizes[node]? = some size ∧ advance m share floor size node s = .ok s'
        else s' = s := by
  induction count generalizing first f with
  | zero =>
    cases h
    refine ⟨rfl, fun node s hs => ⟨s, hs, ?_⟩⟩
    rw [if_neg (by omega)]
  | succ count ih =>
    rw [moveNodes] at h
    cases hsize : sizes[first]? with
    | none =>
      rw [hsize] at h
      cases h
    | some size =>
      rw [hsize] at h
      obtain ⟨_, g, hnode, h⟩ := bind_eq_ok.1 h
      obtain ⟨next, rfl, hnext⟩ := of_moveNode hnode
      obtain ⟨hcount, hrest⟩ := ih h
      refine ⟨hcount.trans Array.size_modify, fun node s hs => ?_⟩
      by_cases hfirst : first = node
      · subst hfirst
        obtain ⟨s', hs', hkept⟩ := hrest first (next s) (by simp [Array.getElem?_modify, hs])
        rw [if_neg (by omega)] at hkept
        refine ⟨s', hs', ?_⟩
        rw [if_pos (by omega), hkept]
        exact ⟨size, hsize, hnext s⟩
      · obtain ⟨s', hs', hmoved⟩ := hrest node s (by simp [Array.getElem?_modify, hfirst, hs])
        refine ⟨s', hs', ?_⟩
        by_cases hlater : first + 1 ≤ node ∧ node < first + 1 + count
        · rw [if_pos hlater] at hmoved
          rwa [if_pos (by omega)]
        · rw [if_neg hlater] at hmoved
          rwa [if_neg (by omega)]

/-- Where all nodes have been moved the field is the one that all increments lead to. -/
theorem advanceField_of_moveNodes
    (h : moveNodes s.assembly.matrix (appliedShare settings factor) settings.densityFloor
      s.blockSizes s.field.nodeCount 0 s.field = .ok x f) :
    advanceField settings s factor = .ok f := by
  obtain ⟨hcount, hmoved⟩ := of_moveNodes h
  have hadvance : ∀ node (hnode : node < s.field.nodes.size) (hnode' : node < f.nodes.size),
      ∃ hsize : node < s.blockSizes.size, advance s.assembly.matrix (appliedShare settings factor)
        settings.densityFloor s.blockSizes[node] node s.field.nodes[node] = .ok f.nodes[node] := by
    intro node hnode hnode'
    obtain ⟨s', hs', hstate⟩ := hmoved node _ (Array.getElem?_eq_getElem hnode)
    rw [if_pos ⟨by omega, by rwa [Nat.zero_add]⟩] at hstate
    obtain ⟨size, hsize, hstate⟩ := hstate
    obtain ⟨hlt, rfl⟩ := Array.getElem?_eq_some_iff.1 hsize
    rw [Array.getElem?_eq_getElem hnode'] at hs'
    cases hs'
    exact ⟨hlt, hstate⟩
  have hsizes : s.field.nodes.size ≤ s.blockSizes.size := by
    by_contra hlt
    have hnode : s.blockSizes.size < s.field.nodes.size := by omega
    exact lt_irrefl _ (hadvance _ hnode (lt_of_lt_of_eq hnode hcount.symm)).1
  refine except_bind_eq_ok.2 ⟨f.nodes.toList, Loop.mapM_eq_ok.2 ?_, rfl⟩
  refine List.forall₂_iff_get.2 ⟨?_, fun node hnode hnode' => ?_⟩
  · have hcount' : f.nodes.size = s.field.nodes.size := hcount
    simp [hcount', hsizes]
  · have hlt : node < s.field.nodes.size := by
      simp at hnode
      omega
    simpa using (hadvance node hlt (by simpa using hnode')).2

/-! ### Whole updates -/

/-- How an update ends. -/
theorem updateInPlace_eq (settings : Settings α) (s : TwoCarrierState α) :
    updateInPlace settings s =
      match findDamping settings s with
      | .error e => .error e s
      | .ok factor =>
        match moveNodes s.assembly.matrix (appliedShare settings factor) settings.densityFloor
          s.blockSizes s.field.nodeCount 0 s.field with
        | .error e f => .error (.matrix e) { s with dampingFactor := factor, field := f }
        | .ok () f => match incrementReports s.assembly.matrix f (unknowns s.blockSizes) with
          | .error e => .error (.matrix e) { s with dampingFactor := factor, field := f }
          | .ok reports => .ok () { s with
              dampingFactor := factor
              field := f
              increments := reports
              incrementConverged := reports.toList.all fun report =>
                (report.selected settings.incrementPolicy).magnitude <
                  settings.incrementTolerance } := by
  change EStateM.bind (replace _) _ s = _
  rw [EStateM.bind, replace]
  cases findDamping settings s with
  | error e => rfl
  | ok factor =>
    change EStateM.bind (widenError NewtonError.matrix (zoom TwoCarrierState.field _
      (moveNodes s.assembly.matrix (appliedShare settings factor) settings.densityFloor
        s.blockSizes s.field.nodeCount 0))) _ { s with dampingFactor := factor } = _
    rw [EStateM.bind, widenError, zoom]
    dsimp only
    cases moveNodes s.assembly.matrix (appliedShare settings factor) settings.densityFloor
      s.blockSizes s.field.nodeCount 0 s.field with
    | error e f => rfl
    | ok u f =>
      dsimp only [replace]
      cases incrementReports s.assembly.matrix f (unknowns s.blockSizes) <;> rfl

theorem update_eq_bind (settings : Settings α) (s : TwoCarrierState α) :
    update settings s = (do
      let factor ← findDamping settings s
      let field ← (advanceField settings s factor).mapError .matrix
      let reports ←
        (incrementReports s.assembly.matrix field (unknowns s.blockSizes)).mapError .matrix
      return { s with
        field
        dampingFactor := factor
        increments := reports
        incrementConverged := reports.toList.all fun report =>
          (report.selected settings.incrementPolicy).magnitude < settings.incrementTolerance }) := by
  rw [update, findDamping, bind_assoc]

theorem findDamping_eq_ok :
    findDamping settings s = .ok factor ↔ ∃ targets, dampingTargets s = .ok targets ∧
      Damping.find settings.densityFloor targets = .ok factor := by
  unfold findDamping
  rw [except_bind_eq_ok]
  simp only [mapError_eq_ok]

/-- What an update that succeeds has done. -/
theorem update_eq_ok :
    update settings s = .ok t ↔ ∃ field reports,
      findDamping settings s = .ok t.dampingFactor ∧
      advanceField settings s t.dampingFactor = .ok field ∧
      incrementReports s.assembly.matrix field (unknowns s.blockSizes) = .ok reports ∧
      t = { s with
        field
        dampingFactor := t.dampingFactor
        increments := reports
        incrementConverged := reports.toList.all fun report =>
          (report.selected settings.incrementPolicy).magnitude < settings.incrementTolerance } := by
  rw [update_eq_bind]
  simp only [except_bind_eq_ok, mapError_eq_ok]
  constructor
  · rintro ⟨factor, hfactor, field, hfield, reports, hreports, h⟩
    cases h
    exact ⟨field, reports, hfactor, hfield, hreports, rfl⟩
  · rintro ⟨field, reports, hfactor, hfield, hreports, h⟩
    exact ⟨_, hfactor, field, hfield, reports, hreports, congrArg Except.ok h.symm⟩

/-- An update that succeeds leads to the state that all increments together lead to. -/
theorem update_of_updateInPlace (h : updateInPlace settings s = .ok x t) :
    update settings s = .ok t := by
  rw [updateInPlace_eq] at h
  cases hfactor : findDamping settings s with
  | error e =>
    rw [hfactor] at h
    cases h
  | ok factor =>
    rw [hfactor] at h
    dsimp only at h
    split at h
    · cases h
    · next f hf =>
      have hfield := advanceField_of_moveNodes hf
      split at h
      · cases h
      · next reports hreports =>
        cases h
        exact update_eq_ok.2 ⟨f, reports, hfactor, hfield, hreports, rfl⟩

/-! ### Updates that cannot fail half way -/

/-- The solution of the last solve has a number for every unknown of the field. -/
structure Fitting (s : TwoCarrierState α) : Prop where
  sizes : s.assembly.matrix.layout.sizes = s.blockSizes
  nodes : s.blockSizes.size = s.field.nodeCount
  pos : ∀ size ∈ s.blockSizes, 0 < size

theorem moveNode_ok {size node : Nat} (h : m.layout.sizes[node]? = some size) (hpos : 0 < size)
    (share floor : α) (f : NodeField α) :
    ∃ f', moveNode m share floor size node f = .ok () f' := by
  have hmove : ∀ (bound : α → α) (u : Unknown) (f : NodeField α), u.sub < size →
      ∃ f', moveUnknown m share bound node u f = .ok () f' := by
    intro bound u f hu
    rw [← Option.getD_some (a := size) (b := 0), ← h, ← Array.getD_eq_getD_getElem?] at hu
    exact ⟨_, moveUnknown_eq_ok.2 ⟨_, blockSolution_of_lt hu, rfl⟩⟩
  obtain ⟨g, hpotential⟩ := hmove id .potential f hpos
  rw [moveNode]
  split_ifs with hsize
  · obtain ⟨g', helectrons⟩ := hmove (Scalar.larger · floor) .electronDensity g (by
      rw [hsize]
      decide)
    obtain ⟨f', hholes⟩ := hmove (Scalar.larger · floor) .holeDensity g' (by
      rw [hsize]
      decide)
    exact ⟨f', bind_eq_ok.2 ⟨(), g, hpotential, bind_eq_ok.2 ⟨(), g', helectrons, hholes⟩⟩⟩
  · exact ⟨g, bind_eq_ok.2 ⟨(), g, hpotential, rfl⟩⟩

theorem moveNodes_ok (hpos : ∀ size ∈ m.layout.sizes, 0 < size) {count first : Nat}
    (hcount : first + count ≤ m.layout.sizes.size) (share floor : α) (f : NodeField α) :
    ∃ f', moveNodes m share floor m.layout.sizes count first f = .ok () f' := by
  induction count generalizing first f with
  | zero => exact ⟨f, rfl⟩
  | succ count ih =>
    have hsize : m.layout.sizes[first]? = some m.layout.sizes[first] :=
      Array.getElem?_eq_getElem (by omega)
    obtain ⟨g, hg⟩ := moveNode_ok hsize (hpos _ (Array.getElem_mem (by omega))) share floor f
    obtain ⟨f', hf'⟩ := ih (show first + 1 + count ≤ m.layout.sizes.size by omega) g
    refine ⟨f', ?_⟩
    rw [moveNodes, hsize]
    exact bind_eq_ok.2 ⟨(), g, hg, hf'⟩

namespace Fitting

variable (h : Fitting s)

include h

theorem exists_blockSolution {q : Nat × Unknown} (hq : q ∈ unknowns s.blockSizes) :
    ∃ v, s.assembly.matrix.blockSolution q.1 q.2.sub = .ok v := by
  have hsub := mem_unknowns.1 hq
  rw [← h.sizes] at hsub
  exact ⟨_, blockSolution_of_lt hsub⟩

theorem exists_dampingTargets : ∃ targets, dampingTargets s = .ok targets := by
  refine Loop.exists_mapM fun q hq => ?_
  obtain ⟨v, hv⟩ := h.exists_blockSolution (List.mem_of_mem_filter hq)
  exact ⟨_, except_bind_eq_ok.2 ⟨v, hv, rfl⟩⟩

theorem exists_incrementReports (f : NodeField α) :
    ∃ reports, incrementReports s.assembly.matrix f (unknowns s.blockSizes) = .ok reports := by
  refine Loop.exists_foldlM _ fun q hq reports => ?_
  obtain ⟨v, hv⟩ := h.exists_blockSolution hq
  exact ⟨_, except_bind_eq_ok.2 ⟨v, hv, rfl⟩⟩

theorem dampingExhausted_of_findDamping (he : findDamping settings s = .error e) :
    ∃ halvings, e = .dampingExhausted halvings := by
  obtain ⟨targets, htargets⟩ := h.exists_dampingTargets
  rw [findDamping, htargets] at he
  cases hfactor : Damping.find settings.densityFloor targets with
  | ok factor =>
    simp only [bind, Except.bind, Except.mapError, hfactor] at he
    cases he
  | error halvings =>
    simp only [bind, Except.bind, Except.mapError, hfactor] at he
    cases he
    exact ⟨halvings, rfl⟩

/-- An update that fails has found no damping factor and written nothing. -/
theorem of_updateInPlace_error (he : updateInPlace settings s = .error e t) :
    t = s ∧ findDamping settings s = .error e := by
  rw [updateInPlace_eq] at he
  cases hfactor : findDamping settings s with
  | error e' =>
    rw [hfactor] at he
    cases he
    exact ⟨rfl, rfl⟩
  | ok factor =>
    rw [hfactor] at he
    dsimp only at he
    have hpos := h.pos
    have hcount : 0 + s.field.nodeCount ≤ s.blockSizes.size := by
      rw [h.nodes, Nat.zero_add]
    rw [← h.sizes] at hpos hcount
    obtain ⟨f, hf⟩ := moveNodes_ok hpos hcount (appliedShare settings factor)
      settings.densityFloor s.field
    obtain ⟨reports, hreports⟩ := h.exists_incrementReports f
    rw [h.sizes] at hf
    rw [hf] at he
    dsimp only at he
    rw [hreports] at he
    cases he

/-- **An update in place is a whole update or none.** -/
theorem updateInPlace_eq (settings : Settings α) :
    updateInPlace settings s = replace (update settings) s := by
  rw [replace]
  cases hr : updateInPlace settings s with
  | ok u t => rw [update_of_updateInPlace hr]
  | error e t =>
    obtain ⟨rfl, hfactor⟩ := h.of_updateInPlace_error hr
    rw [update_eq_bind, hfactor]
    rfl

end Fitting

end CarrierTransport.Newton.TwoCarrier
