import Mathlib
import CarrierTransport.Newton.Problem
import CarrierTransport.Proofs.LinearSystem.Places

/-!
# Assembling on fixed places

An assembly starts from cleared arrays and writes to places that were fixed when the system was
built (`Assembly.Over`). So what it ends in does not depend on the numbers it found
(`Assembly.rebuild_eq`), and it cannot fail if every contribution is addressed to a place
(`Assembly.rebuild_ok`). The equations of the two contacts are the last to be written
(`Assembly.of_rebuild`).
-/

namespace CarrierTransport.Newton

open LinearSystem (BlockMatrix MatrixError)
open LinearSystem.BlockMatrix
open Transition

variable {α : Type} [Scalar α]

/-! ### Addresses -/

/-- A contribution is addressed to a place of a system. -/
def Contribution.Addressed (base : BlockMatrix α) : Contribution α → Prop
  | .coefficient rowNode columnNode rowSub columnSub _ =>
    rowSub < base.layout.sizes.getD rowNode 0 ∧ columnSub < base.layout.sizes.getD columnNode 0 ∧
      base.layout.offset columnNode + columnSub ∈
        base.columnsOf (base.layout.offset rowNode + rowSub)
  | .source node sub _ => sub < base.layout.sizes.getD node 0
  | .scale node sub _ => sub < base.layout.sizes.getD node 0
  | .coupling node sub _ => sub < base.layout.sizes.getD node 0
  | .unknownIndex => False

namespace Assembly

variable {stride : Nat}

/-- An assembly on the places of a system. -/
structure Over (base : BlockMatrix α) (a : Assembly stride α) : Prop where
  matrix : base.SameSystem a.matrix
  scales : a.scales.size = stride * base.layout.nodeCount
  couplings : a.couplings.size = stride * base.layout.nodeCount

variable {base : BlockMatrix α} {a b a' : Assembly stride α} {c : Contribution α}
  {cs : List (Contribution α)} {diagonal : α} {lastNode : Nat}

theorem over_ofMatrix (base : BlockMatrix α) : (ofMatrix base : Assembly stride α).Over base := by
  refine ⟨.rfl, ?_, ?_⟩
  · simp [ofMatrix]
  · simp [ofMatrix]

theorem Over.clear (h : a.Over base) : a.clear.Over base := by
  refine ⟨h.matrix.trans a.matrix.sameSystem_clear, ?_, ?_⟩
  · simp [Assembly.clear, h.scales]
  · simp [Assembly.clear, h.couplings]

/-- Assemblies on the same places are cleared to the same assembly. -/
theorem Over.clear_eq (ha : a.Over base) (hb : b.Over base) : a.clear = b.clear := by
  rw [Assembly.clear, Assembly.clear, ha.matrix.clear_eq, hb.matrix.clear_eq]
  simp only [Array.map_const', ha.scales, hb.scales, ha.couplings, hb.couplings]

/-! ### One contribution -/

theorem Over.contribute (h : a.Over base) (hc : a.contribute c = .ok a') : a'.Over base := by
  cases c with
  | coefficient i j k l amount =>
    obtain ⟨m, hm, hc⟩ := except_bind_eq_ok.1 hc
    cases hc
    exact ⟨h.matrix.trans (sameSystem_of_modifyEntry (modifyBlockEntry_eq_ok hm)), h.scales,
      h.couplings⟩
  | source i k amount =>
    obtain ⟨m, hm, hc⟩ := except_bind_eq_ok.1 hc
    cases hc
    exact ⟨h.matrix.trans (sameSystem_of_modifyBlockRhs hm), h.scales, h.couplings⟩
  | scale i k magnitude =>
    cases hc
    exact ⟨h.matrix, by simp [h.scales], h.couplings⟩
  | coupling i k magnitude =>
    cases hc
    exact ⟨h.matrix, h.scales, by simp [h.couplings]⟩
  | unknownIndex => cases hc

theorem Over.contribute_ok (h : a.Over base) (hc : c.Addressed base) :
    ∃ a', a.contribute c = .ok a' := by
  cases c with
  | coefficient i j k l amount =>
    obtain ⟨hk, hl, hplace⟩ := hc
    rw [← h.matrix.columnsOf] at hplace
    rw [← h.matrix.layout] at hk hl hplace
    obtain ⟨m, hm⟩ := exists_modifyBlockEntry hk hl hplace (· + amount)
    exact ⟨_, except_bind_eq_ok.2 ⟨m, hm, rfl⟩⟩
  | source i k amount =>
    have hk : k < a.matrix.layout.sizes.getD i 0 := by
      rw [h.matrix.layout]
      exact hc
    exact ⟨_, except_bind_eq_ok.2 ⟨_, modifyBlockRhs_of_lt hk (· + amount), rfl⟩⟩
  | scale i k magnitude => exact ⟨_, rfl⟩
  | coupling i k magnitude => exact ⟨_, rfl⟩
  | unknownIndex => exact hc.elim

/-! ### All contributions -/

theorem assemble_cons (a : Assembly stride α) :
    assemble (c :: cs) a = match a.contribute c with
      | .ok a' => assemble cs a'
      | .error e => .error e a := by
  change EStateM.bind (replace (contribute · c)) (fun _ => assemble cs) a = _
  rw [EStateM.bind, replace]
  cases a.contribute c <;> rfl

theorem Over.assemble (h : a.Over base) (cs : List (Contribution α)) :
    Ends (fun _ => Over base) (fun _ => Over base) (assemble cs a) := by
  induction cs generalizing a with
  | nil => exact .ok h
  | cons c cs ih =>
    rw [assemble_cons]
    cases hc : a.contribute c with
    | error e => exact .error h
    | ok a' => exact ih (h.contribute hc)

theorem Over.assemble_ok (h : a.Over base) (hcs : ∀ c ∈ cs, c.Addressed base) :
    ∃ a', Assembly.assemble cs a = .ok () a' ∧ a'.Over base := by
  induction cs generalizing a with
  | nil => exact ⟨a, rfl, h⟩
  | cons c cs ih =>
    obtain ⟨a', hc⟩ := h.contribute_ok (hcs c List.mem_cons_self)
    obtain ⟨a'', hcs', hover⟩ := ih (h.contribute hc) fun c' hc' =>
      hcs c' (List.mem_cons_of_mem c hc')
    refine ⟨a'', ?_, hover⟩
    rw [assemble_cons, hc]
    exact hcs'

/-! ### A whole assembly -/

/-- The equations of a contact written into an assembly. -/
def ground (node : Nat) (diagonal : α) : EStateM (MatrixError α) (Assembly stride α) Unit :=
  replace fun a => return { a with matrix := ← a.matrix.applyDirichlet node diagonal }

theorem rebuild_eq_bind (a : Assembly stride α) :
    rebuild cs diagonal lastNode a =
      (do
        assemble cs
        ground 0 diagonal
        ground lastNode diagonal) a.clear :=
  rfl

/-- **An assembly does not depend on what it finds.** -/
theorem rebuild_eq (ha : a.Over base) (hb : b.Over base) :
    rebuild cs diagonal lastNode a = rebuild cs diagonal lastNode b := by
  rw [rebuild_eq_bind, rebuild_eq_bind, ha.clear_eq hb]

theorem ground_eq_ok {node : Nat} {u : Unit} :
    ground node diagonal a = .ok u a' ↔
      ∃ m, a.matrix.applyDirichlet node diagonal = .ok m ∧ { a with matrix := m } = a' := by
  rw [ground, replace_eq_ok]
  refine except_bind_eq_ok.trans (exists_congr fun m => and_congr_right fun _ => ?_)
  exact ⟨fun h => by cases h; rfl, fun h => by rw [← h]; rfl⟩

theorem Over.ground (h : a.Over base) (node : Nat) (diagonal : α) :
    Ends (fun _ => Over base) (fun _ => Over base) (ground node diagonal a) := by
  rw [Assembly.ground, replace]
  cases hm : a.matrix.applyDirichlet node diagonal with
  | error e => exact .error h
  | ok m => exact .ok ⟨h.matrix.trans (of_applyDirichlet hm).1, h.scales, h.couplings⟩

theorem Over.rebuild (h : a.Over base) (cs : List (Contribution α)) (diagonal : α)
    (lastNode : Nat) :
    Ends (fun _ => Over base) (fun _ => Over base) (rebuild cs diagonal lastNode a) := by
  rw [rebuild_eq_bind]
  refine (h.clear.assemble cs).bind fun _ _ h => ?_
  refine (h.ground 0 diagonal).bind fun _ _ h => ?_
  exact h.ground lastNode diagonal

/-- How an assembly that succeeds came about. -/
theorem of_rebuild {u : Unit} (h : Assembly.rebuild cs diagonal lastNode a = .ok u a') :
    ∃ b m, Assembly.assemble cs a.clear = .ok () b ∧
      b.matrix.applyDirichlet 0 diagonal = .ok m ∧
      m.applyDirichlet lastNode diagonal = .ok a'.matrix ∧
      a'.scales = b.scales ∧ a'.couplings = b.couplings := by
  rw [rebuild_eq_bind] at h
  obtain ⟨_, b, hassemble, h⟩ := bind_eq_ok.1 h
  obtain ⟨_, b', hfirst, h⟩ := bind_eq_ok.1 h
  obtain ⟨m, hm, rfl⟩ := ground_eq_ok.1 hfirst
  obtain ⟨m', hm', rfl⟩ := ground_eq_ok.1 h
  exact ⟨b, m, hassemble, hm, hm', rfl, rfl⟩

/-- **An assembly succeeds if its contributions have places.** -/
theorem Over.rebuild_ok (h : a.Over base) (hcs : ∀ c ∈ cs, c.Addressed base) (diagonal : α)
    (hlast : lastNode < base.layout.nodeCount) :
    ∃ a', Assembly.rebuild cs diagonal lastNode a = .ok () a' ∧ a'.Over base := by
  obtain ⟨b, hb, hover⟩ := h.clear.assemble_ok hcs
  have hfirst : 0 < b.matrix.layout.nodeCount := by
    rw [hover.matrix.layout]
    omega
  obtain ⟨m, hm⟩ : ∃ m, b.matrix.applyDirichlet 0 diagonal = .ok m :=
    ⟨_, applyDirichlet_of_lt hfirst⟩
  have hsame := hover.matrix.trans (of_applyDirichlet hm).1
  have hlast' : lastNode < m.layout.nodeCount := by
    rw [hsame.layout]
    exact hlast
  obtain ⟨m', hm'⟩ : ∃ m', m.applyDirichlet lastNode diagonal = .ok m' :=
    ⟨_, applyDirichlet_of_lt hlast'⟩
  refine ⟨{ b with matrix := m' }, ?_, hsame.trans (of_applyDirichlet hm').1, hover.scales,
    hover.couplings⟩
  rw [rebuild_eq_bind]
  refine bind_eq_ok.2 ⟨(), b, hb, bind_eq_ok.2 ⟨(), { b with matrix := m }, ?_, ?_⟩⟩
  · exact ground_eq_ok.2 ⟨m, hm, rfl⟩
  · exact ground_eq_ok.2 ⟨m', hm', rfl⟩

/-! ### Residuals -/

/-- A residual can be looked at where there is an unknown. -/
theorem Over.check_ok (h : a.Over base) {relative : α → α → α} {node sub : Nat}
    (report : ResidualReport α) (hsub : sub < base.layout.sizes.getD node 0)
    (hplace : base.layout.offset node + sub ∈ base.columnsOf (base.layout.offset node + sub)) :
    ∃ report', a.check relative node sub report = .ok report' := by
  rw [← h.matrix.columnsOf, ← h.matrix.layout] at hplace
  rw [← h.matrix.layout] at hsub
  exact ⟨_, except_bind_eq_ok.2 ⟨_, blockRhs_of_lt hsub,
    except_bind_eq_ok.2 ⟨_, blockEntry_of_mem hsub hsub hplace, rfl⟩⟩⟩

end Assembly

end CarrierTransport.Newton
