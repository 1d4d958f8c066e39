import Mathlib
import CarrierTransport.Proofs.LinearSystem.Dirichlet
import CarrierTransport.Proofs.Newton.History
import CarrierTransport.Proofs.Newton.PoissonEquation

/-!
# Equations of the contacts

The contacts are held at their potentials, so they have no equations of their own. Elements and
nodes contribute to their rows all the same, and only when everything has been assembled are these
rows replaced by placeholders. A setup does that to the rows of the two contacts, whatever numbers
are in the field or have been left in the system, and it does nothing else to what was assembled
(`setup_replaces_contacts`).
-/

namespace CarrierTransport.Newton

open LinearSystem (BlockMatrix Workspace)
open LinearSystem.BlockMatrix
open Mesh (IsLine)
open Physics (MaterialModel)
open State (NodeField)
open Transition

/-! ### Assemblies -/

section Rebuild

variable {M α : Type} [Scalar α] {stride : Nat}

/-- The row is one of a contact. -/
def Problem.IsContactRow (p : Problem M α) (m : BlockMatrix α) (row : Nat) : Prop :=
  ∃ node, p.IsContact node ∧ row ∈ m.layout.block node

/-- How two assemblies differ when the rows of the contacts have been replaced. -/
structure Problem.ReplacesContacts (p : Problem M α) (before after : Assembly stride α) :
    Prop where
  /-- Nothing is touched but the rows of the contacts. -/
  kept : before.matrix.KeepsRows after.matrix (p.IsContactRow before.matrix)
  scales : after.scales = before.scales
  couplings : after.couplings = before.couplings
  placeholder : ∀ row, p.IsContactRow after.matrix row →
    after.matrix.IsPlaceholder p.settings.dirichletDiagonal row

variable {p : Problem M α} {cs : List (Contribution α)} {a a' : Assembly stride α}

theorem Problem.replacesContacts_of_rebuild
    (h : Assembly.rebuild cs p.settings.dirichletDiagonal p.lastNode a = .ok () a') :
    ∃ b, Assembly.assemble cs a.clear = .ok () b ∧ p.ReplacesContacts b a' := by
  obtain ⟨b, m, hassemble, hfirst, hlast, hscales, hcouplings⟩ := Assembly.of_rebuild h
  have hkeeps := keepsRows_applyDirichlet hfirst
  have hkeeps' := keepsRows_applyDirichlet hlast
  have hlayout : m.layout = b.matrix.layout := hkeeps.layout
  have hlayout' : a'.matrix.layout = b.matrix.layout := hkeeps'.layout.trans hlayout
  refine ⟨b, hassemble, ?_, hscales, hcouplings, ?_⟩
  · -- the rows of the two replacements together are those of the contacts
    have hboth := hkeeps.trans hkeeps'
    rw [hlayout] at hboth
    refine ⟨hboth.toSameSystem, hboth.solution, ?_, ?_⟩
    · intro row hrow
      refine hboth.rows row fun hmem => hrow ?_
      rcases hmem with hmem | hmem
      · exact ⟨0, .inl rfl, hmem⟩
      · exact ⟨p.lastNode, .inr rfl, hmem⟩
    · intro row hrow
      refine hboth.rhs row fun hmem => hrow ?_
      rcases hmem with hmem | hmem
      · exact ⟨0, .inl rfl, hmem⟩
      · exact ⟨p.lastNode, .inr rfl, hmem⟩
  · rintro row ⟨node, hnode, hrow⟩
    rw [hlayout'] at hrow
    by_cases hmem : row ∈ b.matrix.layout.block p.lastNode
    · rw [← hlayout] at hmem
      exact isPlaceholder_applyDirichlet hlast hmem
    · rcases hnode with rfl | rfl
      · rw [← hlayout] at hmem
        exact (isPlaceholder_applyDirichlet hfirst hrow).of_keepsRows hkeeps' hmem
      · exact absurd hrow hmem

/-- The placeholders of a solver have a place on the diagonal. -/
theorem Problem.Equipped.mem_columnsOf_self {sizes : Array Nat} {ws : Workspace α}
    (h : p.Equipped sizes a ws) {row : Nat} (hrow : p.IsContactRow a.matrix row) :
    row ∈ a.matrix.columnsOf row := by
  obtain ⟨base, hbase, hover, -⟩ := h
  obtain ⟨node, -, hmem⟩ := hrow
  exact p.mem_columnsOf_self hbase hover.matrix hmem

end Rebuild

/-! ### Setups -/

/-- **A setup replaces the equations of the contacts and nothing else.** Whatever the field and the
system hold before: contributions are assembled from nothing, and in what they make the rows of the
two contacts become placeholders, every other row is kept and so are places, magnitudes and the
field. The placeholders of a solver have a place on the diagonal.

A replacement of the equations of a node keeps all other rows, can be repeated without effect and
can change places with one at another node. -/
theorem setup_replaces_contacts :
    (∀ {M α : Type} [Scalar α] [MaterialModel M α] [BEq M] {p : Problem M α}
      {s t : PoissonState α}, Poisson.setup p s = .ok () t →
      t.field = s.field ∧
      ∃ b, Assembly.assemble (Poisson.contributions p s.field) s.assembly.clear = .ok () b ∧
        p.ReplacesContacts b t.assembly) ∧
    (∀ {M α : Type} [Scalar α] [MaterialModel M α] [BEq M] {p : Problem M α}
      {s t : TwoCarrierState α}, TwoCarrier.setup p s = .ok () t →
      t.field = s.field ∧
      ∃ b, Assembly.assemble (TwoCarrier.contributions p s.field) s.assembly.clear = .ok () b ∧
        p.ReplacesContacts b t.assembly) ∧
    (∀ {M α : Type} [Scalar α] [MaterialModel M α] [BEq M] {p : Problem M α}
      {s t : PoissonState α} {field : NodeField α}, Poisson.Reachable p s →
      Poisson.setup p { s with field } = .ok () t →
      ∀ row, p.IsContactRow t.assembly.matrix row → row ∈ t.assembly.matrix.columnsOf row) ∧
    (∀ {M α : Type} [Scalar α] [MaterialModel M α] [BEq M] {p : Problem M α}
      {s t : TwoCarrierState α} {field : NodeField α}, TwoCarrier.Reachable p s →
      TwoCarrier.setup p { s with field } = .ok () t →
      ∀ row, p.IsContactRow t.assembly.matrix row → row ∈ t.assembly.matrix.columnsOf row) ∧
    (∀ {α : Type} [Scalar α] {m m' : BlockMatrix α} {node : Nat} {diagonal : α},
      m.applyDirichlet node diagonal = .ok m' →
      m.KeepsRows m' (· ∈ m.layout.block node) ∧
      (∀ row ∈ m.layout.block node, m'.IsPlaceholder diagonal row) ∧
      m'.applyDirichlet node diagonal = .ok m') ∧
    (∀ {α : Type} [Scalar α] (m : BlockMatrix α) (diagonal diagonal' : α) {i j : Nat}, i ≠ j →
      (m.applyDirichlet i diagonal >>= fun m' => m'.applyDirichlet j diagonal') =
        (m.applyDirichlet j diagonal' >>= fun m' => m'.applyDirichlet i diagonal)) := by
  refine ⟨?poisson, ?twoCarrier, ?poissonDiagonal, ?twoCarrierDiagonal, ?node, ?nodes⟩
  case poisson =>
    intro M α _ _ _ p s t h
    obtain ⟨hrebuild, hfield⟩ := Poisson.of_setup h
    exact ⟨hfield, p.replacesContacts_of_rebuild hrebuild⟩
  case twoCarrier =>
    intro M α _ _ _ p s t h
    obtain ⟨hrebuild, hfield⟩ := TwoCarrier.of_setup h
    exact ⟨hfield, p.replacesContacts_of_rebuild hrebuild⟩
  case poissonDiagonal =>
    intro M α _ _ _ p s t field hs h
    have hends := hs.shaped.equipped.rebuild (Poisson.contributions p field)
      p.settings.dirichletDiagonal p.lastNode
    rw [(Poisson.of_setup h).1] at hends
    intro row hrow
    exact hends.left.mem_columnsOf_self hrow
  case twoCarrierDiagonal =>
    intro M α _ _ _ p s t field hs h
    have hends := hs.shaped.equipped.rebuild (TwoCarrier.contributions p field)
      p.settings.dirichletDiagonal p.lastNode
    rw [(TwoCarrier.of_setup h).1] at hends
    intro row hrow
    exact hends.left.mem_columnsOf_self hrow
  case node =>
    intro α _ m m' node diagonal h
    exact ⟨keepsRows_applyDirichlet h, fun _ => isPlaceholder_applyDirichlet h,
      applyDirichlet_again h⟩
  case nodes =>
    intro α _ m diagonal diagonal' i j hij
    exact applyDirichlet_swap hij

theorem isLine_slab : IsLine slab.mesh [0] fun _ => 0 where
  elements_size := rfl
  nodes_size := rfl
  element e he := by
    match e, he with
    | 0, _ => exact ⟨_, rfl, rfl, rfl, rfl⟩
  node i hi := by
    match i, hi with
    | 0, _ => rfl
    | 1, _ => rfl

theorem sound_slab : slab.Sound := by
  have hmaterial : ∀ r ∈ [0], ∃ m, slab.table.material? r = some m := by
    intro r hr
    rw [List.mem_singleton.1 hr]
    exact ⟨_, rfl⟩
  apply Problem.sound_of_isLine isLine_slab (by decide) hmaterial
  rintro node - element ⟨e, he, -⟩ ⟨m, hm, hsemiconductor⟩
  obtain ⟨-, -, -, hregion⟩ := isLine_slab.of_getElem? he
  rw [List.mem_singleton.1 (List.mem_of_getElem? hregion)] at hm
  cases hm
  cases hsemiconductor

/-- The placeholders of the slab, whose field holds something that is not a number. -/
theorem setup_replaces_contacts_slab :
    ∃ s t s' t', Poisson.start slab brokenField = .ok s ∧ Poisson.setup slab s = .ok () t ∧
      TwoCarrier.start slab brokenField = .ok s' ∧ TwoCarrier.setup slab s' = .ok () t' ∧
      (∃ b, Assembly.assemble (Poisson.contributions slab brokenField) s.assembly.clear =
        .ok () b ∧ slab.ReplacesContacts b t.assembly) ∧
      (∃ b, Assembly.assemble (TwoCarrier.contributions slab brokenField) s'.assembly.clear =
        .ok () b ∧ slab.ReplacesContacts b t'.assembly) ∧
      (∀ row, slab.IsContactRow t.assembly.matrix row →
        row ∈ t.assembly.matrix.columnsOf row) ∧
      (∀ row, slab.IsContactRow t'.assembly.matrix row →
        row ∈ t'.assembly.matrix.columnsOf row) ∧
      (∃ m, t.assembly.matrix.applyDirichlet 1 1 = .ok m ∧ m.applyDirichlet 1 1 = .ok m) ∧
      (t.assembly.matrix.applyDirichlet 0 1 >>= fun m => m.applyDirichlet 1 2) =
        (t.assembly.matrix.applyDirichlet 1 2 >>= fun m => m.applyDirichlet 0 1) := by
  obtain ⟨hpoisson, htwoCarrier, hdiagonal, hdiagonal', hnode, hnodes⟩ := setup_replaces_contacts
  have hsize : brokenField.nodeCount = slab.nodeCount := rfl
  obtain ⟨s, hs⟩ := Poisson.exists_start sound_slab hsize
  obtain ⟨s', hs'⟩ := TwoCarrier.exists_start sound_slab hsize
  obtain ⟨hshaped, hfield⟩ := Poisson.shaped_start hs
  obtain ⟨hshaped', hfield'⟩ := TwoCarrier.shaped_start hs'
  obtain ⟨base, a, t, hbase, hover, -, ht, rfl⟩ :=
    Poisson.exists_setup sound_slab.toClosed hshaped
  obtain ⟨-, -, t', -, -, -, ht', -⟩ := TwoCarrier.exists_setup sound_slab hshaped'
  have hcount : 1 < t.assembly.matrix.layout.nodeCount := by
    rw [hover.matrix.layout, slab.nodeCount_matrix hbase]
    decide
  have happly : t.assembly.matrix.applyDirichlet 1 1 = .ok _ :=
    applyDirichlet_eq_ok.2 ⟨hcount, rfl⟩
  have hassembled := (hpoisson ht).2
  have hassembled' := (htwoCarrier ht').2
  rw [hfield] at hassembled
  rw [hfield'] at hassembled'
  exact ⟨s, t, s', t', hs, ht, hs', ht', hassembled, hassembled', hdiagonal (.start hs) ht,
    hdiagonal' (.start hs') ht', ⟨_, happly, (hnode happly).2.2⟩, hnodes _ 1 2 (by decide)⟩

end CarrierTransport.Newton
