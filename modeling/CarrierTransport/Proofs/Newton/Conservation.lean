import Mathlib
import CarrierTransport.Proofs.LinearSystem.Addresses
import CarrierTransport.Proofs.Newton.PoissonEquation
import CarrierTransport.Proofs.State.Unknown

/-!
# Carriers are conserved

What leaves a node through an element enters the node at its other end, so on a line the balance of
a carrier at an inner node is the difference of the fluxes through the elements beside it, and over
some nodes in a row the balances add up to the difference of the fluxes at the two ends. For the
same reason a change of an unknown moves carriers from one balance to another: the coefficients of a
column add up to zero over the balances of a carrier, unless the column meets the equations of a
contact (`TwoCarrier.setup_conserves`).

Only sums and products matter, so this holds over every field, whatever stands for the elementary
functions. Nothing is asked of the problem but that its setup succeeds: then all that was
contributed had a place (`Assembly.Over.placed_of_assemble`).
-/

namespace CarrierTransport.Newton

open Finset (range Ico)
open LinearSystem (BlockMatrix Layout)
open LinearSystem.BlockMatrix
open Mesh (Element IsLine)
open Physics (MaterialKind MaterialModel)
open State (NodeField NodeState Unknown)
open Transition

/-! ### Contributions that have places -/

section Places

variable {α : Type} [Scalar α] {stride : Nat} {base : BlockMatrix α} {a a' : Assembly stride α}
  {c : Contribution α} {cs : List (Contribution α)}

/-- A contribution to an equation has a place in a system. -/
def Contribution.Placed (base : BlockMatrix α) : Contribution α → Prop
  | .coefficient i j k l _ =>
    k < base.layout.sizes.getD i 0 ∧ l < base.layout.sizes.getD j 0 ∧
      base.layout.offset j + l ∈ base.columnsOf (base.layout.offset i + k)
  | .source i k _ => k < base.layout.sizes.getD i 0
  | _ => True

theorem Assembly.Over.placed_of_contribute (h : a.Over base) (hok : a.contribute c = .ok a') :
    c.Placed base := by
  cases c with
  | coefficient i j k l amount =>
    obtain ⟨m, hm, -⟩ := except_bind_eq_ok.1 hok
    obtain ⟨hk, hl⟩ := lt_of_modifyBlockEntry hm
    obtain ⟨position, hposition, -⟩ := except_bind_eq_ok.1 (modifyBlockEntry_eq_ok hm)
    have hplace := mem_columnsOf_of_position hposition
    rw [h.matrix.columnsOf] at hplace
    rw [h.matrix.layout] at hk hl hplace
    exact ⟨hk, hl, hplace⟩
  | source i k amount =>
    obtain ⟨m, hm, -⟩ := except_bind_eq_ok.1 hok
    have hk := lt_of_modifyBlockRhs hm
    rw [h.matrix.layout] at hk
    exact hk
  | scale i k magnitude => trivial
  | coupling i k magnitude => trivial
  | unknownIndex => trivial

/-- What an assembly that succeeds was made of had places. -/
theorem Assembly.Over.placed_of_assemble (h : a.Over base)
    (hok : Assembly.assemble cs a = .ok () a') : ∀ c ∈ cs, c.Placed base := by
  induction cs generalizing a with
  | nil => simp
  | cons c cs ih =>
    rw [assemble_cons] at hok
    cases hcontribute : a.contribute c with
    | error e =>
      rw [hcontribute] at hok
      cases hok
    | ok b =>
      rw [hcontribute] at hok
      exact List.forall_mem_cons.2
        ⟨h.placed_of_contribute hcontribute, ih (h.contribute hcontribute) hok⟩

end Places

/-! ### Sums over the balances -/

section Sums

variable {α : Type} [FieldScalar α] {base : BlockMatrix α} {cs ds : List (Contribution α)}
  {node node' sub sub' count : Nat}

theorem sources_eq_zero (hcs : ∀ c ∈ cs, c.Placed base)
    (h : ¬ sub < base.layout.sizes.getD node 0) : sources node sub cs = 0 := by
  apply List.sum_eq_zero
  intro x hx
  obtain ⟨c, hc, rfl⟩ := List.mem_map.1 hx
  have hplaced := hcs c hc
  cases c with
  | source i k amount =>
    rw [Contribution.sourceAt, same, if_neg, zero_mul]
    rintro ⟨rfl, rfl⟩
    exact h hplaced
  | _ => rfl

theorem coefficients_eq_zero (hcs : ∀ c ∈ cs, c.Placed base)
    (h : ¬ (Contribution.coefficient node node' sub sub' (0 : α)).Placed base) :
    coefficients node node' sub sub' cs = 0 := by
  apply List.sum_eq_zero
  intro x hx
  obtain ⟨c, hc, rfl⟩ := List.mem_map.1 hx
  have hplaced := hcs c hc
  cases c with
  | coefficient i j k l amount =>
    have hne : ¬ (i = node ∧ k = sub) ∨ ¬ (j = node' ∧ l = sub') := by
      rw [← not_and_or]
      rintro ⟨⟨rfl, rfl⟩, rfl, rfl⟩
      exact h hplaced
    rcases hne with hne | hne <;> simp [Contribution.coefficientAt, same, hne]
  | _ => rfl

/-- Whatever some contributions add to a column, they add it to one equation and take it off
another of the same unknown. -/
def Balanced (count : Nat) (cs : List (Contribution α)) : Prop :=
  ∀ node' sub sub', ∑ n ∈ range count, coefficients n node' sub sub' cs = 0

theorem balanced_nil : Balanced count ([] : List (Contribution α)) := by
  intro node' sub sub'
  simp

theorem Balanced.append (hcs : Balanced count cs) (hds : Balanced count ds) :
    Balanced count (cs ++ ds) := by
  intro node' sub sub'
  simp [Finset.sum_add_distrib, hcs node' sub sub', hds node' sub sub']

theorem Balanced.flatMap {ι : Type} {items : List ι} {f : ι → List (Contribution α)}
    (h : ∀ i ∈ items, Balanced count (f i)) : Balanced count (items.flatMap f) := by
  induction items with
  | nil => exact balanced_nil
  | cons i items ih =>
    obtain ⟨hi, hitems⟩ := List.forall_mem_cons.1 h
    exact hi.append (ih hitems)

/-- Of two nodes each has one equation for an unknown. -/
theorem sum_same_sub_same {i j k : Nat} (hi : i < count) (hj : j < count) :
    ∑ n ∈ range count, (same i k n sub - same j k n sub : α) = 0 := by
  have hone : ∀ {i}, i < count →
      ∑ n ∈ range count, (same i k n sub : α) = if k = sub then 1 else 0 := by
    intro i hi
    simp [same, ite_and, hi]
  rw [Finset.sum_sub_distrib, hone hi, hone hj, sub_self]

theorem balanced_edge {edge : Edge α} (hleft : edge.left < count) (hright : edge.right < count) :
    Balanced count edge.contributions := by
  intro node' sub sub'
  simp only [edge.coefficients_contributions]
  rw [← Finset.sum_mul, ← Finset.mul_sum, sum_same_sub_same hleft hright, mul_zero, zero_mul]

theorem balanced_balance {i j : Nat} (hi : i < count) (hj : j < count) (w : Unknown)
    {sign opposite : α → α} {factor : α} (hsign : ∀ v, sign v = factor * v)
    (hopposite : ∀ v, opposite v = -factor * v) (weight : α) (f : CarrierFlux α) :
    Balanced count (balanceContributions i j w sign opposite weight f) := by
  intro node' sub sub'
  simp only [coefficients_balance w hsign hopposite, mul_assoc]
  rw [← Finset.sum_mul, sum_same_sub_same hi hj, zero_mul]

theorem balanced_magnitude {i j : Nat} (w : Unknown) (weight left right : α) (f : CarrierFlux α) :
    Balanced count (magnitudeContributions i j w weight left right f) := by
  intro node' sub sub'
  simp only [coefficients_magnitude, Finset.sum_const_zero]

theorem balanced_flux {M : Type} [MaterialModel M α] (material : M) (temperature : α)
    (element : Element α) {edge : Edge α} (hleft : edge.left < count) (hright : edge.right < count)
    (left right : NodeState α) :
    Balanced count (fluxContributions material temperature element edge left right) := by
  have hid : ∀ v : α, id v = 1 * v := fun v => (one_mul v).symm
  have hneg : ∀ v : α, -v = -1 * v := fun v => (neg_one_mul v).symm
  have hid' : ∀ v : α, id v = - -1 * v := fun v => by rw [neg_neg, one_mul, id]
  apply Balanced.append
  · apply Balanced.append
    · apply Balanced.append
      · exact balanced_balance hleft hright .electronDensity hid hneg _ _
      · exact balanced_balance hleft hright .holeDensity hneg hid' _ _
    · exact balanced_magnitude .electronDensity _ _ _ _
  · exact balanced_magnitude .holeDensity _ _ _ _

end Sums

/-! ### Elements and nodes -/

namespace TwoCarrier

variable {M α : Type} [FieldScalar α] [MaterialModel M α] [BEq M] {p : Problem M α}
  {field : NodeField α} {count : Nat}

theorem balanced_element {element : Element α} (hleft : element.left < count)
    (hright : element.right < count) : Balanced count (elementContributions p field element) := by
  unfold elementContributions
  split
  · next edge material left right hedge _ _ _ =>
    obtain ⟨hleft', hright', -⟩ := Problem.of_edge? hedge
    rw [← hleft'] at hleft
    rw [← hright'] at hright
    apply (balanced_edge hleft hright).append
    split_ifs
    · exact balanced_flux material _ element hleft hright left right
    · exact balanced_nil
  · intro node' sub sub'
    simp [Contribution.coefficientAt]

theorem sum_coefficients (hends : ∀ element ∈ p.mesh.elements,
    element.left < count ∧ element.right < count) {sub : Nat} (hsub : sub ≠ 0) (node' sub' : Nat) :
    ∑ n ∈ range count, coefficients n node' sub sub' (contributions p field) = 0 := by
  have helements :
      Balanced count (p.mesh.elements.toList.flatMap (elementContributions p field)) := by
    apply Balanced.flatMap
    intro element helement
    obtain ⟨hleft, hright⟩ := hends element (Array.mem_toList_iff.1 helement)
    exact balanced_element hleft hright
  simp only [contributions, coefficients_append, coefficients_nodes p field (.inl hsub), add_zero]
  exact helements node' sub sub'

/-! ### Fluxes through elements -/

/-- The flux of a carrier through an element times mobility and area, zero for an insulator and
where there is no such element. -/
def fluxThrough (p : Problem M α) (field : NodeField α) (mobility : M → α)
    (flux : FluxSetting α → NodeState α → NodeState α → α) (e : Nat) : α :=
  match p.mesh.elements[e]? with
  | none => 0
  | some element =>
    match edge? p.mesh p.table field element, p.table.material? element.region,
      field.nodes[element.left]?, field.nodes[element.right]? with
    | some edge, some material, some left, some right =>
      if MaterialKind.isSemiconductor material then
        mobility material * element.area *
          flux (fluxSetting p.table.temperature element.length edge.rise left right) left right
      else 0
    | _, _, _, _ => 0

def electronsThrough (p : Problem M α) (field : NodeField α) : Nat → α :=
  fluxThrough p field MaterialModel.electronMobility
    fun c left right => (electronFlux c left.electronDensity right.electronDensity).flux

def holesThrough (p : Problem M α) (field : NodeField α) : Nat → α :=
  fluxThrough p field MaterialModel.holeMobility
    fun c left right => (holeFlux c left.holeDensity right.holeDensity).flux

/-- What the balance of a carrier gains through an element, counted from left to right. -/
def gained (p : Problem M α) (field : NodeField α) : Unknown → Nat → α
  | .electronDensity, e => electronsThrough p field e
  | .holeDensity, e => -holesThrough p field e
  | .potential, _ => 0

section Through

variable {mobility : M → α} {flux : FluxSetting α → NodeState α → NodeState α → α} {e : Nat}
  {element : Element α}

theorem fluxThrough_of_some {edge : Edge α} {material : M} {left right : NodeState α}
    (he : p.mesh.elements[e]? = some element)
    (hedge : edge? p.mesh p.table field element = some edge)
    (hmaterial : p.table.material? element.region = some material)
    (hleft : field.nodes[element.left]? = some left)
    (hright : field.nodes[element.right]? = some right) :
    fluxThrough p field mobility flux e =
      if MaterialKind.isSemiconductor material then
        mobility material * element.area *
          flux (fluxSetting p.table.temperature element.length edge.rise left right) left right
      else 0 := by
  simp only [fluxThrough, he, hedge, hmaterial, hleft, hright]

theorem fluxThrough_of_none (he : p.mesh.elements[e]? = some element)
    (hnone : ∀ edge material left right, edge? p.mesh p.table field element = some edge →
      p.table.material? element.region = some material →
      field.nodes[element.left]? = some left → field.nodes[element.right]? = some right → False) :
    fluxThrough p field mobility flux e = 0 := by
  unfold fluxThrough
  rw [he]
  dsimp only
  split
  · next hedge hmaterial hleft hright =>
    exact (hnone _ _ _ _ hedge hmaterial hleft hright).elim
  · rfl

/-- Nothing passes through an insulator. -/
theorem fluxThrough_of_not_holdsCarriers (he : p.mesh.elements[e]? = some element)
    (hcarriers : ¬ p.HoldsCarriers element) : fluxThrough p field mobility flux e = 0 := by
  unfold fluxThrough
  rw [he]
  dsimp only
  split
  · next material _ _ _ hmaterial _ _ =>
    apply if_neg
    intro hsemiconductor
    exact hcarriers ⟨material, hmaterial, hsemiconductor⟩
  · rfl

end Through

/-- An element takes what passes through it off the balance of its left node and adds it to that of
its right node. -/
theorem sources_element {e : Nat} {element : Element α} (he : p.mesh.elements[e]? = some element)
    {w : Unknown} (hw : w ≠ .potential) (node : Nat) :
    sources node w.sub (elementContributions p field element) =
      (same element.right w.sub node w.sub - same element.left w.sub node w.sub) *
        gained p field w e := by
  unfold elementContributions
  split
  · next edge material left right hsome hmaterial hleft hright =>
    obtain ⟨hleft', hright', -⟩ := Problem.of_edge? hsome
    rw [sources_append, edge.sources_of_ne (Unknown.sub_ne_zero hw), zero_add]
    cases w with
    | potential => exact absurd rfl hw
    | electronDensity =>
      rw [gained, electronsThrough, fluxThrough_of_some he hsome hmaterial hleft hright]
      split_ifs
      · rw [sources_flux, hleft', hright']
        simp [same, Unknown.sub]
        ring
      · simp
    | holeDensity =>
      rw [gained, holesThrough, fluxThrough_of_some he hsome hmaterial hleft hright]
      split_ifs
      · rw [sources_flux, hleft', hright']
        simp [same, Unknown.sub]
        ring
      · simp
  · next hnone =>
    have hgained : gained p field w e = 0 := by
      cases w with
      | potential => rfl
      | electronDensity => rw [gained, electronsThrough, fluxThrough_of_none he hnone]
      | holeDensity =>
        rw [gained, holesThrough, fluxThrough_of_none he hnone, neg_zero]
    simp [Contribution.sourceAt, hgained]

/-! ### Lines -/

section Line

variable {regions : List Nat} {priority : Nat → Int} (hline : IsLine p.mesh regions priority)

include hline

/-- The balance at an inner node of a line gains what enters from the left and loses what leaves to
the right. -/
theorem sources_line {w : Unknown} (hw : w ≠ .potential) {n : Nat} (hfirst : 0 < n)
    (hlast : n < regions.length) :
    sources n w.sub (contributions p field) =
      gained p field w (n - 1) - gained p field w n := by
  have hsub := Unknown.sub_ne_zero hw
  obtain ⟨i, rfl⟩ := Nat.exists_eq_succ_of_ne_zero hfirst.ne'
  have helements : (p.mesh.elements.toList.map fun element =>
      sources (i + 1) w.sub (elementContributions p field element)).sum =
        ∑ e ∈ range regions.length,
          (same (e + 1) w.sub (i + 1) w.sub - same e w.sub (i + 1) w.sub) * gained p field w e := by
    apply Loop.sum_map_toList hline.elements_size
    intro e element he
    obtain ⟨-, hleft, hright, -⟩ := hline.of_getElem? he
    rw [sources_element he hw, hleft, hright]
  rw [contributions, sources_append, sources_nodes_of_ne p field hsub, add_zero, sources_flatMap,
    helements, Finset.sum_eq_add i (i + 1) (by omega)]
  · simp [same]
    ring
  · rintro e - ⟨he, he'⟩
    simp [same, he, he']
  · intro h
    exact absurd (Finset.mem_range.2 (by omega)) h
  · intro h
    exact absurd (Finset.mem_range.2 hlast) h

omit [FieldScalar α] [MaterialModel M α] [BEq M] in
/-- A node that is neither a contact nor next to one is not coupled to a contact. -/
theorem not_coupled_of_isLine {n : Nat} (hfirst : 1 < n) (hlast : n + 1 < p.lastNode) {node : Nat}
    (hnode : p.IsContact node) : ¬ p.Coupled node n := by
  rcases hnode with rfl | rfl
  all_goals
    rintro (heq | ⟨element, helement, hends⟩)
    · omega
    · obtain ⟨e, he⟩ := Array.mem_iff_getElem?.1 helement
      obtain ⟨-, hleft, hright, -⟩ := hline.of_getElem? he
      omega

end Line

end TwoCarrier

/-! ### What the equations hold -/

/-- The right hand side of an unknown, zero if the node has no such unknown. -/
def rhsOrZero {α : Type} [Scalar α] (m : BlockMatrix α) (node sub : Nat) : α :=
  (m.blockRhs node sub).toOption.getD 0

/-- The coefficient at a block address, zero if none is stored there. -/
def entryOrZero {α : Type} [Scalar α] (m : BlockMatrix α) (node node' sub sub' : Nat) : α :=
  (m.blockEntry node node' sub sub').toOption.getD 0

namespace Problem

variable {M α : Type} [FieldScalar α] {p : Problem M α} {sizes : Array Nat} {stride : Nat}
  {base : BlockMatrix α} {cs : List (Contribution α)} {a : Assembly stride α}
  {node node' sub sub' : Nat}

theorem Holds.blockRhs_eq (h : p.Holds base cs a) (hinner : node ≠ 0 ∧ node ≠ p.lastNode)
    (hsub : sub < base.layout.sizes.getD node 0) :
    a.matrix.blockRhs node sub = .ok (sources node sub cs) := by
  rw [h.places.blockRhs_eq hsub, h.value (.rhs node sub) hsub hinner, effect_rhs, zero_add]

theorem Holds.rhsOrZero_eq (h : p.Holds base cs a) (hcs : ∀ c ∈ cs, c.Placed base)
    (hinner : node ≠ 0 ∧ node ≠ p.lastNode) :
    rhsOrZero a.matrix node sub = sources node sub cs := by
  by_cases hsub : sub < base.layout.sizes.getD node 0
  · rw [rhsOrZero, h.blockRhs_eq hinner hsub]
    rfl
  · rw [sources_eq_zero hcs hsub]
    rw [← h.places.matrix.layout, not_lt] at hsub
    rw [rhsOrZero, BlockMatrix.blockRhs, Layout.index_of_le hsub]
    rfl

/-- Coefficients are stored for coupled nodes, and for no others is there anything to store. -/
theorem Holds.entryOrZero_eq (h : p.Holds base cs a) (hbase : p.matrix sizes = .ok base)
    (hcs : ∀ c ∈ cs, c.Placed base)
    (hrow : (node ≠ 0 ∧ node ≠ p.lastNode) ∨ ¬ p.Coupled node node') :
    entryOrZero a.matrix node node' sub sub' = coefficients node node' sub sub' cs := by
  by_cases hplaced : (Contribution.coefficient node node' sub sub' (0 : α)).Placed base
  · obtain ⟨hsub, hsub', hplace⟩ := hplaced
    have hcoupled := (p.mem_columnsOf_matrix hbase hsub hsub').1 hplace
    have hinner := hrow.resolve_right (not_not.2 hcoupled)
    rw [entryOrZero, h.places.blockEntry_eq hsub hsub' hplace,
      h.value (.coefficient node node' sub sub') ⟨hsub, hsub'⟩ hinner, effect_coefficient, zero_add]
    rfl
  · rw [coefficients_eq_zero hcs hplaced, entryOrZero]
    cases hentry : a.matrix.blockEntry node node' sub sub' with
    | error e => rfl
    | ok v =>
      have hplace := place_of_blockEntry hentry
      rw [h.places.matrix.columnsOf, h.places.matrix.layout] at hplace
      exact absurd hplace hplaced

end Problem

/-! ### Setups -/

namespace TwoCarrier

variable {M α : Type} [FieldScalar α] [MaterialModel M α] [BEq M] {p : Problem M α}
  {s t : TwoCarrierState α} {regions : List Nat} {priority : Nat → Int}

/-- What a setup that succeeds has assembled had places. -/
theorem placed_of_setup (hs : Shaped p s) (ht : setup p s = .ok () t) :
    ∃ base, p.matrix s.blockSizes = .ok base ∧
      p.Holds base (contributions p s.field) t.assembly ∧
      ∀ c ∈ contributions p s.field, c.Placed base := by
  obtain ⟨base, hbase, hholds⟩ := holds_of_setup hs ht
  obtain ⟨base', hbase', hover, -⟩ := hs.equipped
  cases hbase.symm.trans hbase'
  obtain ⟨b, m, hassemble, -⟩ := Assembly.of_rebuild (of_setup ht).1
  exact ⟨base, hbase, hholds, hover.clear.placed_of_assemble hassemble⟩

/-- What passes between the balances of some nodes in a row cancels. -/
theorem sum_sub_pred (f : Nat → α) {first stop : Nat} (hle : first ≤ stop) :
    ∑ n ∈ Ico first stop, (f (n - 1) - f n) = f (first - 1) - f (stop - 1) := by
  induction stop, hle using Nat.le_induction with
  | base => simp
  | succ stop hle ih =>
    rw [Finset.sum_Ico_succ_top hle, ih, Nat.add_sub_cancel]
    ring

section Line

variable (hline : IsLine p.mesh regions priority) {w : Unknown} (hw : w ≠ .potential)

include hline hw

theorem sources_setup {n : Nat} (hfirst : 0 < n) (hlast : n < p.lastNode) :
    sources n w.sub (contributions p s.field) =
      gained p s.field w (n - 1) - gained p s.field w n := by
  have hcount : p.nodeCount = regions.length + 1 := hline.nodes_size
  apply sources_line hline hw hfirst
  rw [Problem.lastNode] at hlast
  omega

theorem blockRhs_setup (hs : Shaped p s) (ht : setup p s = .ok () t) {n : Nat} (hfirst : 0 < n)
    (hlast : n < p.lastNode) (hgoverns : p.Governs n) :
    t.assembly.matrix.blockRhs n w.sub =
      .ok (gained p s.field w (n - 1) - gained p s.field w n) := by
  obtain ⟨base, hbase, hholds, -⟩ := placed_of_setup hs ht
  have hnode : n < p.nodeCount := by
    rw [Problem.lastNode] at hlast
    omega
  have hsub := sub_lt_of_governs hs.sizes hnode hgoverns w
  rw [← p.sizes_matrix hbase] at hsub
  rw [hholds.blockRhs_eq ⟨by omega, by omega⟩ hsub, sources_setup hline hw hfirst hlast]

theorem sum_rhsOrZero_setup (hs : Shaped p s) (ht : setup p s = .ok () t) {first stop : Nat}
    (hfirst : 0 < first) (hle : first ≤ stop) (hstop : stop ≤ p.lastNode) :
    ∑ n ∈ Ico first stop, rhsOrZero t.assembly.matrix n w.sub =
      gained p s.field w (first - 1) - gained p s.field w (stop - 1) := by
  obtain ⟨base, hbase, hholds, hplaced⟩ := placed_of_setup hs ht
  rw [← sum_sub_pred _ hle]
  apply Finset.sum_congr rfl
  intro n hn
  rw [Finset.mem_Ico] at hn
  rw [hholds.rhsOrZero_eq hplaced ⟨by omega, by omega⟩,
    sources_setup hline hw (by omega) (by omega)]

theorem sum_entryOrZero_setup (hs : Shaped p s) (ht : setup p s = .ok () t) {n' : Nat}
    (hfirst : 1 < n') (hlast : n' + 1 < p.lastNode) (sub' : Nat) :
    ∑ n ∈ range p.nodeCount, entryOrZero t.assembly.matrix n n' w.sub sub' = 0 := by
  obtain ⟨base, hbase, hholds, hplaced⟩ := placed_of_setup hs ht
  rw [← sum_coefficients (fun _ helement => p.ends_lt_of_matrix hbase helement)
    (Unknown.sub_ne_zero hw) n' sub']
  apply Finset.sum_congr rfl
  intro n _
  apply hholds.entryOrZero_eq hbase hplaced
  -- the equations of the contacts are replaced, but they have no place for the column
  by_cases hcontact : p.IsContact n
  · exact .inr (not_coupled_of_isLine hline hfirst hlast hcontact)
  · exact .inl (not_or.1 hcontact)

end Line

/-- A system on a line conserves the carriers of a field. -/
structure Conserves (p : Problem M α) (field : NodeField α) (m : BlockMatrix α) : Prop where
  /-- Electrons that enter an inner node and do not leave it are what its balance holds. -/
  electrons : ∀ n, 0 < n → n < p.lastNode → p.Governs n →
    m.blockRhs n Unknown.electronDensity.sub =
      .ok (electronsThrough p field (n - 1) - electronsThrough p field n)
  holes : ∀ n, 0 < n → n < p.lastNode → p.Governs n →
    m.blockRhs n Unknown.holeDensity.sub =
      .ok (holesThrough p field n - holesThrough p field (n - 1))
  /-- The balances of inner nodes in a row add up to what passes at their two ends. -/
  electrons_between : ∀ first stop, 0 < first → first ≤ stop → stop ≤ p.lastNode →
    ∑ n ∈ Ico first stop, rhsOrZero m n Unknown.electronDensity.sub =
      electronsThrough p field (first - 1) - electronsThrough p field (stop - 1)
  holes_between : ∀ first stop, 0 < first → first ≤ stop → stop ≤ p.lastNode →
    ∑ n ∈ Ico first stop, rhsOrZero m n Unknown.holeDensity.sub =
      holesThrough p field (stop - 1) - holesThrough p field (first - 1)
  /-- The coefficients of a column add up to zero over all balances of a carrier, if its node is
  neither a contact nor next to one. -/
  electron_column : ∀ n', 1 < n' → n' + 1 < p.lastNode → ∀ sub',
    ∑ n ∈ range p.nodeCount, entryOrZero m n n' Unknown.electronDensity.sub sub' = 0
  hole_column : ∀ n', 1 < n' → n' + 1 < p.lastNode → ∀ sub',
    ∑ n ∈ range p.nodeCount, entryOrZero m n n' Unknown.holeDensity.sub sub' = 0

/-- **A setup that succeeds conserves carriers**, on a line, whatever regions its elements are in,
whatever the field and whatever has happened to the state. -/
theorem setup_conserves (hline : IsLine p.mesh regions priority) (hs : Reachable p s)
    (ht : setup p s = .ok () t) : Conserves p s.field t.assembly.matrix := by
  have helectron : Unknown.electronDensity ≠ .potential := by decide
  have hhole : Unknown.holeDensity ≠ .potential := by decide
  constructor
  case electrons =>
    intro n hfirst hlast hgoverns
    exact blockRhs_setup hline helectron hs.shaped ht hfirst hlast hgoverns
  case holes =>
    intro n hfirst hlast hgoverns
    rw [blockRhs_setup hline hhole hs.shaped ht hfirst hlast hgoverns, gained, gained, neg_sub_neg]
  case electrons_between =>
    intro first stop hfirst hle hstop
    exact sum_rhsOrZero_setup hline helectron hs.shaped ht hfirst hle hstop
  case holes_between =>
    intro first stop hfirst hle hstop
    rw [sum_rhsOrZero_setup hline hhole hs.shaped ht hfirst hle hstop, gained, gained, neg_sub_neg]
  case electron_column =>
    intro n' hfirst hlast sub'
    exact sum_entryOrZero_setup hline helectron hs.shaped ht hfirst hlast sub'
  case hole_column =>
    intro n' hfirst hlast sub'
    exact sum_entryOrZero_setup hline hhole hs.shaped ht hfirst hlast sub'

/-! ### A bar between oxides -/

/-- Three elements of silicon between two of oxide. -/
def buriedBar : Problem Physics.Material ℚ where
  mesh :=
    { nodes := #[⟨[0], 0⟩, ⟨[0, 1], 1⟩, ⟨[1, 2], 1⟩, ⟨[2, 3], 1⟩, ⟨[3, 4], 1⟩, ⟨[4], 0⟩]
      elements := #[⟨0, 1, 1, 1, 0⟩, ⟨1, 2, 1, 1, 1⟩, ⟨2, 3, 2, 1, 1⟩, ⟨3, 4, 1, 1, 1⟩,
        ⟨4, 5, 1, 1, 0⟩] }
  table :=
    { regions := #[⟨.siliconDioxide, 0, 0⟩, ⟨.silicon, 1000, 0⟩]
      temperature := 300 }
  settings := .ofTolerances (1 / 1000) (1 / 1000) 5

def buriedPriority (r : Nat) : Int :=
  #[100, 0].getD r 0

theorem isLine_buriedBar : IsLine buriedBar.mesh [0, 1, 1, 1, 0] buriedPriority where
  elements_size := rfl
  nodes_size := rfl
  element e he := by
    match e, he with
    | 0, _ => exact ⟨_, rfl, rfl, rfl, rfl⟩
    | 1, _ => exact ⟨_, rfl, rfl, rfl, rfl⟩
    | 2, _ => exact ⟨_, rfl, rfl, rfl, rfl⟩
    | 3, _ => exact ⟨_, rfl, rfl, rfl, rfl⟩
    | 4, _ => exact ⟨_, rfl, rfl, rfl, rfl⟩
  node i hi := by
    match i, hi with
    | 0, _ => rfl
    | 1, _ => rfl
    | 2, _ => rfl
    | 3, _ => rfl
    | 4, _ => rfl
    | 5, _ => rfl

theorem sound_buriedBar : buriedBar.Sound := by
  have hregions : [0, 1, 1, 1, 0] ≠ ([] : List Nat) := by decide
  have hmaterial : ∀ r ∈ [0, 1, 1, 1, 0], ∃ m, buriedBar.table.material? r = some m := by
    intro r hr
    have hcases : r = 0 ∨ r = 1 := by
      simp at hr
      omega
    rcases hcases with rfl | rfl
    · exact ⟨.siliconDioxide, rfl⟩
    · exact ⟨.silicon, rfl⟩
  have hpriority : ∀ r m, buriedBar.table.material? r = some m →
      buriedPriority r = MaterialKind.priority m := by
    intro r m hm
    match r, hm with
    | 0, hm => cases hm; rfl
    | 1, hm => cases hm; rfl
  apply Problem.sound_of_isLine isLine_buriedBar hregions hmaterial
  intro node hnode element hborders hcarriers
  exact Problem.governs_of_priority isLine_buriedBar hregions hpriority hmaterial
    (fun _ _ => Device.priority_lt) hnode hborders hcarriers

/-- Nothing passes through the oxides, so the balances of the bar add up to zero. -/
theorem setup_conserves_buriedBar :
    ∃ field s t, start buriedBar field = .ok s ∧ setup buriedBar s = .ok () t ∧
      t.assembly.matrix.blockRhs 2 Unknown.electronDensity.sub =
        .ok (electronsThrough buriedBar s.field 1 - electronsThrough buriedBar s.field 2) ∧
      ∑ n ∈ Ico 1 5, rhsOrZero t.assembly.matrix n Unknown.holeDensity.sub = 0 ∧
      ∑ n ∈ range 6, entryOrZero t.assembly.matrix n 2 Unknown.electronDensity.sub 0 = 0 := by
  obtain ⟨field, -, hcount⟩ := sound_buriedBar.exists_equilibrium
  obtain ⟨s, hs⟩ := exists_start sound_buriedBar hcount
  obtain ⟨hshaped, -⟩ := shaped_start hs
  obtain ⟨_, _, t, _, _, _, ht, _⟩ := exists_setup sound_buriedBar hshaped
  have hconserves := setup_conserves isLine_buriedBar (.start hs) ht
  have hgoverns : buriedBar.Governs 2 := ⟨.silicon, rfl, rfl⟩
  have hoxide : ∀ {e element}, buriedBar.mesh.elements[e]? = some element → element.region = 0 →
      holesThrough buriedBar s.field e = 0 := by
    intro e element he hregion
    apply fluxThrough_of_not_holdsCarriers he
    rintro ⟨m, hm, hsemiconductor⟩
    rw [hregion] at hm
    cases hm
    cases hsemiconductor
  have hfirst : holesThrough buriedBar s.field 0 = 0 := hoxide rfl rfl
  have hlast : holesThrough buriedBar s.field 4 = 0 := hoxide rfl rfl
  refine ⟨field, s, t, hs, ht, hconserves.electrons 2 (by decide) (by decide) hgoverns, ?_, ?_⟩
  · rw [hconserves.holes_between 1 5 (by decide) (by decide) (by decide), hfirst, hlast, sub_zero]
  · exact hconserves.electron_column 2 (by decide) (by decide) 0

end TwoCarrier

end CarrierTransport.Newton
