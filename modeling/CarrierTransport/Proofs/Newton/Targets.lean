import Mathlib
import CarrierTransport.Proofs.Newton.Phases

/-!
# What an assembly does to one number

A contribution acts on the number it is addressed to and leaves every other number alone, so an
assembly does to a number what its contributions do to it, one after another
(`Assembly.Over.value_rebuild`). That every unknown has a number and a slot of its own is all that is
needed for this; nothing is asked of the arithmetic, and which contributions act on other numbers
does not matter.
-/

namespace CarrierTransport

/-! ### Addresses -/

namespace LinearSystem.Layout

/-- Unknowns of different blocks have different numbers. -/
theorem offset_add_inj (layout : Layout) {i j k l : Nat} (hk : k < layout.sizes.getD i 0)
    (hl : l < layout.sizes.getD j 0) :
    layout.offset i + k = layout.offset j + l ↔ i = j ∧ k = l := by
  have hi := offset_add_mem_block hk
  have hj := offset_add_mem_block hl
  constructor
  · intro h
    rcases lt_trichotomy i j with hlt | rfl | hlt
    · exact absurd (layout.lt_of_mem_block hlt hi hj) (by omega)
    · exact ⟨rfl, by omega⟩
    · exact absurd (layout.lt_of_mem_block hlt hj hi) (by omega)
  · rintro ⟨rfl, rfl⟩
    rfl

theorem offset_add_notMem_block (layout : Layout) {i j k : Nat} (hk : k < layout.sizes.getD i 0)
    (hij : i ≠ j) : layout.offset i + k ∉ layout.block j := by
  intro hj
  have hi := offset_add_mem_block hk
  rcases lt_or_gt_of_ne hij with hlt | hlt
  · exact absurd (layout.lt_of_mem_block hlt hi hj) (lt_irrefl _)
  · exact absurd (layout.lt_of_mem_block hlt hj hi) (lt_irrefl _)

end LinearSystem.Layout

namespace Newton

open LinearSystem (BlockMatrix Layout getD_modify)
open LinearSystem.BlockMatrix
open Physics (MaterialModel)
open State (NodeField NodeState Unknown)
open Transition

theorem Assembly.slot_inj {stride i j k l : Nat} (hk : k < stride) (hl : l < stride) :
    slot stride i k = slot stride j l ↔ i = j ∧ k = l := by
  rw [slot, slot]
  constructor
  · intro h
    have hij : i = j := by
      have hdiv := congrArg (· / stride) h
      have hpos : 0 < stride := by omega
      simpa [Nat.mul_add_div hpos, Nat.div_eq_of_lt hk, Nat.div_eq_of_lt hl] using hdiv
    subst hij
    exact ⟨rfl, by omega⟩
  · rintro ⟨rfl, rfl⟩
    rfl

theorem Assembly.slot_lt {stride count node sub : Nat} (hnode : node < count)
    (hsub : sub < stride) : slot stride node sub < stride * count := by
  have hle : stride * (node + 1) ≤ stride * count := Nat.mul_le_mul_left stride hnode
  rw [Nat.mul_add, Nat.mul_one] at hle
  rw [slot]
  omega

/-! ### Targets -/

/-- A number of an assembly, by its block address. -/
inductive Target where
  | rhs (node sub : Nat)
  | coefficient (node node' sub sub' : Nat)
  | scale (node sub : Nat)
  | coupling (node sub : Nat)

namespace Target

variable {α : Type}

/-- There is such a number in the assemblies of a system. -/
def Within (base : BlockMatrix α) (stride : Nat) : Target → Prop
  | rhs node sub => sub < base.layout.sizes.getD node 0
  | coefficient node node' sub sub' =>
    sub < base.layout.sizes.getD node 0 ∧ sub' < base.layout.sizes.getD node' 0
  | scale node sub => node < base.layout.nodeCount ∧ sub < stride
  | coupling node sub => node < base.layout.nodeCount ∧ sub < stride

/-- The number is not in an equation of a contact. -/
def Inner (lastNode : Nat) : Target → Prop
  | rhs node _ => node ≠ 0 ∧ node ≠ lastNode
  | coefficient node _ _ _ => node ≠ 0 ∧ node ≠ lastNode
  | scale _ _ => True
  | coupling _ _ => True

end Target

variable {α : Type} [Scalar α] {target : Target}

namespace Contribution

/-- What a contribution does to a number. -/
def act (target : Target) (c : Contribution α) (v : α) : α :=
  match target, c with
  | .rhs node sub, .source i k amount => if i = node ∧ k = sub then v + amount else v
  | .coefficient node node' sub sub', .coefficient i j k l amount =>
    if (i = node ∧ k = sub) ∧ j = node' ∧ l = sub' then v + amount else v
  | .scale node sub, .scale i k magnitude =>
    if i = node ∧ k = sub then Scalar.larger v magnitude else v
  | .coupling node sub, .coupling i k magnitude =>
    if i = node ∧ k = sub then Scalar.larger v magnitude else v
  | _, _ => v

/-- A magnitude is one of an unknown that has a slot. -/
def Slotted (stride : Nat) : Contribution α → Prop
  | .scale _ k _ => k < stride
  | .coupling _ k _ => k < stride
  | _ => True

end Contribution

/-- What some contributions do to a number, one after another. -/
def effect (target : Target) (cs : List (Contribution α)) (v : α) : α :=
  cs.foldl (fun v c => c.act target v) v

section Effect

variable (c : Contribution α) (cs ds : List (Contribution α)) (v : α)

@[simp] theorem effect_nil : effect target ([] : List (Contribution α)) v = v :=
  rfl

@[simp] theorem effect_cons : effect target (c :: cs) v = effect target cs (c.act target v) :=
  rfl

@[simp] theorem effect_append :
    effect target (cs ++ ds) v = effect target ds (effect target cs v) :=
  List.foldl_append

theorem effect_eq_self {cs : List (Contribution α)} (h : ∀ c ∈ cs, ∀ v, c.act target v = v) :
    effect target cs v = v := by
  induction cs with
  | nil => rfl
  | cons c cs ih =>
    obtain ⟨hc, hcs⟩ := List.forall_mem_cons.1 h
    rw [effect_cons, hc, ih hcs]

theorem effect_flatMap_congr {ι : Type} {items : List ι} {f g : ι → List (Contribution α)}
    (h : ∀ i ∈ items, ∀ v, effect target (f i) v = effect target (g i) v) :
    effect target (items.flatMap f) v = effect target (items.flatMap g) v := by
  induction items generalizing v with
  | nil => rfl
  | cons i items ih =>
    obtain ⟨hi, hitems⟩ := List.forall_mem_cons.1 h
    rw [List.flatMap_cons, List.flatMap_cons, effect_append, effect_append, hi, ih _ hitems]

end Effect

/-! ### The numbers of an assembly -/

namespace Assembly

variable {stride : Nat} {base : BlockMatrix α} {a a' : Assembly stride α} {c : Contribution α}
  {cs : List (Contribution α)} {diagonal : α} {lastNode : Nat}

/-- The value of a number, zero for a coefficient that is not stored. -/
def value (a : Assembly stride α) : Target → α
  | .rhs node sub => a.matrix.rhs.getD (a.matrix.layout.offset node + sub) 0
  | .coefficient node node' sub sub' =>
    a.matrix.coefficient (a.matrix.layout.offset node + sub) (a.matrix.layout.offset node' + sub')
  | .scale node sub => a.scale node sub
  | .coupling node sub => a.coupling node sub

section Reading

variable (h : a.Over base)

include h

theorem Over.blockRhs_eq {node sub : Nat} (hsub : sub < base.layout.sizes.getD node 0) :
    a.matrix.blockRhs node sub = .ok (a.value (.rhs node sub)) := by
  rw [← h.matrix.layout] at hsub
  rw [blockRhs_of_lt hsub]
  rfl

theorem Over.blockEntry_eq {node node' sub sub' : Nat}
    (hsub : sub < base.layout.sizes.getD node 0) (hsub' : sub' < base.layout.sizes.getD node' 0)
    (hplace : base.layout.offset node' + sub' ∈
      base.columnsOf (base.layout.offset node + sub)) :
    a.matrix.blockEntry node node' sub sub' = .ok (a.value (.coefficient node node' sub sub')) := by
  rw [← h.matrix.columnsOf, ← h.matrix.layout] at hplace
  rw [← h.matrix.layout] at hsub hsub'
  rw [blockEntry_of_mem hsub hsub' hplace]
  rfl

theorem Over.getElem?_scales {node sub : Nat} (hnode : node < base.layout.nodeCount)
    (hsub : sub < stride) : a.scales[slot stride node sub]? = some (a.value (.scale node sub)) := by
  have hlt : slot stride node sub < a.scales.size := h.scales ▸ slot_lt hnode hsub
  rw [value, scale, Array.getD_eq_getD_getElem?, Array.getElem?_eq_getElem hlt, Option.getD_some]

theorem Over.getElem?_couplings {node sub : Nat} (hnode : node < base.layout.nodeCount)
    (hsub : sub < stride) :
    a.couplings[slot stride node sub]? = some (a.value (.coupling node sub)) := by
  have hlt : slot stride node sub < a.couplings.size := h.couplings ▸ slot_lt hnode hsub
  rw [value, coupling, Array.getD_eq_getD_getElem?, Array.getElem?_eq_getElem hlt,
    Option.getD_some]

end Reading

/-- A magnitude that is raised, read back at another slot or the same. -/
theorem getD_modify_slot {magnitudes : Array α} {count i k node sub : Nat} {f : α → α}
    (hsize : magnitudes.size = stride * count) (hk : k < stride) (hnode : node < count)
    (hsub : sub < stride) :
    (magnitudes.modify (slot stride i k) f).getD (slot stride node sub) 0 =
      if i = node ∧ k = sub then f (magnitudes.getD (slot stride node sub) 0)
      else magnitudes.getD (slot stride node sub) 0 := by
  have hlt : slot stride node sub < magnitudes.size := hsize ▸ slot_lt hnode hsub
  rw [getD_modify _ _ _ _ hlt]
  simp only [slot_inj hk hsub]

/-- **A contribution acts on the number it is addressed to**, and on no other. -/
theorem Over.value_contribute (h : a.Over base) (hrhs : base.rhs.size = base.layout.total)
    (hc : c.Slotted stride) (hok : a.contribute c = .ok a') (htarget : target.Within base stride) :
    a'.value target = c.act target (a.value target) := by
  have hlayout : a.matrix.layout = base.layout := h.matrix.layout
  -- a number of another kind than the contribution is not even looked at
  cases c with
  | coefficient i j k l amount =>
    obtain ⟨m, hm, hok⟩ := except_bind_eq_ok.1 hok
    cases hok
    obtain ⟨hk, hl⟩ := lt_of_modifyBlockEntry hm
    have hm := modifyBlockEntry_eq_ok hm
    have hsame := (sameSystem_of_modifyEntry hm).layout
    rw [hlayout] at hk hl
    cases target with
    | rhs node sub =>
      obtain ⟨_, -, hm⟩ := except_bind_eq_ok.1 hm
      cases hm
      rfl
    | coefficient node node' sub sub' =>
      obtain ⟨hsub, hsub'⟩ := htarget
      rw [value, hsame, coefficient_modifyEntry hm, hlayout]
      simp only [base.layout.offset_add_inj hsub hk, base.layout.offset_add_inj hsub' hl, value,
        hlayout, Contribution.act, eq_comm (a := node), eq_comm (a := sub), eq_comm (a := node'),
        eq_comm (a := sub')]
    | scale node sub => rfl
    | coupling node sub => rfl
  | source i k amount =>
    obtain ⟨m, hm, hok⟩ := except_bind_eq_ok.1 hok
    cases hok
    have hk := lt_of_modifyBlockRhs hm
    rw [hlayout] at hk
    obtain rfl := modifyBlockRhs_eq_ok hm
    cases target with
    | rhs node sub =>
      have hsub : sub < base.layout.sizes.getD node 0 := htarget
      have hlt : base.layout.offset node + sub < a.matrix.rhs.size := by
        rw [h.matrix.rhs_size, hrhs]
        exact base.layout.lt_total_of_mem_block (Layout.offset_add_mem_block hsub)
      simp only [value, hlayout, getD_modify _ _ _ _ hlt, base.layout.offset_add_inj hk hsub,
        Contribution.act]
    | coefficient node node' sub sub' => rfl
    | scale node sub => rfl
    | coupling node sub => rfl
  | scale i k magnitude =>
    cases hok
    cases target with
    | scale node sub => exact getD_modify_slot h.scales hc htarget.1 htarget.2
    | rhs node sub => rfl
    | coefficient node node' sub sub' => rfl
    | coupling node sub => rfl
  | coupling i k magnitude =>
    cases hok
    cases target with
    | coupling node sub => exact getD_modify_slot h.couplings hc htarget.1 htarget.2
    | rhs node sub => rfl
    | coefficient node node' sub sub' => rfl
    | scale node sub => rfl
  | unknownIndex => cases hok

theorem Over.value_assemble (h : a.Over base) (hrhs : base.rhs.size = base.layout.total)
    (hcs : ∀ c ∈ cs, c.Slotted stride) (hok : Assembly.assemble cs a = .ok () a')
    (htarget : target.Within base stride) : a'.value target = effect target cs (a.value target) := by
  induction cs generalizing a with
  | nil =>
    cases hok
    rfl
  | cons c cs ih =>
    obtain ⟨hc, hcs⟩ := List.forall_mem_cons.1 hcs
    rw [assemble_cons] at hok
    cases hcontribute : a.contribute c with
    | error e =>
      rw [hcontribute] at hok
      cases hok
    | ok b =>
      rw [hcontribute] at hok
      rw [ih (h.contribute hcontribute) hcs hok, h.value_contribute hrhs hc hcontribute htarget,
        effect_cons]

theorem value_clear (a : Assembly stride α) (target : Target) : a.clear.value target = 0 := by
  have hzero : ∀ (values : Array α) (i : Nat), (values.map fun _ => (0 : α)).getD i 0 = 0 := by
    intro values i
    rw [Array.getD_eq_getD_getElem?, Array.getElem?_map]
    cases values[i]? <;> rfl
  cases target with
  | rhs node sub => exact hzero a.matrix.rhs _
  | coefficient node node' sub sub' =>
    exact coefficient_mapEntries (m := a.matrix) (f := fun _ _ _ => 0) (fun _ _ => rfl) _ _
  | scale node sub => exact hzero a.scales _
  | coupling node sub => exact hzero a.couplings _

/-- **After an assembly a number is what the contributions made of zero**, unless it is in an
equation of a contact. -/
theorem Over.value_rebuild (h : a.Over base) (hrhs : base.rhs.size = base.layout.total)
    (hcs : ∀ c ∈ cs, c.Slotted stride) (hok : Assembly.rebuild cs diagonal lastNode a = .ok () a')
    (target : Target) (htarget : target.Within base stride) (hinner : target.Inner lastNode) :
    a'.value target = effect target cs 0 := by
  obtain ⟨b, m, hassemble, hm, hm', hscales, hcouplings⟩ := of_rebuild hok
  have hvalue := h.clear.value_assemble hrhs hcs hassemble htarget
  rw [value_clear] at hvalue
  rw [← hvalue]
  have hover := (h.clear.assemble cs).left
  rw [hassemble] at hover
  change b.Over base at hover
  obtain ⟨hsame, -, hrest⟩ := of_applyDirichlet hm
  obtain ⟨hsame', -, hrest'⟩ := of_applyDirichlet hm'
  have hlayout : m.layout = base.layout := hsame.layout.trans hover.matrix.layout
  have hlayout' : a'.matrix.layout = b.matrix.layout := hsame'.layout.trans hsame.layout
  -- the rows of a node are kept when those of the contacts are replaced
  have hequation : ∀ {node sub : Nat}, sub < base.layout.sizes.getD node 0 →
      node ≠ 0 ∧ node ≠ lastNode →
      b.matrix.SameEquation a'.matrix (b.matrix.layout.offset node + sub) := by
    intro node sub hsub hnode
    rw [hover.matrix.layout]
    refine (hrest _ ?_).trans (hrest' _ ?_)
    · rw [hover.matrix.layout]
      exact base.layout.offset_add_notMem_block hsub hnode.1
    · rw [hlayout]
      exact base.layout.offset_add_notMem_block hsub hnode.2
  cases target with
  | rhs node sub =>
    rw [value, value, hlayout']
    exact (hequation htarget hinner).2
  | coefficient node node' sub sub' =>
    rw [value, value, hlayout']
    exact (hequation htarget.1 hinner).1 _
  | scale node sub => rw [value, value, scale, scale, hscales]
  | coupling node sub => rw [value, value, coupling, coupling, hcouplings]

end Assembly

/-! ### The contributions of both iterations -/

section Slotted

variable {M : Type} {stride : Nat}

theorem slotted_edge (hstride : 0 < stride) (edge : Edge α) :
    ∀ c ∈ edge.contributions, c.Slotted stride := by
  simp [Edge.contributions, Contribution.Slotted, hstride]

theorem slotted_charge (hstride : 0 < stride) {derivative : α → List (Contribution α)}
    (hderivative : ∀ v, ∀ c ∈ derivative v, c.Slotted stride) (i : Nat) (s : NodeState α)
    (volumes : List (Option α)) :
    ∀ c ∈ chargeContributions derivative i s volumes, c.Slotted stride := by
  intro c hc
  rw [chargeContributions] at hc
  rcases List.mem_append.1 hc with hc | hc
  · obtain ⟨v, -, hc⟩ := List.mem_flatMap.1 hc
    cases v with
    | none =>
      obtain rfl := List.mem_singleton.1 hc
      trivial
    | some v =>
      rcases List.mem_append.1 hc with hc | hc
      · exact hderivative v c hc
      · obtain rfl := List.mem_singleton.1 hc
        trivial
  · obtain rfl := List.mem_singleton.1 hc
    exact hstride

theorem slotted_flux [MaterialModel M α] (material : M) (temperature : α) (element : Mesh.Element α) (edge : Edge α)
    (left right : NodeState α) :
    ∀ c ∈ fluxContributions material temperature element edge left right,
      c.Slotted TwoCarrier.semiconductorBlock := by
  have hsub : ∀ u : Unknown, u.sub < TwoCarrier.semiconductorBlock := by
    intro u
    cases u <;> decide
  simp [fluxContributions, balanceContributions, magnitudeContributions, Contribution.Slotted, hsub]

omit [Scalar α] in
theorem slotted_fields {ι : Type} {items : List ι} {nodes : Array (NodeState α)}
    {ofItem : ι → List (Contribution α)} {ofNode : Nat → NodeState α → List (Contribution α)}
    (hitem : ∀ i, ∀ c ∈ ofItem i, c.Slotted stride)
    (hnode : ∀ node s, ∀ c ∈ ofNode node s, c.Slotted stride) :
    ∀ c ∈ items.flatMap ofItem ++ (nodes.mapIdx ofNode).toList.flatten, c.Slotted stride := by
  intro c hc
  rcases List.mem_append.1 hc with hc | hc
  · obtain ⟨i, -, hc⟩ := List.mem_flatMap.1 hc
    exact hitem i c hc
  · obtain ⟨cs, hcs, hc⟩ := List.mem_flatten.1 hc
    obtain ⟨node, hlt, rfl⟩ := Array.mem_mapIdx.1 (Array.mem_toList_iff.1 hcs)
    exact hnode node _ c hc

variable [MaterialModel M α] [BEq M]

theorem Poisson.slotted_contributions (p : Problem M α) (field : NodeField α) :
    ∀ c ∈ contributions p field, c.Slotted 1 := by
  refine slotted_fields (fun element c hc => ?_) fun node s => ?_
  · rw [elementContributions] at hc
    split at hc
    · next edge _ => exact slotted_edge one_pos edge c hc
    · obtain rfl := List.mem_singleton.1 hc
      trivial
  · exact slotted_charge one_pos (fun v => by simp [Contribution.Slotted]) node s _

theorem TwoCarrier.slotted_contributions (p : Problem M α) (field : NodeField α) :
    ∀ c ∈ contributions p field, c.Slotted semiconductorBlock := by
  have hpos : 0 < semiconductorBlock := by decide
  refine slotted_fields (fun element c hc => ?_) fun node s => ?_
  · rw [elementContributions] at hc
    split at hc
    · next edge material left right _ _ _ _ =>
      rcases List.mem_append.1 hc with hc | hc
      · exact slotted_edge hpos edge c hc
      · split_ifs at hc
        · exact slotted_flux material _ element edge left right c hc
        · cases hc
    · obtain rfl := List.mem_singleton.1 hc
      trivial
  · exact slotted_charge hpos (fun v => by simp [Contribution.Slotted]) node s _

end Slotted

end Newton

end CarrierTransport
