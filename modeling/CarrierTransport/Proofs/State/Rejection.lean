import Mathlib
import CarrierTransport.Proofs.State.Equilibrium

/-!
# Meshes that no field can be built on

A field is built node by node, and at a node region by region: first the regions around it in
ascending order, then the one that governs it. So where the elements that the nodes list exist, a
mesh is rejected exactly if there is a node with a region that the table does not have. The region
that is named belongs to the first such node, and it is the least of those around the node, if there
is one among them (`nodeEquilibrium_eq_error_iff`).

Before the table is asked about a region it is made sure that it has it. This is stated of a desk
that answers questions about all numbers, and of which nothing is known beyond the regions of the
table: what is built with its answers is the same (`askedEquilibrium_eq`).
-/

namespace CarrierTransport

open Mesh (Topology Node)
open Physics (MaterialModel)
open State (NodeField)
open Transition

/-! ### Regions that the table does not have -/

/-- A node borders an element of a region. -/
def Mesh.Topology.Around {α : Type} (mesh : Topology α) (node : Node) (region : Nat) : Prop :=
  ∃ e ∈ node.elements, ∃ element, mesh.elements[e]? = some element ∧ element.region = region

namespace State

section Missing

variable {M α : Type} (mesh : Topology α) (table : RegionTable M α) (node : Node)

/-- A region around a node or the one that governs it is not in the table. -/
def Uncovered : Prop :=
  (∃ r, mesh.Around node r ∧ table.count ≤ r) ∨ table.count ≤ node.region

/-- The region that a node is rejected for. -/
inductive Missing : Nat → Prop
  /-- The least of the regions around the node that are not in the table. -/
  | bordering {r : Nat} (haround : mesh.Around node r) (hr : table.count ≤ r)
    (hleast : ∀ r', mesh.Around node r' → table.count ≤ r' → r ≤ r') : Missing r
  /-- The region that governs the node, if all around it are in the table. -/
  | governing (haround : ∀ r, mesh.Around node r → r < table.count)
    (hr : table.count ≤ node.region) : Missing node.region

variable {mesh table node}

/-- A node with a region that is not in the table is rejected for one region. -/
theorem exists_missing_iff : (∃ r, Missing mesh table node r) ↔ Uncovered mesh table node := by
  classical
  constructor
  · rintro ⟨r, hr⟩
    cases hr with
    | bordering haround hr _ => exact .inl ⟨r, haround, hr⟩
    | governing _ hr => exact .inr hr
  · intro h
    by_cases hborder : ∃ r, mesh.Around node r ∧ table.count ≤ r
    · obtain ⟨haround, hr⟩ := Nat.find_spec hborder
      exact ⟨_, .bordering haround hr fun r' haround' hr' => Nat.find_min' hborder ⟨haround', hr'⟩⟩
    · have haround : ∀ r, mesh.Around node r → r < table.count :=
        fun r haround => not_le.1 fun hr => hborder ⟨r, haround, hr⟩
      exact ⟨_, .governing haround (h.resolve_left hborder)⟩

end Missing

end State

/-! ### Nodes -/

namespace State

section Failure

variable {M α : Type} {mesh : Topology α} {table : RegionTable M α} {node : Node}
  {regions : List Nat} {e : BuildError α}

theorem exists_borderingRegions (hlisted : ∀ e ∈ node.elements, e < mesh.elements.size) :
    ∃ regions, borderingRegions? mesh node = some regions ∧ regions.Pairwise (· < ·) ∧
      ∀ r, r ∈ regions ↔ mesh.Around node r := by
  obtain ⟨elements, helements, -⟩ := Loop.exists_mapM_some (f := fun e => mesh.elements[e]?)
    fun e he => ⟨_, Array.getElem?_eq_getElem (hlisted e he)⟩
  have hmap : node.elements.map (fun e => mesh.elements[e]?) = elements.map some := by
    rw [← List.forall₂_eq_eq_eq, List.forall₂_map_left_iff, List.forall₂_map_right_iff]
    exact Loop.mapM_eq_some.1 helements
  have hmem : ∀ element, element ∈ elements ↔ ∃ e ∈ node.elements,
      mesh.elements[e]? = some element := by
    intro element
    rw [← List.mem_map_of_injective (Option.some_injective _), ← hmap, List.mem_map]
  refine ⟨_, by rw [borderingRegions?, Topology.bordering?, helements]; rfl,
    Mesh.pairwise_ascending _, fun r => ?_⟩
  rw [Mesh.mem_ascending, List.mem_map]
  constructor
  · rintro ⟨element, helement, rfl⟩
    obtain ⟨e, he, helement⟩ := (hmem element).1 helement
    exact ⟨e, he, element, helement, rfl⟩
  · rintro ⟨e, he, element, helement, rfl⟩
    exact ⟨element, (hmem element).2 ⟨e, he, helement⟩, rfl⟩

/-- A node is missing the first of its ascending regions that is not in the table, or else the one
that governs it. -/
theorem missing_iff {r : Nat} (hascending : regions.Pairwise (· < ·))
    (hmem : ∀ r, r ∈ regions ↔ mesh.Around node r) :
    Missing mesh table node r ↔
      regions.find? (fun r => decide (table.count ≤ r)) = some r ∨
        regions.find? (fun r => decide (table.count ≤ r)) = none ∧ table.count ≤ node.region ∧
          r = node.region := by
  have hnone : regions.find? (fun r => decide (table.count ≤ r)) = none ↔
      ∀ r, mesh.Around node r → r < table.count := by
    simp [List.find?_eq_none, hmem]
  rw [Loop.find?_eq_some_iff_least hascending, hnone]
  simp only [hmem]
  constructor
  · rintro (⟨haround, hr, hleast⟩ | ⟨haround, hr⟩)
    · exact .inl ⟨haround, hr, hleast⟩
    · exact .inr ⟨haround, hr, rfl⟩
  · rintro (⟨haround, hr, hleast⟩ | ⟨haround, hr, rfl⟩)
    · exact .bordering haround hr hleast
    · exact .governing haround hr

variable [Scalar α]

/-- Doping is summed up to the first region that is not in the table. -/
theorem summedDoping_eq_error_iff : summedDoping table regions = .error e ↔
    ∃ r, regions.find? (fun r => decide (table.count ≤ r)) = some r ∧ e = .missingMaterial r := by
  rw [summedDoping]
  generalize ((0, 0) : α × α) = doping
  induction regions generalizing doping with
  | nil => simp [pure, Except.pure]
  | cons first regions ih =>
    rw [List.foldlM_cons]
    rcases lt_or_ge first table.count with hfirst | hfirst
    · rw [Array.getElem?_eq_getElem hfirst, List.find?_cons_of_neg (by simpa using hfirst)]
      simp only [bind, Except.bind, ih]
    · rw [Array.getElem?_eq_none hfirst, List.find?_cons_of_pos (by simpa using hfirst)]
      simp [bind, Except.bind, eq_comm]

variable [MaterialModel M α]

/-- A node is rejected for the region that it is missing. -/
theorem nodeEquilibrium_eq_error_iff (hlisted : ∀ e ∈ node.elements, e < mesh.elements.size) :
    nodeEquilibrium mesh table node = .error e ↔
      ∃ r, Missing mesh table node r ∧ e = .missingMaterial r := by
  obtain ⟨regions, hregions, hascending, hmem⟩ := exists_borderingRegions hlisted
  simp only [missing_iff hascending hmem]
  rw [nodeEquilibrium, hregions]
  dsimp only
  cases hsum : summedDoping table regions with
  | error e' =>
    obtain ⟨r, hr, rfl⟩ := summedDoping_eq_error_iff.1 hsum
    simp [hr, bind, Except.bind, eq_comm]
  | ok doping =>
    have hnone : regions.find? (fun r => decide (table.count ≤ r)) = none := by
      refine Option.eq_none_iff_forall_ne_some.2 fun r hr => ?_
      cases hsum.symm.trans (summedDoping_eq_error_iff.2 ⟨r, hr, rfl⟩)
    rcases lt_or_ge node.region table.count with hgoverning | hgoverning
    · rw [RegionTable.material?, Array.getElem?_eq_getElem hgoverning]
      simp [hnone, hgoverning.not_ge, bind, Except.bind, pure, Except.pure]
    · rw [RegionTable.material?, Array.getElem?_eq_none hgoverning]
      simp [hnone, hgoverning, bind, Except.bind, throw, throwThe, MonadExceptOf.throw, eq_comm]

/-- A node all of whose regions are in the table has a state to start from. -/
theorem exists_nodeEquilibrium_iff (hlisted : ∀ e ∈ node.elements, e < mesh.elements.size) :
    (∃ s, nodeEquilibrium mesh table node = .ok s) ↔ ¬ Uncovered mesh table node := by
  rw [← exists_missing_iff]
  cases h : nodeEquilibrium mesh table node with
  | error e =>
    obtain ⟨r, hr, -⟩ := (nodeEquilibrium_eq_error_iff hlisted).1 h
    exact ⟨nofun, fun hnot => absurd ⟨r, hr⟩ hnot⟩
  | ok s =>
    refine ⟨fun _ ⟨r, hr⟩ => ?_, fun _ => ⟨s, rfl⟩⟩
    cases h.symm.trans ((nodeEquilibrium_eq_error_iff hlisted).2 ⟨r, hr, rfl⟩)

end Failure

/-! ### Questions about regions -/

section Asked

variable {M α : Type}

/-- A desk that answers questions about regions, whatever their number. -/
structure RegionDesk (M α : Type) where
  donorDensity : Nat → Except (BuildError α) α
  acceptorDensity : Nat → Except (BuildError α) α
  material : Nat → Except (BuildError α) M

/-- The desk knows the regions of the table. What it answers about others is its own affair. -/
structure RegionDesk.Answers (desk : RegionDesk M α) (table : RegionTable M α) : Prop where
  donorDensity : ∀ r info, table.regions[r]? = some info →
    desk.donorDensity r = .ok info.donorDensity
  acceptorDensity : ∀ r info, table.regions[r]? = some info →
    desk.acceptorDensity r = .ok info.acceptorDensity
  material : ∀ r info, table.regions[r]? = some info → desk.material r = .ok info.material

variable [Scalar α] {mesh : Topology α} {table : RegionTable M α} {node : Node}
  {desk : RegionDesk M α}

/-- The number of a region is looked at before anything is asked about the region. -/
def ensureRegion (count region : Nat) : Except (BuildError α) Unit :=
  if count ≤ region then .error (.missingMaterial region) else .ok ()

def askedDoping (desk : RegionDesk M α) (count : Nat) (regions : List Nat) :
    Except (BuildError α) (α × α) :=
  regions.foldlM (fun (nd, na) region => do
    ensureRegion count region
    return (nd + (← desk.donorDensity region), na + (← desk.acceptorDensity region))) (0, 0)

theorem askedDoping_eq (h : desk.Answers table) (regions : List Nat) :
    askedDoping desk table.count regions = summedDoping table regions := by
  rw [askedDoping, summedDoping]
  congr 1
  funext ⟨nd, na⟩ region
  rcases lt_or_ge region table.count with hregion | hregion
  · have hinfo := Array.getElem?_eq_getElem hregion
    rw [hinfo, ensureRegion, if_neg hregion.not_ge, h.donorDensity _ _ hinfo,
      h.acceptorDensity _ _ hinfo]
    rfl
  · rw [Array.getElem?_eq_none hregion, ensureRegion, if_pos hregion]
    rfl

variable [MaterialModel M α]

def askedState (desk : RegionDesk M α) (count : Nat) (temperature : α) (mesh : Topology α)
    (node : Node) : Except (BuildError α) (NodeState α) := do
  let some regions := borderingRegions? mesh node | throw .unknownIndex
  let (donor, acceptor) ← askedDoping desk count regions
  ensureRegion count node.region
  return equilibriumState (← desk.material node.region) temperature donor acceptor

theorem askedState_eq (h : desk.Answers table) :
    askedState desk table.count table.temperature mesh node = nodeEquilibrium mesh table node := by
  rw [askedState, nodeEquilibrium]
  simp only [askedDoping_eq h, RegionTable.material?]
  rcases lt_or_ge node.region table.count with hregion | hregion
  · have hinfo := Array.getElem?_eq_getElem hregion
    rw [ensureRegion, if_neg hregion.not_ge, hinfo, h.material _ _ hinfo]
    rfl
  · rw [ensureRegion, if_pos hregion, Array.getElem?_eq_none hregion]
    rfl

/-- The field in local equilibrium, by questions about regions. -/
def askedEquilibrium (desk : RegionDesk M α) (count : Nat) (temperature : α) (mesh : Topology α) :
    Except (BuildError α) (NodeField α) := do
  return ⟨(← mesh.nodes.toList.mapM (askedState desk count temperature mesh)).toArray⟩

/-- **Nothing is asked about a region that the table does not have.** -/
theorem askedEquilibrium_eq (h : desk.Answers table) :
    askedEquilibrium desk table.count table.temperature mesh =
      NodeField.equilibrium mesh table := by
  rw [askedEquilibrium, NodeField.equilibrium]
  congr 2
  funext node
  exact askedState_eq h

end Asked

/-! ### Meshes -/

section Meshes

variable {M α : Type} [Scalar α] [MaterialModel M α] {mesh : Topology α} {table : RegionTable M α}

/-- A mesh is rejected for the first of its nodes that has a region that is not in the table. -/
theorem equilibrium_eq_error_iff
    (hlisted : ∀ node ∈ mesh.nodes, ∀ e ∈ node.elements, e < mesh.elements.size)
    {e : BuildError α} :
    NodeField.equilibrium mesh table = .error e ↔ ∃ i node r, mesh.nodes[i]? = some node ∧
      (∀ before ∈ mesh.nodes.toList.take i, ¬ Uncovered mesh table before) ∧
      Missing mesh table node r ∧ e = .missingMaterial r := by
  have hmap : NodeField.equilibrium mesh table = .error e ↔
      mesh.nodes.toList.mapM (nodeEquilibrium mesh table) = .error e := by
    rw [NodeField.equilibrium]
    cases mesh.nodes.toList.mapM (nodeEquilibrium mesh table) <;>
      simp [bind, Except.bind, pure, Except.pure]
  rw [hmap, Loop.mapM_eq_error_iff]
  have hsound : ∀ i, (∀ before ∈ mesh.nodes.toList.take i,
      ∃ s, nodeEquilibrium mesh table before = .ok s) ↔
        ∀ before ∈ mesh.nodes.toList.take i, ¬ Uncovered mesh table before :=
    fun i => forall₂_congr fun before hbefore =>
      exists_nodeEquilibrium_iff (hlisted before (by simpa using List.mem_of_mem_take hbefore))
  constructor
  · rintro ⟨i, node, hnode, hbefore, h⟩
    rw [Array.getElem?_toList] at hnode
    obtain ⟨r, hr, he⟩ := (nodeEquilibrium_eq_error_iff
      (hlisted node (Array.mem_of_getElem? hnode))).1 h
    exact ⟨i, node, r, hnode, (hsound i).1 hbefore, hr, he⟩
  · rintro ⟨i, node, r, hnode, hbefore, hr, he⟩
    refine ⟨i, node, by rwa [Array.getElem?_toList], (hsound i).2 hbefore, ?_⟩
    exact (nodeEquilibrium_eq_error_iff (hlisted node (Array.mem_of_getElem? hnode))).2 ⟨r, hr, he⟩

/-- A field can be built where every node has all its regions in the table. -/
theorem exists_equilibrium_iff
    (hlisted : ∀ node ∈ mesh.nodes, ∀ e ∈ node.elements, e < mesh.elements.size) :
    (∃ field, NodeField.equilibrium mesh table = .ok field) ↔
      ∀ node ∈ mesh.nodes, ¬ Uncovered mesh table node := by
  constructor
  · rintro ⟨field, hfield⟩ node hnode
    obtain ⟨i, hi⟩ := Array.mem_iff_getElem?.1 hnode
    have hlt : i < field.nodes.size := by
      rw [← NodeField.nodeCount, nodeCount_equilibrium hfield]
      exact (Array.getElem?_eq_some_iff.1 hi).1
    exact (exists_nodeEquilibrium_iff (hlisted node hnode)).1
      ⟨_, nodeEquilibrium_of_equilibrium hfield hi (Array.getElem?_eq_getElem hlt)⟩
  · intro hcovered
    have hnodes : ∀ node ∈ mesh.nodes.toList, ∃ s, nodeEquilibrium mesh table node = .ok s :=
      fun node hnode => (exists_nodeEquilibrium_iff (hlisted node (Array.mem_toList_iff.1 hnode))).2
        (hcovered node (Array.mem_toList_iff.1 hnode))
    obtain ⟨states, hstates⟩ := Loop.exists_mapM hnodes
    exact ⟨⟨states.toArray⟩, except_bind_eq_ok.2 ⟨states, hstates, rfl⟩⟩

/-- **A mesh is rejected exactly for a region that the table does not have.** The region is that of
the first node that has such a region, and nothing is asked about a region before it is made sure
that the table has it. On all other meshes there is a field with a value of every quantity for every
node. -/
theorem rejected_iff_uncovered
    (hlisted : ∀ node ∈ mesh.nodes, ∀ e ∈ node.elements, e < mesh.elements.size) :
    ((∃ r, NodeField.equilibrium mesh table = .error (.missingMaterial r)) ↔
        ∃ node ∈ mesh.nodes, Uncovered mesh table node) ∧
      (∀ e, NodeField.equilibrium mesh table = .error e ↔
        ∃ i node r, mesh.nodes[i]? = some node ∧
          (∀ before ∈ mesh.nodes.toList.take i, ¬ Uncovered mesh table before) ∧
          Missing mesh table node r ∧ e = .missingMaterial r) ∧
      (∀ desk : RegionDesk M α, desk.Answers table →
        askedEquilibrium desk table.count table.temperature mesh =
          NodeField.equilibrium mesh table) ∧
      ((∀ node ∈ mesh.nodes, ¬ Uncovered mesh table node) →
        ∃ field, NodeField.equilibrium mesh table = .ok field ∧
          ∀ q, (field.values q).size = mesh.nodes.size) := by
  have hbuilt : (∃ field, NodeField.equilibrium mesh table = .ok field) ↔
      ∀ node ∈ mesh.nodes, ¬ Uncovered mesh table node := exists_equilibrium_iff hlisted
  refine ⟨⟨?_, ?_⟩, fun e => equilibrium_eq_error_iff hlisted,
    fun desk hdesk => askedEquilibrium_eq hdesk, ?_⟩
  · rintro ⟨r, h⟩
    by_contra hcovered
    obtain ⟨field, hfield⟩ := hbuilt.2 fun node hnode hnot => hcovered ⟨node, hnode, hnot⟩
    cases h.symm.trans hfield
  · rintro ⟨node, hnode, huncovered⟩
    cases h : NodeField.equilibrium mesh table with
    | error e =>
      obtain ⟨-, -, r, -, -, -, rfl⟩ := (equilibrium_eq_error_iff hlisted).1 h
      exact ⟨r, rfl⟩
    | ok field => exact absurd huncovered (hbuilt.1 ⟨field, h⟩ node hnode)
  · intro hcovered
    obtain ⟨field, hfield⟩ := hbuilt.2 hcovered
    refine ⟨field, hfield, fun q => ?_⟩
    rw [NodeField.values, Array.size_map]
    exact nodeCount_equilibrium hfield

/-- The second node borders regions of the numbers 0, 2 and 7, the third is governed by a ninth. -/
def strayMesh : Topology ℚ where
  nodes := #[⟨[0], 0⟩, ⟨[1, 2, 0, 1], 0⟩, ⟨[1], 9⟩]
  elements := #[⟨0, 1, 1, 1, 0⟩, ⟨1, 2, 1, 1, 7⟩, ⟨1, 2, 1, 1, 2⟩]

def singleRegion : RegionTable Physics.Material ℚ where
  regions := #[⟨.silicon, 1, 0⟩]
  temperature := 300

/-- A desk that refuses to answer about any other region. -/
def reticentDesk : RegionDesk Physics.Material ℚ where
  donorDensity r := if r = 0 then .ok 1 else .error .unknownIndex
  acceptorDensity r := if r = 0 then .ok 0 else .error .unknownIndex
  material r := if r = 0 then .ok .silicon else .error .unknownIndex

/-- With a single region in the table the mesh is rejected for the region of the number 2, and the
desk is not asked about it. -/
theorem rejected_iff_uncovered_strayMesh :
    NodeField.equilibrium strayMesh singleRegion = .error (.missingMaterial 2) ∧
      askedEquilibrium reticentDesk 1 300 strayMesh = .error (.missingMaterial 2) := by
  have hlisted : ∀ node ∈ strayMesh.nodes, ∀ e ∈ node.elements, e < strayMesh.elements.size := by
    decide
  obtain ⟨-, herror, hasked, -⟩ :=
    @rejected_iff_uncovered _ _ _ _ strayMesh singleRegion hlisted
  have hrejected : NodeField.equilibrium strayMesh singleRegion = .error (.missingMaterial 2) := by
    refine (herror _).2 ⟨1, ⟨[1, 2, 0, 1], 0⟩, 2, rfl, ?_, ?_, rfl⟩
    · intro before hbefore
      obtain rfl : before = ⟨[0], 0⟩ := by simpa [strayMesh] using hbefore
      rintro (⟨r, ⟨e, he, element, helement, rfl⟩, hr⟩ | hr)
      · obtain rfl := List.mem_singleton.1 he
        cases helement
        exact absurd hr (by decide)
      · exact absurd hr (by decide)
    · refine .bordering ⟨2, by decide, _, rfl, rfl⟩ (by decide) ?_
      simp only [Topology.Around, strayMesh]
      grind [RegionTable.count, singleRegion]
  refine ⟨hrejected, (hasked reticentDesk ?_).trans hrejected⟩
  constructor <;> intro r info hinfo <;>
    obtain ⟨hr, rfl⟩ := Array.getElem?_eq_some_iff.1 hinfo <;>
    obtain rfl : r = 0 := by simpa [singleRegion] using hr
  · rfl
  · rfl
  · rfl

end Meshes

end State

end CarrierTransport
