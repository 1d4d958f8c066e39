import Mathlib
import CarrierTransport.Proofs.Device.Stack
import CarrierTransport.Proofs.Mesh.Geometry

/-!
# Control volumes make up the device

A node counts its share of every element that it lists, and an element is shared by the two nodes at
its ends. If the nodes list the elements that end there, the shares can be counted by elements instead
(`Topology.ListsEnds.sum_nodes`): each is counted twice, by halves. So the control volumes of all nodes
make up the volume of all elements, and those of the nodes in semiconductors the volume of the
semiconductors, whatever the mesh. On the mesh of a device the elements make up its layers
(`Device.volumes_partition`).
-/

namespace CarrierTransport

open Finset (range)
open Mesh (Element LineMesh Node Topology)
open Newton (semiconductorVolumes)
open Physics (Material MaterialKind MaterialModel)

/-! ### Counting by nodes and by elements -/

namespace Mesh.Topology

section Ends

variable {α : Type} {mesh : Topology α}

/-- Each element has two ends, which list it once, and nodes list nothing else. -/
structure ListsEnds (mesh : Topology α) : Prop where
  between : ∀ element ∈ mesh.elements, element.left ≠ element.right ∧
    element.left < mesh.nodes.size ∧ element.right < mesh.nodes.size
  lists : ∀ (n : Nat) (node : Node), mesh.nodes[n]? = some node →
    node.elements.Nodup ∧ ∀ e, e ∈ node.elements ↔
      ∃ element, mesh.elements[e]? = some element ∧ (n = element.left ∨ n = element.right)

/-- The nodes at the ends of an element. -/
def ends (mesh : Topology α) (e : Nat) : Finset Nat :=
  (mesh.elements[e]?).elim ∅ fun element => {element.left, element.right}

theorem mem_ends {n e : Nat} : n ∈ mesh.ends e ↔
    ∃ element, mesh.elements[e]? = some element ∧ (n = element.left ∨ n = element.right) := by
  rw [ends]
  cases mesh.elements[e]? with
  | none => simp
  | some element => simp

variable (h : mesh.ListsEnds)

include h

theorem ListsEnds.listed {node : Node} (hnode : node ∈ mesh.nodes) :
    ∀ e ∈ node.elements, ∃ element, mesh.elements[e]? = some element := by
  obtain ⟨n, hn⟩ := Array.mem_iff_getElem?.1 hnode
  intro e he
  obtain ⟨element, helement, -⟩ := ((h.lists n node hn).2 e).1 he
  exact ⟨element, helement⟩

/-- What a node adds up is what the elements that end there count. -/
theorem ListsEnds.sum_node {β : Type} [AddCommMonoid β] (amount : Nat → β) {n : Nat} {node : Node}
    (hn : mesh.nodes[n]? = some node) : (node.elements.map amount).sum =
      ∑ e ∈ range mesh.elements.size, if n ∈ mesh.ends e then amount e else 0 := by
  obtain ⟨hnodup, hmem⟩ := h.lists n node hn
  have hlisted : node.elements.toFinset =
      (range mesh.elements.size).filter fun e => n ∈ mesh.ends e := by
    ext e
    rw [List.mem_toFinset, hmem, Finset.mem_filter, Finset.mem_range, mem_ends]
    refine ⟨fun hend => ⟨?_, hend⟩, And.right⟩
    obtain ⟨element, helement, -⟩ := hend
    exact (Array.getElem?_eq_some_iff.1 helement).1
  rw [← List.sum_toFinset _ hnodup, hlisted, Finset.sum_filter]

/-- **An element is counted by two nodes.** -/
theorem ListsEnds.sum_nodes {β : Type} [AddCommMonoid β] (amount : Nat → β) :
    (mesh.nodes.toList.map fun node => (node.elements.map amount).sum).sum =
      ∑ e ∈ range mesh.elements.size, (amount e + amount e) := by
  rw [Loop.sum_map_toList rfl fun n node hn => h.sum_node amount hn, Finset.sum_comm]
  refine Finset.sum_congr rfl fun e he => ?_
  have helement := Array.getElem?_eq_getElem (Finset.mem_range.1 he)
  obtain ⟨hne, hleft, hright⟩ := h.between _ (Array.getElem_mem (Finset.mem_range.1 he))
  rw [Finset.sum_ite_mem, ends, helement, Option.elim_some, Finset.inter_eq_right.2, Finset.sum_pair hne]
  intro n hn
  rw [Finset.mem_insert, Finset.mem_singleton] at hn
  rcases hn with rfl | rfl
  · exact Finset.mem_range.2 hleft
  · exact Finset.mem_range.2 hright

end Ends

end Mesh.Topology

/-! ### Volumes -/

/-- Whether there are carriers in a region. -/
def RegionTable.isSemiconductor {M α : Type} [MaterialKind M] (table : RegionTable M α)
    (region : Nat) : Bool :=
  (table.material? region).any MaterialKind.isSemiconductor

namespace Mesh

section Volumes

variable {M α : Type} [FieldScalar α]

def Element.volume (element : Element α) : α :=
  element.area * element.length

theorem Element.share_add_share (htwo : (1 + 1 : α) ≠ 0) (element : Element α) :
    element.share + element.share = element.volume := by
  rw [share, volume, ← mul_two, ← one_add_one_eq_two]
  exact div_mul_cancel₀ _ htwo

namespace Topology

/-- The control volumes of all nodes together. -/
def nodeVolumes? (mesh : Topology α) : Option α :=
  (mesh.nodes.toList.mapM mesh.totalControlVolume?).map List.sum

/-- The control volumes in semiconductors of all nodes together. -/
def carrierVolumes? [MaterialModel M α] (mesh : Topology α) (table : RegionTable M α) : Option α :=
  ((mesh.nodes.toList.flatMap fun node =>
    semiconductorVolumes mesh table node.elements).mapM id).map List.sum

variable {mesh : Topology α}

/-- The share of a node in an element that it lists. -/
def listedShare (mesh : Topology α) (e : Nat) : α :=
  (mesh.elements[e]?).elim 0 Element.share

theorem map_share_mapM {es : List Nat}
    (h : ∀ e ∈ es, ∃ element, mesh.elements[e]? = some element) :
    (es.mapM fun e => mesh.elements[e]?).map (List.map Element.share) =
      some (es.map mesh.listedShare) := by
  induction es with
  | nil => rfl
  | cons e es ih =>
    obtain ⟨⟨element, helement⟩, hes⟩ := List.forall_mem_cons.1 h
    obtain ⟨elements, helements, hshares⟩ := Option.map_eq_some_iff.1 (ih hes)
    rw [List.mapM_cons, helement, helements]
    simp [listedShare, helement, hshares]

theorem totalControlVolume?_eq {node : Node}
    (h : ∀ e ∈ node.elements, ∃ element, mesh.elements[e]? = some element) :
    mesh.totalControlVolume? node = some (node.elements.map mesh.listedShare).sum := by
  rw [totalControlVolume?, controlVolumes?, bordering?, map_share_mapM h, Option.map_some,
    List.sum_eq_foldl]

theorem ListsEnds.nodeVolumes?_eq (h : mesh.ListsEnds) (htwo : (1 + 1 : α) ≠ 0) :
    mesh.nodeVolumes? = some (mesh.elements.toList.map Element.volume).sum := by
  have htotals := Loop.mapM_eq_some_map fun node (hnode : node ∈ mesh.nodes.toList) =>
    totalControlVolume?_eq (h.listed (Array.mem_toList_iff.1 hnode))
  rw [nodeVolumes?, htotals, Option.map_some, h.sum_nodes]
  refine congrArg some (Loop.sum_map_toList rfl fun e element he => ?_).symm
  rw [listedShare, he, Option.elim_some, Element.share_add_share htwo]

variable [MaterialModel M α] {table : RegionTable M α}

/-- The share of a node in an element that it lists, if there are carriers in it. -/
def carrierShare (mesh : Topology α) (table : RegionTable M α) (e : Nat) : α :=
  (mesh.elements[e]?).elim 0 fun element =>
    if table.isSemiconductor element.region then element.share else 0

theorem exists_semiconductorVolumes {es : List Nat}
    (h : ∀ e ∈ es, ∃ element, mesh.elements[e]? = some element ∧
      ∃ m, table.material? element.region = some m) :
    ∃ volumes : List α, semiconductorVolumes mesh table es = volumes.map some ∧
      volumes.sum = (es.map (mesh.carrierShare table)).sum := by
  induction es with
  | nil => exact ⟨[], rfl, rfl⟩
  | cons e es ih =>
    obtain ⟨⟨element, helement, m, hm⟩, hes⟩ := List.forall_mem_cons.1 h
    obtain ⟨volumes, hvolumes, hsum⟩ := ih hes
    have hshare : mesh.carrierShare table e =
        if MaterialKind.isSemiconductor m then element.share else 0 := by
      rw [carrierShare, helement, Option.elim_some, RegionTable.isSemiconductor, hm,
        Option.any_some]
    rw [semiconductorVolumes, helement, List.map_cons, List.sum_cons, hshare, ← hsum]
    dsimp only
    rw [hm, hvolumes]
    dsimp only
    split_ifs
    · exact ⟨element.share :: volumes, rfl, List.sum_cons⟩
    · exact ⟨volumes, rfl, (zero_add _).symm⟩

/-- A region of no known material leaves its mark. -/
theorem none_mem_semiconductorVolumes {es : List Nat} {e : Nat} {element : Element α} (he : e ∈ es)
    (helement : mesh.elements[e]? = some element) (hm : table.material? element.region = none) :
    none ∈ semiconductorVolumes mesh table es := by
  induction es with
  | nil => cases he
  | cons e' es ih =>
    rw [semiconductorVolumes]
    rcases List.mem_cons.1 he with rfl | he
    · rw [helement]
      dsimp only
      rw [hm]
      exact List.mem_singleton_self none
    · split
      · exact List.mem_singleton_self none
      · split
        · exact List.mem_singleton_self none
        · split_ifs
          · exact List.mem_cons_of_mem _ (ih he)
          · exact ih he

theorem carrierVolumes?_eq_some {v : α} : mesh.carrierVolumes? table = some v ↔
    ∃ volumes : List α, (mesh.nodes.toList.flatMap fun node =>
      semiconductorVolumes mesh table node.elements) = volumes.map some ∧ volumes.sum = v := by
  have hsome : ∀ (items : List (Option α)) (volumes : List α),
      items.mapM id = some volumes ↔ items = volumes.map some := by
    intro items volumes
    rw [Loop.mapM_eq_some, ← List.forall₂_eq_eq_eq, List.forall₂_map_right_iff]
    rfl
  rw [carrierVolumes?, Option.map_eq_some_iff]
  simp only [hsome]

/-- The volumes of some nodes are those of the first and of the others. -/
theorem exists_carrierVolumes {nodes : List Node}
    (h : ∀ node ∈ nodes, ∀ e ∈ node.elements, ∃ element, mesh.elements[e]? = some element ∧
      ∃ m, table.material? element.region = some m) :
    ∃ volumes : List α, (nodes.flatMap fun node => semiconductorVolumes mesh table node.elements) =
      volumes.map some ∧
      volumes.sum = (nodes.map fun node => (node.elements.map (mesh.carrierShare table)).sum).sum := by
  induction nodes with
  | nil => exact ⟨[], rfl, rfl⟩
  | cons node nodes ih =>
    obtain ⟨hnode, hnodes⟩ := List.forall_mem_cons.1 h
    obtain ⟨own, hown, hsum⟩ := exists_semiconductorVolumes hnode
    obtain ⟨others, hothers, hsum'⟩ := ih hnodes
    refine ⟨own ++ others, ?_, ?_⟩
    · rw [List.flatMap_cons, hown, hothers, List.map_append]
    · rw [List.sum_append, hsum, hsum', List.map_cons, List.sum_cons]

section Counted

variable (h : mesh.ListsEnds)

include h

theorem ListsEnds.carrierVolumes?_of_known (htwo : (1 + 1 : α) ≠ 0)
    (hmaterial : ∀ element ∈ mesh.elements, ∃ m, table.material? element.region = some m) :
    mesh.carrierVolumes? table = some ((mesh.elements.toList.filter fun element =>
      table.isSemiconductor element.region).map Element.volume).sum := by
  have hlisted : ∀ node ∈ mesh.nodes.toList, ∀ e ∈ node.elements, ∃ element,
      mesh.elements[e]? = some element ∧ ∃ m, table.material? element.region = some m := by
    intro node hnode e he
    obtain ⟨element, helement⟩ := h.listed (Array.mem_toList_iff.1 hnode) e he
    exact ⟨element, helement, hmaterial element (Array.mem_of_getElem? helement)⟩
  obtain ⟨volumes, hvolumes, hsum⟩ := exists_carrierVolumes hlisted
  refine carrierVolumes?_eq_some.2 ⟨volumes, hvolumes, ?_⟩
  rw [hsum, h.sum_nodes, Loop.sum_map_filter]
  refine (Loop.sum_map_toList rfl fun e element he => ?_).symm
  rw [carrierShare, he, Option.elim_some]
  split_ifs
  · exact (Element.share_add_share htwo element).symm
  · exact (add_zero 0).symm

/-- An element is listed somewhere, so its material is asked for. -/
theorem ListsEnds.material_of_carrierVolumes? {v : α} (hv : mesh.carrierVolumes? table = some v) :
    ∀ element ∈ mesh.elements, ∃ m, table.material? element.region = some m := by
  intro element helement
  obtain ⟨e, he⟩ := Array.mem_iff_getElem?.1 helement
  have hleft := (h.between element helement).2.1
  have hlisted := ((h.lists _ _ (Array.getElem?_eq_getElem hleft)).2 e).2 ⟨element, he, .inl rfl⟩
  obtain ⟨volumes, hvolumes, -⟩ := carrierVolumes?_eq_some.1 hv
  rw [← Option.isSome_iff_exists, Option.isSome_iff_ne_none]
  intro hnone
  have hmem : none ∈ volumes.map some := hvolumes ▸ List.mem_flatMap.2
    ⟨_, Array.getElem_mem_toList hleft, none_mem_semiconductorVolumes hlisted he hnone⟩
  simp at hmem

/-- The semiconductors are counted just if every region that has an element has a material. -/
theorem ListsEnds.carrierVolumes?_eq_some_iff (htwo : (1 + 1 : α) ≠ 0) {v : α} :
    mesh.carrierVolumes? table = some v ↔
      (∀ element ∈ mesh.elements, ∃ m, table.material? element.region = some m) ∧
        v = ((mesh.elements.toList.filter fun element =>
          table.isSemiconductor element.region).map Element.volume).sum := by
  constructor
  · intro hv
    have hmaterial := h.material_of_carrierVolumes? hv
    exact ⟨hmaterial, Option.some.inj (hv.symm.trans (h.carrierVolumes?_of_known htwo hmaterial))⟩
  · rintro ⟨hmaterial, rfl⟩
    exact h.carrierVolumes?_of_known htwo hmaterial

end Counted

end Topology

end Volumes

/-- On a mesh of layers the nodes list the elements at whose ends they are. -/
theorem FollowsLayers.listsEnds {α : Type} [Scalar α] {mesh : LineMesh α} {rs : List (Region α)}
    (h : FollowsLayers mesh rs) : mesh.topology.ListsEnds where
  between element helement := by
    obtain ⟨e, he⟩ := Array.mem_iff_getElem?.1 helement
    obtain ⟨hleft, hright⟩ := h.joins e element he
    have hlt := (Array.getElem?_eq_some_iff.1 he).1
    rw [h.elements_size] at hlt
    rw [h.nodes_size]
    omega
  lists n node hn := by
    obtain ⟨hascends, hmem⟩ := h.lists n node hn
    exact ⟨hascends.imp Nat.ne_of_lt, hmem⟩

end Mesh

/-! ### Devices -/

namespace Device

variable {α : Type} [ExactScalar α] {d : Device α} {lengthScale crossSection : α}
  {mesh : LineMesh α}

theorem listsEnds (h : d.mesh lengthScale crossSection = .ok mesh) : mesh.topology.ListsEnds := by
  obtain ⟨line, hline, rfl⟩ := of_mesh h
  exact (Mesh.followsLayers_generate hline _ _).listsEnds

theorem two_ne_zero_of_exact : (1 + 1 : α) ≠ 0 := by
  rw [one_add_one_eq_two]
  exact two_ne_zero

/-- The elements in some of the regions have the thickness of these layers. -/
theorem sum_volumes (h : d.mesh lengthScale crossSection = .ok mesh) (counts : Nat → Bool)
    (counted : Layer α → Bool)
    (hcounted : ∀ r layer, d.layers[r]? = some layer → counts r = counted layer) :
    ((mesh.topology.elements.toList.filter fun element => counts element.region).map
        Element.volume).sum =
      crossSection * lengthScale * ((d.layers.filter counted).map Layer.thickness).sum := by
  obtain ⟨line, hline, rfl⟩ := of_mesh h
  have hfollows := Mesh.followsLayers_generate hline lengthScale crossSection
  have hlengths := Mesh.sum_lengths hfollows
    (Mesh.evenlyDivided_generate hline lengthScale crossSection)
    (Mesh.proper_of_generate hline) fun r => if counts r then 1 else 0
  have hvolumes : ∀ element ∈ { line with lengthScale, crossSection }.topology.elements.toList,
      (if counts element.region then element.volume else 0) =
        crossSection * ((if counts element.region then 1 else 0) * element.length) := by
    intro element helement
    obtain ⟨segment, -, rfl⟩ := List.mem_map.1 helement
    rw [Element.volume, ite_mul, one_mul, zero_mul, mul_ite, mul_zero]
  have hlayers : ((d.layers.filter counted).map Layer.thickness).sum =
      ∑ r ∈ range d.regions.length,
        (if counts r then 1 else 0) * (d.regions[r]?).elim 0 Mesh.Region.thickness := by
    rw [Loop.sum_map_filter]
    have hsize : d.layers.toArray.size = d.regions.length := by simp [regions]
    refine Loop.sum_map_toList hsize fun r layer hr => ?_
    rw [List.getElem?_toArray] at hr
    rw [regions, List.getElem?_map, hr, hcounted r layer hr, Option.map_some, Option.elim_some,
      ite_mul, one_mul, zero_mul]
  rw [Loop.sum_map_filter, List.map_congr_left hvolumes, List.sum_map_mul_left, hlengths,
    hlayers, mul_assoc]

theorem layers_ne_nil (h : d.mesh lengthScale crossSection = .ok mesh) : d.layers ≠ [] := by
  rw [Device.mesh] at h
  split_ifs at h with hlayers
  exact fun hnil => hlayers (List.isEmpty_iff.2 hnil)

/-- An element lies in a layer, whose material is that of the region. -/
theorem material_of_mesh {table : RegionTable Material α} (htable : d.regionTable = .ok table)
    (h : d.mesh lengthScale crossSection = .ok mesh) :
    ∀ element ∈ mesh.topology.elements, ∃ m, table.material? element.region = some m := by
  obtain ⟨line, hline, rfl⟩ := of_mesh h
  intro element helement
  obtain ⟨region, hregion, -⟩ :=
    Mesh.evenlyDivided_generate hline lengthScale crossSection element helement
  rw [regions, List.getElem?_map, Option.map_eq_some_iff] at hregion
  obtain ⟨layer, hlayer, -⟩ := hregion
  exact ⟨layer.material, by rw [material?_regionTable htable, hlayer, Option.map_some]⟩

theorem nodeVolumes?_mesh (h : d.mesh lengthScale crossSection = .ok mesh) :
    mesh.topology.nodeVolumes? =
      some (crossSection * lengthScale * (d.layers.map Layer.thickness).sum) := by
  have hall := sum_volumes h (fun _ => true) (fun _ => true) fun _ _ _ => rfl
  rw [List.filter_true, List.filter_true] at hall
  rw [(listsEnds h).nodeVolumes?_eq two_ne_zero_of_exact, hall]

theorem carrierVolumes?_mesh {table : RegionTable Material α} (htable : d.regionTable = .ok table)
    (h : d.mesh lengthScale crossSection = .ok mesh) :
    mesh.topology.carrierVolumes? table = some (crossSection * lengthScale *
      ((d.layers.filter fun layer => MaterialKind.isSemiconductor layer.material).map
        Layer.thickness).sum) := by
  have hcounted : ∀ r layer, d.layers[r]? = some layer →
      table.isSemiconductor r = MaterialKind.isSemiconductor layer.material := by
    intro r layer hlayer
    rw [RegionTable.isSemiconductor, material?_regionTable htable, hlayer, Option.map_some,
      Option.any_some]
  rw [(listsEnds h).carrierVolumes?_of_known two_ne_zero_of_exact (material_of_mesh htable h),
    sum_volumes h _ _ hcounted]

/-- **Control volumes make up the device.** Over every field in which two is not zero and on every
mesh whose nodes list the elements at whose ends they are, the control volumes of all nodes are the
volume of all elements, and those in semiconductors, which have a value just if every region that
has an element has a material, are the volume of the elements in semiconductors. On the mesh of a
device these are the volumes of all its layers and of those that are semiconductors. -/
theorem volumes_partition :
    (∀ {α : Type} [FieldScalar α] {mesh : Topology α}, (1 + 1 : α) ≠ 0 → mesh.ListsEnds →
      mesh.nodeVolumes? = some (mesh.elements.toList.map Element.volume).sum ∧
      ∀ {M : Type} [MaterialModel M α] (table : RegionTable M α) (v : α),
        mesh.carrierVolumes? table = some v ↔
          (∀ element ∈ mesh.elements, ∃ m, table.material? element.region = some m) ∧
            v = ((mesh.elements.toList.filter fun element =>
              table.isSemiconductor element.region).map Element.volume).sum) ∧
    ∀ {α : Type} [ExactScalar α] {d : Device α} {lengthScale crossSection : α}
      {mesh : LineMesh α}, d.mesh lengthScale crossSection = .ok mesh →
      mesh.topology.ListsEnds ∧
      mesh.topology.nodeVolumes? =
        some (crossSection * lengthScale * (d.layers.map Layer.thickness).sum) ∧
      ∃ table, d.regionTable = .ok table ∧ mesh.topology.carrierVolumes? table =
        some (crossSection * lengthScale * ((d.layers.filter fun layer =>
          MaterialKind.isSemiconductor layer.material).map Layer.thickness).sum) := by
  constructor
  · intro α _ mesh htwo h
    exact ⟨h.nodeVolumes?_eq htwo, fun table v => h.carrierVolumes?_eq_some_iff htwo⟩
  · intro α _ d lengthScale crossSection mesh hmesh
    obtain ⟨table, htable⟩ := exists_regionTable (layers_ne_nil hmesh)
    exact ⟨listsEnds hmesh, nodeVolumes?_mesh hmesh, table, htable, carrierVolumes?_mesh htable hmesh⟩

/-- A layer of oxide on silicon. -/
def oxideOnSilicon : Device ℚ where
  temperature := 300
  layers := [⟨.siliconDioxide, 2, 1, 0, 0⟩, ⟨.silicon, 3, 4, 0, 0⟩]

/-- The oxide counts for the volume of all nodes, but not for that of the carriers. -/
theorem volumes_partition_oxideOnSilicon :
    ∃ mesh, oxideOnSilicon.mesh 1 7 = .ok mesh ∧ mesh.topology.nodeVolumes? = some 35 ∧
      mesh.topology.nodeVolumes? = some (mesh.topology.elements.toList.map Element.volume).sum ∧
      ∃ table, oxideOnSilicon.regionTable = .ok table ∧
        mesh.topology.carrierVolumes? table = some 21 := by
  have haccepted : ∀ layer ∈ oxideOnSilicon.layers, layer.divisions ≠ 0 ∧ ¬ layer.thickness ≤ 0 := by
    decide
  obtain ⟨mesh, hmesh⟩ := exists_mesh (List.cons_ne_nil _ _) haccepted 1 7
  obtain ⟨hpartition, hdevice⟩ := volumes_partition
  obtain ⟨hends, hall, table, htable, hcarriers⟩ := hdevice hmesh
  refine ⟨mesh, hmesh, ?_, (hpartition two_ne_zero_of_exact hends).1, table, htable, ?_⟩
  · rw [hall]
    norm_num [oxideOnSilicon]
  · rw [hcarriers]
    norm_num [oxideOnSilicon, MaterialKind.isSemiconductor]

end Device

end CarrierTransport
