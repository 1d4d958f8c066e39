import Mathlib
import CarrierTransport.Mesh.Line
import CarrierTransport.Proofs.Scalar.Exact
import CarrierTransport.Proofs.Transition

/-!
# The shape of a line mesh

A mesh of layers is a row of elements: element `e` joins the nodes `e` and `e + 1`, a node lists the
elements on its sides, and of their regions one of least priority governs it (`IsLine`). Every mesh
that is generated has this shape, and its regions are those of the layers (`isLine_generate`). Over
exact numbers none of its elements is empty (`element_pos_generate`).
-/

namespace CarrierTransport.Mesh

/-! ### The governing region -/

theorem governingRegion_spec (priority : Nat → Int) {rs : List Nat} (h : rs ≠ []) :
    governingRegion priority rs ∈ rs ∧
      ∀ r ∈ rs, priority (governingRegion priority rs) ≤ priority r := by
  cases rs with
  | nil => exact absurd rfl h
  | cons first rest =>
    clear h
    simp only [governingRegion]
    induction rest generalizing first with
    | nil => simp
    | cons r rest ih =>
      rw [List.foldl_cons]
      obtain ⟨hmem, hle⟩ := ih (if priority r < priority first then r else first)
      split_ifs at hmem hle ⊢ with hlt
      · refine ⟨List.mem_cons_of_mem first hmem, fun r' hr' => ?_⟩
        rcases List.mem_cons.1 hr' with rfl | hr'
        · exact (hle r List.mem_cons_self).trans hlt.le
        · exact hle r' hr'
      · refine ⟨?_, fun r' hr' => ?_⟩
        · rcases List.mem_cons.1 hmem with hmem | hmem
          · rw [hmem]
            exact List.mem_cons_self
          · exact List.mem_cons_of_mem first (List.mem_cons_of_mem r hmem)
        · rcases List.mem_cons.1 hr' with rfl | hr'
          · exact hle r' List.mem_cons_self
          · rcases List.mem_cons.1 hr' with rfl | hr'
            · exact (hle first List.mem_cons_self).trans (not_lt.1 hlt)
            · exact hle r' (List.mem_cons_of_mem first hr')

theorem mem_neighbours {count i e : Nat} (hi : i ≤ count) :
    e ∈ neighbours count i ↔ e < count ∧ (e = i ∨ e + 1 = i) := by
  rw [neighbours, List.mem_append]
  constructor
  · rintro (h | h)
    · split_ifs at h with hpos
      · have he := List.mem_singleton.1 h
        omega
      · simp at h
    · split_ifs at h with hlt
      · have he := List.mem_singleton.1 h
        omega
      · simp at h
  · rintro ⟨hlt, rfl | rfl⟩
    · exact .inr (by simp [hlt])
    · exact .inl (by simp)

/-- Every node of a row has an element at one of its sides. -/
theorem beside_ne_nil {regions : List Nat} (hregions : regions ≠ []) {i : Nat}
    (hi : i ≤ regions.length) :
    (neighbours regions.length i).filterMap (fun e => regions[e]?) ≠ [] := by
  have hpos := List.length_pos_iff.2 hregions
  obtain ⟨e, he⟩ : ∃ e, e < regions.length ∧ (e = i ∨ e + 1 = i) := by
    rcases Nat.lt_or_ge i regions.length with hlt | hge
    · exact ⟨i, hlt, .inl rfl⟩
    · exact ⟨regions.length - 1, by omega, by omega⟩
  intro hnil
  rw [List.filterMap_eq_nil_iff] at hnil
  have hnone := hnil e ((mem_neighbours hi).2 he)
  rw [List.getElem?_eq_getElem he.1] at hnone
  cases hnone

/-! ### Lines -/

variable {α : Type}

/-- A row of elements in the given regions. -/
structure IsLine (mesh : Topology α) (regions : List Nat) (priority : Nat → Int) : Prop where
  elements_size : mesh.elements.size = regions.length
  nodes_size : mesh.nodes.size = regions.length + 1
  element : ∀ e < regions.length, ∃ element, mesh.elements[e]? = some element ∧
    element.left = e ∧ element.right = e + 1 ∧ regions[e]? = some element.region
  node : ∀ i ≤ regions.length, mesh.nodes[i]? = some ⟨neighbours regions.length i,
    governingRegion priority ((neighbours regions.length i).filterMap fun e => regions[e]?)⟩

namespace IsLine

variable {mesh : Topology α} {regions : List Nat} {priority : Nat → Int}
  (h : IsLine mesh regions priority)

include h

theorem of_getElem? {e : Nat} {element : Element α} (he : mesh.elements[e]? = some element) :
    e < regions.length ∧ element.left = e ∧ element.right = e + 1 ∧
      regions[e]? = some element.region := by
  have hlt : e < regions.length := by
    rw [← h.elements_size]
    exact (Array.getElem?_eq_some_iff.1 he).1
  obtain ⟨element', he', hleft, hright, hregion⟩ := h.element e hlt
  cases he.symm.trans he'
  exact ⟨hlt, hleft, hright, hregion⟩

theorem of_node {i : Nat} {node : Node} (hi : mesh.nodes[i]? = some node) :
    i ≤ regions.length ∧ node.elements = neighbours regions.length i ∧
      node.region =
        governingRegion priority
          ((neighbours regions.length i).filterMap fun e => regions[e]?) := by
  have hle : i ≤ regions.length := by
    have hlt := (Array.getElem?_eq_some_iff.1 hi).1
    rw [h.nodes_size] at hlt
    omega
  cases hi.symm.trans (h.node i hle)
  exact ⟨hle, rfl, rfl⟩

/-- The region that governs a node is that of an element at its side, and none there has a smaller
priority. -/
theorem governing {i : Nat} {node : Node} (hregions : regions ≠ [])
    (hi : mesh.nodes[i]? = some node) :
    (∃ e ∈ node.elements, regions[e]? = some node.region) ∧
      ∀ e ∈ node.elements, ∀ r, regions[e]? = some r → priority node.region ≤ priority r := by
  obtain ⟨hle, helements, hregion⟩ := h.of_node hi
  obtain ⟨hmem, hmin⟩ := governingRegion_spec priority (beside_ne_nil hregions hle)
  rw [← hregion] at hmem hmin
  rw [helements]
  constructor
  · obtain ⟨e, he, hregion⟩ := List.mem_filterMap.1 hmem
    exact ⟨e, he, hregion⟩
  · intro e he r hr
    exact hmin r (List.mem_filterMap.2 ⟨e, he, hr⟩)

end IsLine

/-! ### Generated meshes -/

variable [Scalar α]

theorem exists_cells {rs : List (Region α)}
    (h : ∀ r ∈ rs, r.divisions ≠ 0 ∧ ¬ r.thickness ≤ 0) (index : Nat) (offset : α) :
    ∃ cs, cells index offset rs = .ok cs := by
  induction rs generalizing index offset with
  | nil => exact ⟨[], rfl⟩
  | cons region rs ih =>
    obtain ⟨⟨hdivisions, hthickness⟩, hrs⟩ := List.forall_mem_cons.1 h
    obtain ⟨others, hothers⟩ := ih hrs (index + 1) (offset + region.thickness)
    rw [cells, if_neg hdivisions, if_neg hthickness]
    exact ⟨_, Transition.except_bind_eq_ok.2 ⟨others, hothers, rfl⟩⟩

/-- Regions that are divided and have a thickness have a mesh. -/
theorem exists_generate {rs : List (Region α)} (hrs : rs ≠ [])
    (h : ∀ r ∈ rs, r.divisions ≠ 0 ∧ ¬ r.thickness ≤ 0) (left : α) :
    ∃ mesh, LineMesh.generate rs left = .ok mesh := by
  obtain ⟨cs, hcs⟩ := exists_cells h 0 left
  rw [LineMesh.generate, if_neg (by simpa using hrs)]
  exact ⟨_, Transition.except_bind_eq_ok.2 ⟨cs, hcs, rfl⟩⟩

/-- The end of an element of a layer: `k + 1` of its divisions from the start of the layer on. -/
def endOf (offset thickness : α) (divisions k : Nat) : α :=
  offset + thickness * (Scalar.count (k + 1) / Scalar.count divisions)

/-- The cells of a stack are those of its first layer and of the others. -/
theorem cells_cons {region : Region α} {rs : List (Region α)} {index : Nat} {offset : α}
    {cs : List (α × Nat)} (h : cells index offset (region :: rs) = .ok cs) :
    region.divisions ≠ 0 ∧ ¬ region.thickness ≤ 0 ∧
      ∃ others, cells (index + 1) (offset + region.thickness) rs = .ok others ∧
        cs = (List.range region.divisions).map
          (fun k => (endOf offset region.thickness region.divisions k, index)) ++ others := by
  rw [cells] at h
  split_ifs at h with hdivisions hthickness
  obtain ⟨others, hothers, h⟩ := Transition.except_bind_eq_ok.1 h
  cases h
  exact ⟨hdivisions, hthickness, others, hothers, rfl⟩

theorem region_of_mem_cells {rs : List (Region α)} {index : Nat} {offset : α}
    {cs : List (α × Nat)} (h : cells index offset rs = .ok cs) :
    ∀ c ∈ cs, index ≤ c.2 ∧ c.2 < index + rs.length := by
  induction rs generalizing index offset cs with
  | nil =>
    cases h
    simp
  | cons region rs ih =>
    obtain ⟨-, -, others, hothers, rfl⟩ := cells_cons h
    intro c hc
    rcases List.mem_append.1 hc with hc | hc
    · obtain ⟨k, -, rfl⟩ := List.mem_map.1 hc
      simp
    · have hrange := ih hothers c hc
      rw [List.length_cons]
      omega

theorem cells_ne_nil {rs : List (Region α)} {index : Nat} {offset : α} {cs : List (α × Nat)}
    (hrs : rs ≠ []) (h : cells index offset rs = .ok cs) : cs ≠ [] := by
  cases rs with
  | nil => exact absurd rfl hrs
  | cons region rs =>
    obtain ⟨hdivisions, -, others, -, rfl⟩ := cells_cons h
    simp [hdivisions]

/-- A generated mesh is a line of elements in the regions of the cells, and its vertices are
assigned the regions beside them. -/
theorem generate_eq_ok {rs : List (Region α)} {left : α} {mesh : LineMesh α}
    (h : LineMesh.generate rs left = .ok mesh) :
    ∃ cs, cells 0 left rs = .ok cs ∧ cs ≠ [] ∧
      (∀ lengthScale crossSection,
        IsLine { mesh with lengthScale, crossSection }.topology (cs.map (·.2))
          fun r => (rs.map Region.priority).toArray.getD r 0) ∧
      mesh.vertices.length = cs.length + 1 ∧
      ∀ n ≤ cs.length, (mesh.vertices[n]?).map Vertex.assignment =
        some (.ofBordering ((neighbours cs.length n).filterMap fun e => (cs.map (·.2))[e]?)) := by
  rw [LineMesh.generate] at h
  split_ifs at h with hempty
  obtain ⟨cs, hcs, h⟩ := Transition.except_bind_eq_ok.1 h
  cases h
  refine ⟨cs, hcs, cells_ne_nil (by simpa using hempty) hcs, ?_, ?_, ?_⟩
  · intro lengthScale crossSection
    constructor
    case elements_size => simp [LineMesh.topology]
    case nodes_size => simp [LineMesh.topology]
    case element =>
      intro e he
      rw [List.length_map] at he
      simp [LineMesh.topology, he]
    case node =>
      intro i hi
      rw [List.length_map] at hi
      have hlt : i < cs.length + 1 := by omega
      simp [LineMesh.topology, hlt]
  · simp
  · intro n hn
    have hlt : n < cs.length + 1 := by omega
    simp [hlt]

/-- **A generated mesh is a line** of elements in the regions it was generated from. -/
theorem isLine_generate {rs : List (Region α)} {left : α} {mesh : LineMesh α}
    (h : LineMesh.generate rs left = .ok mesh) :
    ∃ regions : List Nat, regions ≠ [] ∧ (∀ r ∈ regions, r < rs.length) ∧
      ∀ lengthScale crossSection,
        IsLine { mesh with lengthScale, crossSection }.topology regions
          fun r => (rs.map Region.priority).toArray.getD r 0 := by
  obtain ⟨cs, hcs, hne, hline, -⟩ := generate_eq_ok h
  refine ⟨cs.map (·.2), by simpa using hne, fun r hr => ?_, hline⟩
  obtain ⟨c, hc, rfl⟩ := List.mem_map.1 hr
  have hrange := region_of_mem_cells hcs c hc
  omega

/-! ### Lengths -/

/-- The vertices of a generated mesh are where its cells end, and an element is as long as the
vertices at its ends are apart. -/
theorem generate_lengths {rs : List (Region α)} {left : α} {mesh : LineMesh α}
    (h : LineMesh.generate rs left = .ok mesh) :
    ∃ cs, cells 0 left rs = .ok cs ∧
      mesh.vertices.map Vertex.coordinate = left :: cs.map Prod.fst ∧ mesh.lengthScale = 1 ∧
      ∀ (lengthScale crossSection : α) (e : Nat) (element : Element α),
        { mesh with lengthScale, crossSection }.topology.elements[e]? = some element ↔
          ∃ start stop region, (left :: cs.map Prod.fst)[e]? = some start ∧
            cs[e]? = some (stop, region) ∧
            element = ⟨e, e + 1, (stop - start) * lengthScale, crossSection, region⟩ := by
  rw [LineMesh.generate] at h
  split_ifs at h
  obtain ⟨cs, hcs, h⟩ := Transition.except_bind_eq_ok.1 h
  cases h
  refine ⟨cs, hcs, ?_, rfl, ?_⟩
  · dsimp only
    rw [List.map_map]
    refine List.map_fst_zip ?_
    simp
  · intro lengthScale crossSection e element
    have hindex : ∀ {i}, (List.range cs.length)[e]? = some i ↔ e < cs.length ∧ e = i := by
      simp [List.getElem?_eq_some_iff]
    simp only [LineMesh.topology, List.getElem?_toArray, List.getElem?_map, List.map_map,
      Option.map_eq_some_iff, List.getElem?_zip_eq_some, Prod.exists, hindex]
    constructor
    · rintro ⟨start, stop, region, _, ⟨⟨hstart, hstop⟩, -, rfl⟩, rfl⟩
      exact ⟨start, stop, region, hstart, hstop, rfl⟩
    · rintro ⟨start, stop, region, hstart, hstop, rfl⟩
      have hlt := (List.getElem?_eq_some_iff.1 hstop).1
      exact ⟨start, stop, region, e, ⟨⟨hstart, hstop⟩, hlt, rfl⟩, rfl⟩

section Lengths

variable {α : Type} [ExactScalar α] {rs : List (Region α)} {lengthScale crossSection : α}

/-- The elements of a layer end one behind the other and in the layer. -/
theorem pairwise_ends (offset thickness : α) (h : 0 < thickness) (divisions : Nat) :
    let ends := (List.range divisions).map (endOf offset thickness divisions)
    ends.Pairwise (· < ·) ∧ ∀ x ∈ ends, offset < x ∧ x ≤ offset + thickness := by
  intro ends
  have hdivisions : ∀ k < divisions, (0 : α) < divisions := fun k hk => by
    exact_mod_cast k.zero_le.trans_lt hk
  constructor
  · rw [List.pairwise_map]
    refine List.pairwise_lt_range.imp_of_mem fun {k l} hk _ hlt => ?_
    have hcount : (Scalar.count (k + 1) : α) < Scalar.count (l + 1) := by
      rw [ExactScalar.count_eq, ExactScalar.count_eq]
      exact_mod_cast Nat.succ_lt_succ hlt
    have hpos := hdivisions k (List.mem_range.1 hk)
    rw [← ExactScalar.count_eq] at hpos
    exact add_lt_add_right (mul_lt_mul_of_pos_left (div_lt_div_of_pos_right hcount hpos) h) offset
  · intro x hx
    obtain ⟨k, hk, rfl⟩ := List.mem_map.1 hx
    have hlt := List.mem_range.1 hk
    have hpos := hdivisions k hlt
    have hle : ((k + 1 : Nat) : α) ≤ divisions := Nat.cast_le.2 hlt
    have hfirst : (0 : α) < (k + 1 : Nat) := Nat.cast_pos.2 k.succ_pos
    rw [endOf, ExactScalar.count_eq, ExactScalar.count_eq]
    constructor
    · exact lt_add_of_pos_right offset (mul_pos h (div_pos hfirst hpos))
    · exact add_le_add_right (mul_le_of_le_one_right h.le ((div_le_one hpos).2 hle)) offset

/-- The ends of the elements of consecutive layers ascend. -/
theorem pairwise_cells {index : Nat} {offset : α} {cs : List (α × Nat)}
    (h : cells index offset rs = .ok cs) :
    (cs.map Prod.fst).Pairwise (· < ·) ∧ ∀ c ∈ cs, offset < c.1 := by
  induction rs generalizing index offset cs with
  | nil =>
    cases h
    simp
  | cons region rs ih =>
    obtain ⟨-, hthickness, others, hothers, rfl⟩ := cells_cons h
    obtain ⟨hpairwise, hgreater⟩ := ih hothers
    have hpos := not_le.1 hthickness
    obtain ⟨hown, hbetween⟩ := pairwise_ends offset region.thickness hpos region.divisions
    constructor
    · rw [List.map_append, List.map_map, List.pairwise_append]
      refine ⟨hown, hpairwise, fun x hx y hy => ?_⟩
      obtain ⟨c, hc, rfl⟩ := List.mem_map.1 hy
      exact (hbetween x hx).2.trans_lt (hgreater c hc)
    · intro c hc
      rcases List.mem_append.1 hc with hc | hc
      · obtain ⟨k, hk, rfl⟩ := List.mem_map.1 hc
        exact (hbetween _ (List.mem_map.2 ⟨k, hk, rfl⟩)).1
      · exact (lt_add_of_pos_right offset hpos).trans (hgreater c hc)

/-- **The elements of a generated mesh have a length and an area.** -/
theorem element_pos_generate {left : α} {mesh : LineMesh α}
    (h : LineMesh.generate rs left = .ok mesh) (hlengthScale : 0 < lengthScale)
    (hcrossSection : 0 < crossSection) :
    ∀ element ∈ { mesh with lengthScale, crossSection }.topology.elements,
      0 < element.length ∧ 0 < element.area := by
  obtain ⟨cs, hcs, -, -, helements⟩ := generate_lengths h
  obtain ⟨hpairwise, hgreater⟩ := pairwise_cells hcs
  have hchain : (left :: cs.map Prod.fst).Pairwise (· < ·) := by
    refine List.pairwise_cons.2 ⟨fun x hx => ?_, hpairwise⟩
    obtain ⟨c, hc, rfl⟩ := List.mem_map.1 hx
    exact hgreater c hc
  intro element helement
  obtain ⟨e, he⟩ := Array.mem_iff_getElem?.1 helement
  obtain ⟨start, stop, region, hstart, hstop, rfl⟩ := (helements _ _ _ _).1 he
  obtain ⟨hlt, rfl⟩ := List.getElem?_eq_some_iff.1 hstart
  obtain ⟨hlt', hvalue⟩ := List.getElem?_eq_some_iff.1 hstop
  have hless := List.pairwise_iff_getElem.1 hchain e (e + 1) hlt (by simpa using hlt') e.lt_succ_self
  rw [List.getElem_cons_succ, List.getElem_map, hvalue] at hless
  exact ⟨mul_pos (sub_pos.2 hless) hlengthScale, hcrossSection⟩

end Lengths

end CarrierTransport.Mesh
