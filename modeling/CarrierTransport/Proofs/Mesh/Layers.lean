import Mathlib
import CarrierTransport.Proofs.Mesh.Line

/-!
# Meshes and the layers they were generated from

The elements of a generated mesh are dealt out to the layers in order, to each as many as it has
divisions, so the interfaces fall at the running sums of the divisions (`cellsBefore`). Everything
that a mesh says of its nodes follows from that: the elements at their sides, the layers these lie
in, and the one of them that governs (`FollowsLayers`, `followsLayers_generate`).
-/

namespace CarrierTransport.Mesh

/-! ### Running sums -/

section Sums

variable {α : Type}

/-- The number of elements of the layers before layer `r`. -/
def cellsBefore (rs : List (Region α)) (r : Nat) : Nat :=
  ((rs.take r).map Region.divisions).sum

@[simp]
theorem cellsBefore_zero (rs : List (Region α)) : cellsBefore rs 0 = 0 := rfl

@[simp]
theorem cellsBefore_cons_succ (region : Region α) (rs : List (Region α)) (r : Nat) :
    cellsBefore (region :: rs) (r + 1) = region.divisions + cellsBefore rs r := by
  simp [cellsBefore]

theorem cellsBefore_mono (rs : List (Region α)) {r r' : Nat} (h : r ≤ r') :
    cellsBefore rs r ≤ cellsBefore rs r' := by
  refine List.Sublist.sum_le_sum ?_ fun _ _ => Nat.zero_le _
  exact (List.take_sublist_take_left h).map _

variable [Scalar α]

theorem length_cells {rs : List (Region α)} {index : Nat} {offset : α} {cs : List (α × Nat)}
    (h : cells index offset rs = .ok cs) : cs.length = (rs.map Region.divisions).sum := by
  induction rs generalizing index offset cs with
  | nil =>
    cases h
    rfl
  | cons region rs ih =>
    obtain ⟨-, -, others, hothers, rfl⟩ := cells_cons h
    simp [ih hothers]

/-- An element lies in the layer whose running sums enclose its number. -/
theorem getElem?_cells {rs : List (Region α)} {index : Nat} {offset : α} {cs : List (α × Nat)}
    (h : cells index offset rs = .ok cs) (e r : Nat) :
    (cs.map Prod.snd)[e]? = some (index + r) ↔
      r < rs.length ∧ cellsBefore rs r ≤ e ∧ e < cellsBefore rs (r + 1) := by
  induction rs generalizing index offset cs e r with
  | nil =>
    cases h
    simp
  | cons region rs ih =>
    obtain ⟨-, -, others, hcells, rfl⟩ := cells_cons h
    have hothers := ih hcells
    rw [List.map_append, List.map_map]
    rcases Nat.lt_or_ge e region.divisions with hlt | hge
    · rw [List.getElem?_append_left (by simpa using hlt)]
      simp only [List.getElem?_map, List.getElem?_range hlt, Option.map_some, Function.comp_apply,
        Option.some.injEq]
      cases r with
      | zero => simp [hlt]
      | succ r => simp; omega
    · rw [List.getElem?_append_right (by simpa using hge)]
      simp only [List.length_map, List.length_range]
      cases r with
      | zero =>
        -- the later layers have larger numbers
        have hlater : (others.map Prod.snd)[e - region.divisions]? ≠ some index := by
          intro hindex
          obtain ⟨c, hc, hregion⟩ := List.mem_map.1 (List.mem_of_getElem? hindex)
          have hrange := region_of_mem_cells hcells c hc
          omega
        rw [Nat.add_zero]
        refine iff_of_false hlater ?_
        rintro ⟨-, -, hlt⟩
        simp at hlt
        omega
      | succ r =>
        rw [← Nat.add_assoc, Nat.add_right_comm, hothers]
        simp
        omega

theorem getElem?_regions {rs : List (Region α)} {offset : α} {cs : List (α × Nat)}
    (h : cells 0 offset rs = .ok cs) (e r : Nat) :
    (cs.map Prod.snd)[e]? = some r ↔
      r < rs.length ∧ cellsBefore rs r ≤ e ∧ e < cellsBefore rs (r + 1) := by
  rw [← getElem?_cells h, Nat.zero_add]

end Sums

/-! ### What borders a node -/

/-- Of the regions of least priority among some, the first governs. -/
theorem governingRegion_splits (priority : Nat → Int) {rs : List Nat} (h : rs ≠ []) :
    ∃ before after, rs = before ++ governingRegion priority rs :: after ∧
      (∀ r ∈ before, priority (governingRegion priority rs) < priority r) ∧
      ∀ r ∈ after, priority (governingRegion priority rs) ≤ priority r := by
  cases rs with
  | nil => exact absurd rfl h
  | cons first rest =>
    clear h
    induction rest using List.reverseRecOn with
    | nil => exact ⟨[], [], rfl, by simp, by simp⟩
    | append_singleton rest r ih =>
      obtain ⟨before, after, hsplit, hbefore, hafter⟩ := ih
      have hstep : governingRegion priority (first :: (rest ++ [r])) =
          if priority r < priority (governingRegion priority (first :: rest)) then r
          else governingRegion priority (first :: rest) := by
        rw [governingRegion, List.foldl_append]
        rfl
      rw [hstep]
      split_ifs with hless
      · refine ⟨first :: rest, [], rfl, fun r' hr' => ?_, by simp⟩
        exact hless.trans_le ((governingRegion_spec priority (List.cons_ne_nil _ _)).2 r' hr')
      · refine ⟨before, after ++ [r], ?_, hbefore, ?_⟩
        · rw [← List.cons_append, congrArg (· ++ [r]) hsplit, List.append_assoc,
            List.cons_append]
        · intro r' hr'
          rcases List.mem_append.1 hr' with hr' | hr'
          · exact hafter r' hr'
          · rw [List.mem_singleton.1 hr']
            exact not_lt.1 hless

namespace Assignment

theorem mem_distinct {rs : List Nat} {r : Nat} : r ∈ distinct rs ↔ r ∈ rs := by
  induction rs using List.reverseRecOn with
  | nil => rfl
  | append_singleton rs last ih =>
    rw [distinct, List.foldl_append, List.foldl_cons, List.foldl_nil, ← distinct]
    split_ifs with hseen
    · rw [List.mem_append, List.mem_singleton, ih]
      refine ⟨.inl, ?_⟩
      rintro (hr | rfl)
      · exact hr
      · exact ih.1 hseen
    · rw [List.mem_append, List.mem_append, ih]

/-- Numbers that ascend are told apart in their order. -/
theorem pairwise_distinct {rs : List Nat} (h : rs.Pairwise (· ≤ ·)) :
    (distinct rs).Pairwise (· < ·) := by
  induction rs using List.reverseRecOn with
  | nil => exact .nil
  | append_singleton rs last ih =>
    obtain ⟨hrs, -, hlast⟩ := List.pairwise_append.1 h
    rw [distinct, List.foldl_append, List.foldl_cons, List.foldl_nil, ← distinct]
    split_ifs with hseen
    · exact ih hrs
    · refine List.pairwise_append.2 ⟨ih hrs, List.pairwise_singleton _ _, fun r hr l hl => ?_⟩
      rw [List.mem_singleton.1 hl]
      refine (hlast r (mem_distinct.1 hr) last List.mem_cons_self).lt_of_ne ?_
      rintro rfl
      exact hseen hr

theorem regions_ofBordering (rs : List Nat) : (ofBordering rs).regions = distinct rs := by
  rw [ofBordering]
  split
  · next hsingle => exact hsingle.symm
  · rfl

/-- A vertex inside a layer is told from one on an interface by the number of its regions. -/
theorem ofBordering_eq_core_iff (rs : List Nat) :
    (∃ r, ofBordering rs = .core r) ↔ (ofBordering rs).regions.length = 1 := by
  rw [regions_ofBordering, List.length_eq_one_iff, ofBordering]
  split
  · next region hsingle => exact ⟨fun _ => ⟨region, hsingle⟩, fun _ => ⟨region, rfl⟩⟩
  · next hseveral => exact ⟨nofun, fun ⟨region, hsingle⟩ => (hseveral region hsingle).elim⟩

end Assignment

/-! ### Generated meshes -/

section Generated

variable {α : Type} [Scalar α]

/-- What a mesh says of the layers that it was generated from. -/
structure FollowsLayers (mesh : LineMesh α) (rs : List (Region α)) : Prop where
  elements_size : mesh.topology.elements.size = (rs.map Region.divisions).sum
  nodes_size : mesh.topology.nodes.size = (rs.map Region.divisions).sum + 1
  vertices_length : mesh.vertices.length = (rs.map Region.divisions).sum + 1
  /-- An element joins the node of its number and the next. -/
  joins : ∀ (e : Nat) (element : Element α), mesh.topology.elements[e]? = some element →
    element.left = e ∧ element.right = e + 1
  /-- It lies in the layer whose running sums enclose its number. -/
  lies : ∀ (e : Nat) (element : Element α), mesh.topology.elements[e]? = some element → ∀ r,
    element.region = r ↔ r < rs.length ∧ cellsBefore rs r ≤ e ∧ e < cellsBefore rs (r + 1)
  /-- A node lists the elements that it is a node of, each once and ascending. -/
  lists : ∀ (n : Nat) (node : Node), mesh.topology.nodes[n]? = some node →
    node.elements.Pairwise (· < ·) ∧ ∀ e, e ∈ node.elements ↔
      ∃ element, mesh.topology.elements[e]? = some element ∧
        (n = element.left ∨ n = element.right)
  /-- A vertex is assigned the distinct regions of the elements that border it, from left to right,
  and is inside a region if there is only one. -/
  assigned : ∀ (n : Nat) (node : Node), mesh.topology.nodes[n]? = some node →
    ∃ (vertex : Vertex α) (bordering : List (Element α)), mesh.vertices[n]? = some vertex ∧
      mesh.topology.bordering? node = some bordering ∧
      vertex.assignment.regions.Pairwise (· < ·) ∧
      (∀ r, r ∈ vertex.assignment.regions ↔ r ∈ bordering.map Element.region) ∧
      ((∃ r, vertex.assignment = .core r) ↔ vertex.assignment.regions.length = 1)
  /-- Of the regions of these elements the first of least priority governs. -/
  governed : ∀ (n : Nat) (node : Node), mesh.topology.nodes[n]? = some node →
    ∃ (bordering : List (Element α)) (before after : List Nat) (region : Region α),
      mesh.topology.bordering? node = some bordering ∧
      bordering.map Element.region = before ++ node.region :: after ∧
      rs[node.region]? = some region ∧
      (∀ r ∈ before, ∃ other, rs[r]? = some other ∧ region.priority < other.priority) ∧
      ∀ r ∈ after, ∃ other, rs[r]? = some other ∧ region.priority ≤ other.priority

omit [Scalar α] in
/-- A node of a line borders the elements that it lists, in their regions. -/
theorem IsLine.bordering {mesh : Topology α} {regions : List Nat} {priority : Nat → Int}
    (h : IsLine mesh regions priority) {n : Nat} {node : Node} (hn : mesh.nodes[n]? = some node) :
    ∃ bordering, mesh.bordering? node = some bordering ∧ bordering.map Element.region =
      (neighbours regions.length n).filterMap fun e => regions[e]? := by
  obtain ⟨hle, helements, -⟩ := h.of_node hn
  have hmapM : ∀ es : List Nat, (∀ e ∈ es, e < regions.length) →
      ∃ bordering, es.mapM (fun e => mesh.elements[e]?) = some bordering ∧
        bordering.map Element.region = es.filterMap fun e => regions[e]? := by
    intro es hes
    induction es with
    | nil => exact ⟨[], rfl, rfl⟩
    | cons e es ih =>
      obtain ⟨hlt, hes⟩ := List.forall_mem_cons.1 hes
      obtain ⟨bordering, hbordering, hregions⟩ := ih hes
      obtain ⟨element, helement, -, -, hregion⟩ := h.element e hlt
      refine ⟨element :: bordering, ?_, ?_⟩
      · rw [List.mapM_cons, helement, hbordering]
        rfl
      · rw [List.map_cons, hregions, List.filterMap_cons, hregion]
  rw [Topology.bordering?, helements]
  exact hmapM _ fun e he => ((mem_neighbours hle).1 he).1

theorem pairwise_neighbours (count n : Nat) : (neighbours count n).Pairwise (· < ·) := by
  rw [neighbours]
  split_ifs with hpos hlt
  · simp [hpos]
  · simp
  · simp
  · simp

omit [Scalar α] in
/-- A node of a line lists the elements that it is a node of. -/
theorem IsLine.lists {mesh : Topology α} {regions : List Nat} {priority : Nat → Int}
    (h : IsLine mesh regions priority) {n : Nat} {node : Node} (hn : mesh.nodes[n]? = some node) :
    node.elements.Pairwise (· < ·) ∧ ∀ e, e ∈ node.elements ↔
      ∃ element, mesh.elements[e]? = some element ∧ (n = element.left ∨ n = element.right) := by
  obtain ⟨hle, helements, -⟩ := h.of_node hn
  rw [helements]
  refine ⟨pairwise_neighbours _ n, fun e => ?_⟩
  rw [mem_neighbours hle]
  constructor
  · rintro ⟨hlt, hbeside⟩
    obtain ⟨element, helement, hleft, hright, -⟩ := h.element e hlt
    refine ⟨element, helement, ?_⟩
    rw [hleft, hright]
    omega
  · rintro ⟨element, helement, hbeside⟩
    obtain ⟨hlt, hleft, hright, -⟩ := h.of_getElem? helement
    refine ⟨hlt, ?_⟩
    omega

omit [Scalar α] in
/-- Of the regions beside a node of a line the first of least priority governs. -/
theorem IsLine.governed {mesh : Topology α} {regions : List Nat} {priority : Nat → Int}
    (h : IsLine mesh regions priority) (hne : regions ≠ []) {n : Nat} {node : Node}
    (hn : mesh.nodes[n]? = some node) :
    ∃ bordering before after, mesh.bordering? node = some bordering ∧
      bordering.map Element.region = before ++ node.region :: after ∧
      (∀ r ∈ bordering.map Element.region, r ∈ regions) ∧
      (∀ r ∈ before, priority node.region < priority r) ∧
      ∀ r ∈ after, priority node.region ≤ priority r := by
  obtain ⟨hle, -, hgoverning⟩ := h.of_node hn
  obtain ⟨bordering, hbordering, hregions⟩ := h.bordering hn
  obtain ⟨before, after, hsplit, hbefore, hafter⟩ :=
    governingRegion_splits priority (beside_ne_nil hne hle)
  rw [← hgoverning] at hsplit hbefore hafter
  refine ⟨bordering, before, after, hbordering, hregions.trans hsplit, fun r hr => ?_, hbefore,
    hafter⟩
  rw [hregions] at hr
  obtain ⟨e, -, hr⟩ := List.mem_filterMap.1 hr
  exact List.mem_of_getElem? hr

/-- The regions of the cells ascend along the line. -/
theorem pairwise_regions {rs : List (Region α)} {offset : α} {cs : List (α × Nat)}
    (h : cells 0 offset rs = .ok cs) : (cs.map Prod.snd).Pairwise (· ≤ ·) := by
  rw [List.pairwise_iff_getElem]
  intro e e' he he' hlt
  obtain ⟨-, hstart, -⟩ := (getElem?_regions h e _).1 (List.getElem?_eq_getElem he)
  obtain ⟨-, -, hstop⟩ := (getElem?_regions h e' _).1 (List.getElem?_eq_getElem he')
  by_contra hgreater
  have hmono := cellsBefore_mono rs (Nat.lt_of_not_le hgreater)
  exact absurd (hmono.trans (hstart.trans hlt.le)) (not_le.2 hstop)

/-- So do those of the cells beside a node. -/
theorem pairwise_beside {rs : List (Region α)} {offset : α} {cs : List (α × Nat)}
    (h : cells 0 offset rs = .ok cs) (count n : Nat) :
    ((neighbours count n).filterMap fun e => (cs.map (·.2))[e]?).Pairwise (· ≤ ·) := by
  refine List.pairwise_filterMap.2 ((pairwise_neighbours _ n).imp ?_)
  intro e e' hlt r hr r' hr'
  obtain ⟨he, rfl⟩ := List.getElem?_eq_some_iff.1 hr
  obtain ⟨he', rfl⟩ := List.getElem?_eq_some_iff.1 hr'
  exact List.pairwise_iff_getElem.1 (pairwise_regions h) e e' he he' hlt

/-- The region of a cell is the number of a layer. -/
theorem exists_layer {rs : List (Region α)} {offset : α} {cs : List (α × Nat)}
    (h : cells 0 offset rs = .ok cs) {r : Nat} (hr : r ∈ cs.map (·.2)) :
    ∃ region, rs[r]? = some region ∧
      (rs.map Region.priority).toArray.getD r 0 = region.priority := by
  obtain ⟨e, he⟩ := List.mem_iff_getElem?.1 hr
  have hlt := ((getElem?_regions h e r).1 he).1
  exact ⟨rs[r], List.getElem?_eq_getElem hlt, by simp [hlt]⟩

/-- **Every generated mesh follows the layers** it was generated from: as many elements in each as
it has divisions, joined in a row, and at every node the regions beside it and the one of them that
governs. -/
theorem followsLayers_generate {rs : List (Region α)} {left : α} {mesh : LineMesh α}
    (h : LineMesh.generate rs left = .ok mesh) (lengthScale crossSection : α) :
    FollowsLayers { mesh with lengthScale, crossSection } rs := by
  obtain ⟨cs, hcs, hne, hline, hvertices, hassigned⟩ := generate_eq_ok h
  replace hline := hline lengthScale crossSection
  have hcount : (cs.map (·.2)).length = cs.length := List.length_map _
  constructor
  case elements_size => rw [hline.elements_size, hcount, length_cells hcs]
  case nodes_size => rw [hline.nodes_size, hcount, length_cells hcs]
  case vertices_length => exact hvertices.trans (congrArg (· + 1) (length_cells hcs))
  case joins =>
    intro e element he
    obtain ⟨-, hleft, hright, -⟩ := hline.of_getElem? he
    exact ⟨hleft, hright⟩
  case lies =>
    intro e element he r
    obtain ⟨-, -, -, hregion⟩ := hline.of_getElem? he
    rw [← getElem?_regions hcs, hregion, Option.some.injEq]
  case lists => exact fun n node hn => hline.lists hn
  case assigned =>
    intro n node hn
    obtain ⟨hle, -, -⟩ := hline.of_node hn
    obtain ⟨bordering, hbordering, hregions⟩ := hline.bordering hn
    rw [hcount] at hle hregions
    obtain ⟨vertex, hvertex, hassignment⟩ := Option.map_eq_some_iff.1 (hassigned n hle)
    refine ⟨vertex, bordering, hvertex, hbordering, ?_, ?_, ?_⟩
    · rw [hassignment, Assignment.regions_ofBordering]
      exact Assignment.pairwise_distinct (pairwise_beside hcs _ n)
    · intro r
      rw [hassignment, hregions, Assignment.regions_ofBordering, Assignment.mem_distinct]
    · rw [hassignment]
      exact Assignment.ofBordering_eq_core_iff _
  case governed =>
    intro n node hn
    obtain ⟨bordering, before, after, hbordering, hsplit, hmem, hbefore, hafter⟩ :=
      hline.governed (List.map_eq_nil_iff.not.2 hne) hn
    rw [hsplit] at hmem
    obtain ⟨region, hregion, hpriority⟩ := exists_layer hcs (hmem node.region (by simp))
    refine ⟨bordering, before, after, region, hbordering, hsplit, hregion, ?_, ?_⟩
    · intro r hr
      obtain ⟨other, hother, hpriority'⟩ := exists_layer hcs (hmem r (List.mem_append_left _ hr))
      have hless := hbefore r hr
      rw [hpriority, hpriority'] at hless
      exact ⟨other, hother, hless⟩
    · intro r hr
      obtain ⟨other, hother, hpriority'⟩ := exists_layer hcs (hmem r (by simp [hr]))
      have hle := hafter r hr
      rw [hpriority, hpriority'] at hle
      exact ⟨other, hother, hle⟩

/-- Three layers, of which the first two tie. -/
def tiedLayers : List (Region ℚ) :=
  [⟨1, 2, 5⟩, ⟨1, 1, 5⟩, ⟨2, 2, 0⟩]

theorem followsLayers_generate_tiedLayers :
    ∃ mesh, LineMesh.generate tiedLayers 0 = .ok mesh ∧
      FollowsLayers { mesh with lengthScale := 2, crossSection := 3 } tiedLayers := by
  have hlayers : ∀ r ∈ tiedLayers, r.divisions ≠ 0 ∧ ¬ r.thickness ≤ 0 := by decide
  obtain ⟨mesh, hmesh⟩ := exists_generate (List.cons_ne_nil _ _) hlayers 0
  exact ⟨mesh, hmesh, followsLayers_generate hmesh 2 3⟩

example : (LineMesh.generate tiedLayers 0).toOption.map LineMesh.governing =
    some [0, 0, 0, 2, 2, 2] := by
  decide

end Generated

end CarrierTransport.Mesh
