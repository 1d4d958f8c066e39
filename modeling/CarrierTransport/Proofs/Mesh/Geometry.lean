import Mathlib
import CarrierTransport.Proofs.Loop
import CarrierTransport.Proofs.Mesh.Layers

/-!
# The geometry of a line mesh

Over exact numbers a mesh is the ruler that its layers lay down: behind `k` elements of a layer the
line has gone `k` of its divisions beyond the layers before it (`getElem?_coordinates`). From this one
formula follow the ends of the line and the interfaces, the lengths of the elements and, added up
layer by layer, the lengths of the layers (`sum_lengths`). A stack that cannot be meshed is refused
for the first layer that is at fault (`cells_eq_error_iff`).
-/

namespace CarrierTransport.Mesh

open Finset (range)

variable {α : Type} [ExactScalar α] {rs : List (Region α)} {index : Nat} {offset left : α}
  {cs : List (α × Nat)}

/-! ### Layers at fault -/

/-- A layer that is divided and has a thickness. -/
def Region.Proper (region : Region α) : Prop :=
  1 ≤ region.divisions ∧ 0 < region.thickness

/-- Why a layer of a given number is refused: that it is not divided comes before that it is not
thick. -/
inductive Region.Fault (region : Region α) (r : Nat) : MeshError → Prop
  | noDivisions (h : region.divisions = 0) : Fault region r (.noDivisions r)
  | thickness (hdivisions : 1 ≤ region.divisions) (h : region.thickness ≤ 0) :
    Fault region r (.thickness r)

theorem Region.Fault.not_proper {region : Region α} {r : Nat} {e : MeshError}
    (h : region.Fault r e) : ¬ region.Proper := by
  rintro ⟨hdivisions, hthickness⟩
  cases h with
  | noDivisions h => omega
  | thickness _ h => exact absurd hthickness (not_lt.2 h)

theorem Region.Fault.unique {region : Region α} {r : Nat} {e e' : MeshError}
    (h : region.Fault r e) (h' : region.Fault r e') : e = e' := by
  cases h with
  | noDivisions h =>
    cases h' with
    | noDivisions _ => rfl
    | thickness hdivisions _ => omega
  | thickness hdivisions _ =>
    cases h' with
    | noDivisions h => omega
    | thickness _ _ => rfl

/-- A layer at fault is refused for that, whatever comes behind it. -/
theorem Region.Fault.error_eq_iff {region : Region α} {r : Nat} {e e' : MeshError} {β : Type}
    {rest : Prop} (h : region.Fault r e) :
    (.error e : Except MeshError β) = .error e' ↔ region.Fault r e' ∨ region.Proper ∧ rest := by
  rw [or_iff_left fun hrest => h.not_proper hrest.1, Except.error.injEq]
  exact ⟨fun he => he ▸ h, h.unique⟩

theorem cells_cons_eq_error_iff {region : Region α} {e : MeshError} :
    cells index offset (region :: rs) = .error e ↔ region.Fault index e ∨
      region.Proper ∧ cells (index + 1) (offset + region.thickness) rs = .error e := by
  rw [cells]
  split_ifs with hdivisions hthickness
  · exact (Region.Fault.noDivisions hdivisions).error_eq_iff
  · exact (Region.Fault.thickness (Nat.pos_of_ne_zero hdivisions) hthickness).error_eq_iff
  · have hproper : region.Proper := ⟨Nat.pos_of_ne_zero hdivisions, not_le.1 hthickness⟩
    have hfault : ¬ region.Fault index e := fun h => h.not_proper hproper
    rw [or_iff_right hfault, and_iff_right hproper]
    cases cells (index + 1) (offset + region.thickness) rs with
    | error e' => rfl
    | ok others => exact iff_of_false (fun h => by cases h) (fun h => by cases h)

/-- **A stack is refused for its first layer at fault.** -/
theorem cells_eq_error_iff {e : MeshError} :
    cells index offset rs = .error e ↔ ∃ r region, rs[r]? = some region ∧
      (∀ before ∈ rs.take r, before.Proper) ∧ region.Fault (index + r) e := by
  induction rs generalizing index offset with
  | nil => simp [cells]
  | cons first rs ih =>
    rw [cells_cons_eq_error_iff, ih, Loop.exists_first_cons_iff]
    simp only [Nat.add_zero, Nat.add_assoc, Nat.add_comm 1]

theorem proper_of_cells (h : cells index offset rs = .ok cs) : ∀ region ∈ rs, region.Proper := by
  induction rs generalizing index offset cs with
  | nil => simp
  | cons region rs ih =>
    obtain ⟨hdivisions, hthickness, others, hothers, -⟩ := cells_cons h
    exact List.forall_mem_cons.2
      ⟨⟨Nat.pos_of_ne_zero hdivisions, not_le.1 hthickness⟩, ih hothers⟩

/-! ### The ruler -/

/-- The thickness of the layers before layer `r`. -/
def thicknessBefore (rs : List (Region α)) (r : Nat) : α :=
  ((rs.take r).map Region.thickness).sum

@[simp]
theorem thicknessBefore_zero (rs : List (Region α)) : thicknessBefore rs 0 = 0 := rfl

@[simp]
theorem thicknessBefore_cons_succ (region : Region α) (rs : List (Region α)) (r : Nat) :
    thicknessBefore (region :: rs) (r + 1) = region.thickness + thicknessBefore rs r := by
  simp [thicknessBefore]

omit [ExactScalar α] in
theorem cellsBefore_succ {r : Nat} {region : Region α} (h : rs[r]? = some region) :
    cellsBefore rs (r + 1) = cellsBefore rs r + region.divisions := by
  simp [cellsBefore, List.take_add_one, h]

omit [ExactScalar α] in
theorem cellsBefore_length (rs : List (Region α)) :
    cellsBefore rs rs.length = (rs.map Region.divisions).sum := by
  rw [cellsBefore, List.take_length]

theorem thicknessBefore_succ {r : Nat} {region : Region α} (h : rs[r]? = some region) :
    thicknessBefore rs (r + 1) = thicknessBefore rs r + region.thickness := by
  simp [thicknessBefore, List.take_add_one, h]

theorem endOf_eq (offset thickness : α) (divisions k : Nat) :
    endOf offset thickness divisions k = offset + thickness * ((k + 1 : Nat) / divisions) := by
  rw [endOf, ExactScalar.count_eq, ExactScalar.count_eq]

/-- Behind a layer the line goes on from where the layer ends. -/
theorem getElem?_behind {divisions : Nat} (hdivisions : divisions ≠ 0) (thickness : α)
    (others : List (α × Nat)) (m : Nat) :
    (offset :: ((List.range divisions).map
        (fun k => (endOf offset thickness divisions k, index)) ++ others).map
          Prod.fst)[divisions + m]? =
      ((offset + thickness) :: others.map Prod.fst)[m]? := by
  cases m with
  | zero =>
    obtain ⟨d, rfl⟩ := Nat.exists_eq_succ_of_ne_zero hdivisions
    have hpos : ((d + 1 : Nat) : α) ≠ 0 := Nat.cast_ne_zero.2 d.succ_ne_zero
    have hend : endOf offset thickness (d + 1) d = offset + thickness := by
      rw [endOf_eq, div_self hpos, mul_one]
    simp [hend]
  | succ m =>
    rw [← Nat.add_assoc, List.getElem?_cons_succ, List.getElem?_cons_succ, List.map_append,
      List.getElem?_append_right (by simp)]
    simp

/-- **Behind `k` elements of a layer** the line has gone `k` of its divisions. -/
theorem getElem?_coordinates (h : cells index offset rs = .ok cs) {r : Nat} {region : Region α}
    (hr : rs[r]? = some region) {k : Nat} (hk : k ≤ region.divisions) :
    (offset :: cs.map Prod.fst)[cellsBefore rs r + k]? =
      some (offset + thicknessBefore rs r + region.thickness * (k / region.divisions)) := by
  induction rs generalizing index offset cs r with
  | nil => cases hr
  | cons first rs ih =>
    obtain ⟨hdivisions, -, others, hothers, rfl⟩ := cells_cons h
    cases r with
    | zero =>
      cases hr
      cases k with
      | zero => simp
      | succ k =>
        rw [cellsBefore_zero, Nat.zero_add, List.getElem?_cons_succ, List.map_append,
          List.getElem?_append_left (by simpa using hk)]
        simp [Nat.lt_of_succ_le hk, endOf_eq]
    | succ r =>
      rw [cellsBefore_cons_succ, Nat.add_assoc, getElem?_behind hdivisions, ih hothers hr,
        thicknessBefore_cons_succ, ← add_assoc]

/-! ### Elements -/

/-- The elements of a layer are equally long and fill it. -/
def EvenlyDivided (mesh : LineMesh α) (rs : List (Region α)) : Prop :=
  ∀ element ∈ mesh.topology.elements, ∃ region, rs[element.region]? = some region ∧
    element.length = mesh.lengthScale * region.thickness / region.divisions

theorem evenlyDivided_generate {mesh : LineMesh α} (h : LineMesh.generate rs left = .ok mesh)
    (lengthScale crossSection : α) : EvenlyDivided { mesh with lengthScale, crossSection } rs := by
  obtain ⟨cs, hcs, -, -, helements⟩ := generate_lengths h
  intro element helement
  obtain ⟨e, he⟩ := Array.mem_iff_getElem?.1 helement
  obtain ⟨start, stop, r, hstart, hstop, rfl⟩ := (helements _ _ _ _).1 he
  have hlayer : (cs.map Prod.snd)[e]? = some r := by rw [List.getElem?_map, hstop, Option.map_some]
  obtain ⟨hr, hle, hlt⟩ := (getElem?_regions hcs e r).1 hlayer
  have hregion := List.getElem?_eq_getElem hr
  rw [cellsBefore_succ hregion] at hlt
  obtain ⟨k, rfl⟩ := Nat.exists_eq_add_of_le hle
  have hk : k < rs[r].divisions := by omega
  have hstop' : (left :: cs.map Prod.fst)[cellsBefore rs r + (k + 1)]? = some stop := by
    rw [← Nat.add_assoc, List.getElem?_cons_succ, List.getElem?_map, hstop, Option.map_some]
  cases hstart.symm.trans (getElem?_coordinates hcs hregion hk.le)
  cases hstop'.symm.trans (getElem?_coordinates hcs hregion hk)
  refine ⟨rs[r], hregion, ?_⟩
  push_cast
  ring

section Sums

variable {mesh : LineMesh α} (hfollows : FollowsLayers mesh rs) (heven : EvenlyDivided mesh rs)

include hfollows

theorem exists_element_of_layer {r : Nat} {region : Region α} (hr : rs[r]? = some region) {k : Nat}
    (hk : k < region.divisions) : ∃ element,
      mesh.topology.elements[cellsBefore rs r + k]? = some element ∧ element.region = r := by
  have hlength : r < rs.length := (List.getElem?_eq_some_iff.1 hr).1
  have hstop : cellsBefore rs r + k < cellsBefore rs (r + 1) := by
    rw [cellsBefore_succ hr]
    omega
  have hall : cellsBefore rs (r + 1) ≤ mesh.topology.elements.size := by
    rw [hfollows.elements_size, ← cellsBefore_length]
    exact cellsBefore_mono rs hlength
  have he := Array.getElem?_eq_getElem (hstop.trans_le hall)
  exact ⟨_, he, (hfollows.lies _ _ he r).2 ⟨hlength, Nat.le_add_right _ _, hstop⟩⟩

include heven

/-- Up to a layer the elements are as long as the layers, whatever each layer counts for. -/
theorem sum_lengths_before (weight : Nat → α) {count : Nat} (hcount : count ≤ rs.length)
    (hproper : ∀ region ∈ rs, region.Proper) :
    ∑ e ∈ range (cellsBefore rs count), (mesh.topology.elements[e]?).elim 0
        (fun element => weight element.region * element.length) =
      mesh.lengthScale *
        ∑ r ∈ range count, weight r * (rs[r]?).elim 0 Region.thickness := by
  induction count with
  | zero => simp
  | succ r ih =>
    have hr := List.getElem?_eq_getElem hcount
    have hdivisions : ((rs[r].divisions : Nat) : α) ≠ 0 :=
      Nat.cast_ne_zero.2 (Nat.pos_iff_ne_zero.1 (hproper _ (List.getElem_mem hcount)).1)
    have hown : ∀ k ∈ range rs[r].divisions,
        (mesh.topology.elements[cellsBefore rs r + k]?).elim 0
          (fun element => weight element.region * element.length) =
        weight r * (mesh.lengthScale * rs[r].thickness / rs[r].divisions) := by
      intro k hk
      obtain ⟨element, helement, hregion⟩ :=
        exists_element_of_layer hfollows hr (Finset.mem_range.1 hk)
      obtain ⟨region, hlayer, hlength⟩ := heven element (Array.mem_of_getElem? helement)
      rw [hregion, hr] at hlayer
      cases hlayer
      rw [helement, Option.elim_some, hregion, hlength]
    rw [cellsBefore_succ hr, Finset.sum_range_add, ih (Nat.le_of_succ_le hcount),
      Finset.sum_congr rfl hown, Finset.sum_const, Finset.card_range, Finset.sum_range_succ, hr,
      Option.elim_some, nsmul_eq_mul]
    field_simp

/-- **The elements are as long as the layers**, whatever each layer counts for. -/
theorem sum_lengths (hproper : ∀ region ∈ rs, region.Proper) (weight : Nat → α) :
    (mesh.topology.elements.toList.map fun element =>
        weight element.region * element.length).sum =
      mesh.lengthScale *
        ∑ r ∈ range rs.length, weight r * (rs[r]?).elim 0 Region.thickness := by
  rw [← sum_lengths_before hfollows heven weight le_rfl hproper]
  refine Loop.sum_map_toList (hfollows.elements_size.trans (cellsBefore_length rs).symm) ?_
  intro e element he
  rw [he, Option.elim_some]

/-- The elements of a layer make up its thickness. -/
theorem sum_lengths_of_layer (hproper : ∀ region ∈ rs, region.Proper) {r : Nat}
    {region : Region α} (hr : rs[r]? = some region) :
    ((mesh.topology.elements.toList.filter fun element => element.region = r).map
      Element.length).sum = mesh.lengthScale * region.thickness := by
  have hlength : r < rs.length := (List.getElem?_eq_some_iff.1 hr).1
  have hweighted := sum_lengths hfollows heven hproper fun r' => if r' = r then 1 else 0
  simp only [ite_mul, one_mul, zero_mul, List.sum_map_ite, List.map_const', List.sum_replicate,
    smul_zero, add_zero, Finset.sum_ite_eq', Finset.mem_range, hlength, if_true, hr,
    Option.elim_some] at hweighted
  exact hweighted

end Sums

/-! ### Interfaces -/

/-- Two layers lie beside a node that follows on the last element of the one, if the other is next. -/
theorem beside_interface (h : cells 0 offset rs = .ok cs) {r : Nat} (hr : r + 1 < rs.length) :
    ((neighbours cs.length (cellsBefore rs (r + 1))).filterMap fun e => (cs.map (·.2))[e]?) =
      [r, r + 1] := by
  have hproper := proper_of_cells h
  have hown := List.getElem?_eq_getElem (Nat.lt_of_succ_lt hr)
  have hnext := List.getElem?_eq_getElem hr
  have hstart := cellsBefore_succ hown
  have hstop := cellsBefore_succ hnext
  have hpos := (hproper _ (List.getElem_mem (Nat.lt_of_succ_lt hr))).1
  have hpos' := (hproper _ (List.getElem_mem hr)).1
  have hleft : (cs.map Prod.snd)[cellsBefore rs (r + 1) - 1]? = some r :=
    (getElem?_regions h _ r).2 ⟨by omega, by omega, by omega⟩
  have hright : (cs.map Prod.snd)[cellsBefore rs (r + 1)]? = some (r + 1) :=
    (getElem?_regions h _ (r + 1)).2 ⟨hr, le_rfl, by omega⟩
  have hcount : cellsBefore rs (r + 1) < cs.length := by
    simpa using (List.getElem?_eq_some_iff.1 hright).1
  rw [neighbours, if_pos (by omega), if_pos hcount, List.singleton_append,
    List.filterMap_cons_some hleft, List.filterMap_cons_some hright, List.filterMap_nil]

/-- Nowhere else do two layers lie beside a node of which one follows the other. -/
theorem eq_of_beside (h : cells 0 offset rs = .ok cs) {r n : Nat} (hn : n ≤ cs.length)
    (hown : r ∈ (neighbours cs.length n).filterMap fun e => (cs.map (·.2))[e]?)
    (hnext : r + 1 ∈ (neighbours cs.length n).filterMap fun e => (cs.map (·.2))[e]?) :
    n = cellsBefore rs (r + 1) := by
  obtain ⟨e, he, hown⟩ := List.mem_filterMap.1 hown
  obtain ⟨e', he', hnext⟩ := List.mem_filterMap.1 hnext
  obtain ⟨-, -, hbefore⟩ := (getElem?_regions h e r).1 hown
  obtain ⟨-, hbehind, -⟩ := (getElem?_regions h e' (r + 1)).1 hnext
  have hside := ((mem_neighbours hn).1 he).2
  have hside' := ((mem_neighbours hn).1 he').2
  omega

theorem Assignment.distinct_pair (r : Nat) : Assignment.distinct [r, r + 1] = [r, r + 1] := by
  simp [Assignment.distinct]

/-! ### Generated meshes -/

theorem generate_eq_error_iff (hrs : rs ≠ []) {e : MeshError} :
    LineMesh.generate rs left = .error e ↔ cells 0 left rs = .error e := by
  rw [LineMesh.generate, if_neg (by simpa using hrs)]
  cases cells 0 left rs with
  | error e' => exact ⟨fun h => by cases h; rfl, fun h => by cases h; rfl⟩
  | ok cs => exact iff_of_false (fun h => by cases h) (fun h => by cases h)

/-- Where the vertices of a mesh lie and how long its elements are, for layers that are laid down
from a point on. -/
structure Measures (mesh : LineMesh α) (rs : List (Region α)) (left : α) : Prop where
  ascends : (mesh.vertices.map Vertex.coordinate).Pairwise (· < ·)
  first : (mesh.vertices.map Vertex.coordinate).head? = some left
  last : (mesh.vertices.map Vertex.coordinate).getLast? =
    some (left + (rs.map Region.thickness).sum)
  /-- Layers that follow each other share a vertex, where the first of them ends. -/
  shared : ∀ r, r + 1 < rs.length →
    (∃ vertex ∈ mesh.vertices, vertex.assignment = .boundary [r, r + 1]) ∧
      ∀ vertex ∈ mesh.vertices, vertex.assignment = .boundary [r, r + 1] →
        vertex.coordinate = left + thicknessBefore rs (r + 1)
  /-- An element is one of the equal parts of its layer, and so is its segment. -/
  divided : ∀ (e : Nat) (element : Element α), mesh.topology.elements[e]? = some element →
    ∃ segment region, mesh.segments[e]? = some segment ∧ segment.region = element.region ∧
      rs[element.region]? = some region ∧
      element.length = mesh.lengthScale * region.thickness / region.divisions ∧
      segment.diameter = region.thickness / region.divisions
  /-- These parts make up the layer. -/
  filled : ∀ r region, rs[r]? = some region →
    ((mesh.topology.elements.toList.filter fun element => element.region = r).map
      Element.length).sum = mesh.lengthScale * region.thickness

section Generated

variable {mesh : LineMesh α} (h : LineMesh.generate rs left = .ok mesh)

include h

theorem proper_of_generate : ∀ region ∈ rs, region.Proper := by
  obtain ⟨cs, hcs, -⟩ := generate_lengths h
  exact proper_of_cells hcs

theorem ascends_generate : (mesh.vertices.map Vertex.coordinate).Pairwise (· < ·) := by
  obtain ⟨cs, hcs, hcoordinates, -⟩ := generate_lengths h
  obtain ⟨hpairwise, hgreater⟩ := pairwise_cells hcs
  rw [hcoordinates]
  refine List.pairwise_cons.2 ⟨fun x hx => ?_, hpairwise⟩
  obtain ⟨c, hc, rfl⟩ := List.mem_map.1 hx
  exact hgreater c hc

/-- A layer ends where its thickness and those before it reach. -/
theorem coordinate_behind {r : Nat} (hr : r < rs.length) :
    (mesh.vertices.map Vertex.coordinate)[cellsBefore rs (r + 1)]? =
      some (left + thicknessBefore rs (r + 1)) := by
  obtain ⟨cs, hcs, hcoordinates, -⟩ := generate_lengths h
  have hregion := List.getElem?_eq_getElem hr
  have hdivisions : ((rs[r].divisions : Nat) : α) ≠ 0 := Nat.cast_ne_zero.2
    (Nat.pos_iff_ne_zero.1 (proper_of_cells hcs _ (List.getElem_mem hr)).1)
  rw [hcoordinates, cellsBefore_succ hregion, thicknessBefore_succ hregion,
    getElem?_coordinates hcs hregion le_rfl, div_self hdivisions, mul_one, add_assoc]

theorem getLast?_coordinates (hrs : rs ≠ []) :
    (mesh.vertices.map Vertex.coordinate).getLast? =
      some (left + (rs.map Region.thickness).sum) := by
  have hlength : (mesh.vertices.map Vertex.coordinate).length = cellsBefore rs rs.length + 1 := by
    rw [List.length_map, (followsLayers_generate h 1 1).vertices_length, cellsBefore_length]
  have hpos : rs.length - 1 + 1 = rs.length := Nat.sub_add_cancel (List.length_pos_iff.2 hrs)
  have hbehind := coordinate_behind h (Nat.sub_lt (List.length_pos_iff.2 hrs) Nat.one_pos)
  rw [hpos, thicknessBefore, List.take_length] at hbehind
  rw [List.getLast?_eq_getElem?, hlength, Nat.add_sub_cancel, hbehind]

/-- There is one vertex that two layers share, and it is where the first of them ends. -/
theorem shared_generate {r : Nat} (hr : r + 1 < rs.length) :
    (∃ vertex ∈ mesh.vertices, vertex.assignment = .boundary [r, r + 1]) ∧
      ∀ vertex ∈ mesh.vertices, vertex.assignment = .boundary [r, r + 1] →
        vertex.coordinate = left + thicknessBefore rs (r + 1) := by
  obtain ⟨cs, hcs, -, -, hvertices, hassigned⟩ := generate_eq_ok h
  have hbehind := coordinate_behind h (Nat.lt_of_succ_lt hr)
  rw [List.getElem?_map, Option.map_eq_some_iff] at hbehind
  obtain ⟨vertex, hvertex, hcoordinate⟩ := hbehind
  constructor
  · have hle : cellsBefore rs (r + 1) ≤ cs.length := by
      have hlt := (List.getElem?_eq_some_iff.1 hvertex).1
      omega
    have hassignment := hassigned _ hle
    rw [hvertex, beside_interface hcs hr] at hassignment
    refine ⟨vertex, List.mem_of_getElem? hvertex, ?_⟩
    rw [Option.some.inj hassignment, Assignment.ofBordering, Assignment.distinct_pair]
  · intro other hother hboundary
    obtain ⟨n, hn⟩ := List.mem_iff_getElem?.1 hother
    have hle : n ≤ cs.length := by
      have hlt := (List.getElem?_eq_some_iff.1 hn).1
      omega
    have hassignment := hassigned n hle
    rw [hn, Option.map_some, Option.some.injEq, hboundary] at hassignment
    have hregions := congrArg Assignment.regions hassignment
    rw [Assignment.regions_ofBordering] at hregions
    have hbeside : ∀ r' ∈ [r, r + 1], r' ∈ (neighbours cs.length n).filterMap
        fun e => (cs.map (·.2))[e]? := fun r' hr' =>
      Assignment.mem_distinct.1 (hregions ▸ hr')
    obtain rfl := eq_of_beside hcs hle (hbeside r (by simp)) (hbeside (r + 1) (by simp))
    cases hn.symm.trans hvertex
    exact hcoordinate

/-- At a length scale of one an element is as long as its segment. -/
theorem diameter_generate {e : Nat} {segment : Segment α} (he : mesh.segments[e]? = some segment) :
    ∃ region, rs[segment.region]? = some region ∧
      segment.diameter = region.thickness / region.divisions := by
  have helement : { mesh with lengthScale := 1 }.topology.elements[e]? = some
      ⟨segment.indices.1, segment.indices.2, (segment.ends.2 - segment.ends.1) * 1,
        mesh.crossSection, segment.region⟩ := by
    simp [LineMesh.topology, he]
  obtain ⟨region, hregion, hlength⟩ :=
    evenlyDivided_generate h 1 mesh.crossSection _ (Array.mem_of_getElem? helement)
  dsimp only at hregion hlength
  rw [mul_one, one_mul] at hlength
  have hthickness := (proper_of_generate h region (List.mem_of_getElem? hregion)).2
  refine ⟨region, hregion, ?_⟩
  rw [Segment.diameter, ExactScalar.abs_eq_abs, abs_sub_comm, hlength]
  exact abs_of_nonneg (div_nonneg hthickness.le (Nat.cast_nonneg _))

end Generated

/-- **Layers that are divided and have a thickness are meshed as they are laid down**, from any
point on and to any scale: the vertices ascend from that point to the end of the last layer, layers
share a vertex where the one ends, and every element is one of the equal parts of its layer. All
other stacks are refused for the first layer at fault. -/
theorem measures_generate (hrs : rs ≠ []) (left : α) :
    ((∃ mesh, LineMesh.generate rs left = .ok mesh) ↔ ∀ region ∈ rs, region.Proper) ∧
      (∀ e, LineMesh.generate rs left = .error e ↔ ∃ r region, rs[r]? = some region ∧
        (∀ before ∈ rs.take r, before.Proper) ∧ region.Fault r e) ∧
      ∀ mesh, LineMesh.generate rs left = .ok mesh → ∀ lengthScale crossSection,
        Measures { mesh with lengthScale, crossSection } rs left := by
  refine ⟨⟨fun ⟨mesh, h⟩ => proper_of_generate h, fun hproper => ?_⟩, fun e => ?_, ?_⟩
  · refine exists_generate hrs (fun region hregion => ?_) left
    obtain ⟨hdivisions, hthickness⟩ := hproper region hregion
    exact ⟨Nat.pos_iff_ne_zero.1 hdivisions, not_le.2 hthickness⟩
  · rw [generate_eq_error_iff hrs, cells_eq_error_iff]
    simp only [Nat.zero_add]
  · intro mesh h lengthScale crossSection
    have heven := evenlyDivided_generate h lengthScale crossSection
    constructor
    case ascends => exact (ascends_generate h :)
    case first =>
      obtain ⟨cs, -, hcoordinates, -⟩ := generate_lengths h
      exact congrArg List.head? hcoordinates
    case last => exact (getLast?_coordinates h hrs :)
    case shared => exact fun r hr => shared_generate h hr
    case divided =>
      intro e element he
      obtain ⟨region, hregion, hlength⟩ := heven element (Array.mem_of_getElem? he)
      simp only [LineMesh.topology, List.getElem?_toArray, List.getElem?_map,
        Option.map_eq_some_iff] at he
      obtain ⟨segment, hsegment, rfl⟩ := he
      obtain ⟨region', hregion', hdiameter⟩ := diameter_generate h hsegment
      cases hregion.symm.trans hregion'
      exact ⟨segment, region, hsegment, rfl, hregion, hlength, hdiameter⟩
    case filled =>
      intro r region hr
      exact sum_lengths_of_layer (followsLayers_generate h _ _) heven (proper_of_generate h) hr

/-- Two layers of different fineness. -/
def steppedLayers : List (Region ℚ) :=
  [⟨1, 2, 0⟩, ⟨3, 4, 1⟩]

theorem measures_generate_steppedLayers :
    ∃ mesh, LineMesh.generate steppedLayers (-1) = .ok mesh ∧
      Measures { mesh with lengthScale := 2, crossSection := 3 } steppedLayers (-1) := by
  obtain ⟨haccepted, -, hmeasures⟩ := measures_generate (List.cons_ne_nil _ _ : steppedLayers ≠ [])
    (-1)
  have hproper : ∀ region ∈ steppedLayers, region.Proper := by
    unfold Region.Proper
    decide
  obtain ⟨mesh, hmesh⟩ := haccepted.2 hproper
  exact ⟨mesh, hmesh, hmeasures mesh hmesh 2 3⟩

end CarrierTransport.Mesh
