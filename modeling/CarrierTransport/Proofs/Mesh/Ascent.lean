import Mathlib
import CarrierTransport.Proofs.Mesh.Line
import CarrierTransport.Proofs.Scalar.Monotone

/-!
# Where the vertices of a mesh ascend

The vertices of a mesh are running sums of rounded products, and a layer is only asked that its
thickness is not at most zero. So over floating-point numbers an accepted mesh need not ascend: a
thickness that is not a number is accepted too, and a thin part may be lost beside a large
coordinate. Nothing else goes wrong (`generate_ascends_iff`). As rounding is monotone, no vertex
falls behind an earlier one (`follows_cells`); the vertices are numbers if the thicknesses are
(`isNumber_cells`); and vertices that differ are a positive length apart (`ascends_iff_lengths`).
-/

namespace CarrierTransport.Mesh

open BinaryScalar (format place IsFinite)
open Rounding (limit)
open IeeeScalar (IsNumber)
open RoundedScalar

variable {α : Type} [RoundedScalar α] {rs : List (Region α)} {left : α}

/-- A later coordinate, if it is a number, does not lie below an earlier one. -/
def Follows (x y : α) : Prop :=
  IsNumber y → x ≤ y

theorem Follows.trans {x y z : α} (hxy : Follows x y) (hyz : Follows y z) : Follows x z := by
  intro hz
  have hle := hyz hz
  exact IeeeScalar.le_trans (hxy (isNumber_of_le hle).1) hle

/-! ### The ends of the elements of a layer -/

section Ends

variable {offset thickness : α} {d k l : ℕ}

/-- A thickness that is accepted is positive, or not a number. -/
theorem pos_of_isNumber (h : ¬ thickness ≤ 0) (hnumber : IsNumber thickness) : 0 < thickness := by
  obtain ⟨x, hx⟩ := (isNumber_iff_place thickness).1 hnumber
  rw [le_iff_place hx place_zero, not_le] at h
  exact (lt_iff_place place_zero hx).2 h

theorem isNumber_of_endOf (h : IsNumber (endOf offset thickness d k)) :
    IsNumber offset ∧ IsNumber thickness := by
  obtain ⟨hoffset, hpart⟩ := isNumber_of_add h
  exact ⟨hoffset, (isNumber_of_mul hpart).1⟩

section Part

variable (hpos : 0 < thickness) (hk : k < d) (hd : d < 2 ^ 64)

include hpos hk hd

theorem part_nonneg : 0 ≤ thickness * (Scalar.count (k + 1) / Scalar.count d) :=
  mul_nonneg_of_pos hpos (isFinite_fraction k.succ_pos hk hd) (place_fraction k.succ_pos hk hd)
    (fractionPlace_pos k.succ_pos hk)

theorem part_le : thickness * (Scalar.count (k + 1) / Scalar.count d) ≤ thickness :=
  mul_le_of_le_one hpos (isFinite_fraction k.succ_pos hk hd) (place_fraction k.succ_pos hk hd)
    (fractionPlace_pos k.succ_pos hk) (fractionPlace_le_one k.succ_pos hk)

omit hk in
theorem part_mono (hkl : k ≤ l) (hl : l < d) :
    thickness * (Scalar.count (k + 1) / Scalar.count d) ≤
      thickness * (Scalar.count (l + 1) / Scalar.count d) := by
  have hk := hkl.trans_lt hl
  exact mul_le_mul_left hpos (isFinite_fraction k.succ_pos hk hd)
    (isFinite_fraction l.succ_pos hl hd) (place_fraction k.succ_pos hk hd)
    (place_fraction l.succ_pos hl hd) (fractionPlace_pos k.succ_pos hk)
    (fractionPlace_mono (k.zero_le.trans_lt hk) (Nat.succ_le_succ hkl))

end Part

section Layer

variable (h : ¬ thickness ≤ 0)

include h

theorem follows_endOf_left (hk : k < d) (hd : d < 2 ^ 64) :
    Follows offset (endOf offset thickness d k) := by
  intro hnumber
  have hpos := pos_of_isNumber h (isNumber_of_endOf hnumber).2
  exact le_add (part_nonneg hpos hk hd) hnumber

theorem follows_endOf (hkl : k ≤ l) (hl : l < d) (hd : d < 2 ^ 64) :
    Follows (endOf offset thickness d k) (endOf offset thickness d l) := by
  intro hnumber
  have hpos := pos_of_isNumber h (isNumber_of_endOf hnumber).2
  exact add_le_add (part_nonneg hpos (hkl.trans_lt hl) hd) (part_mono hpos hd hkl hl) hnumber

theorem follows_endOf_right (hk : k < d) (hd : d < 2 ^ 64) :
    Follows (endOf offset thickness d k) (offset + thickness) := by
  intro hnumber
  have hpos := pos_of_isNumber h (isNumber_of_add hnumber).2
  exact add_le_add (part_nonneg hpos hk hd) (part_le hpos hk hd) hnumber

theorem follows_offset : Follows offset (offset + thickness) := by
  intro hnumber
  have hpos := pos_of_isNumber h (isNumber_of_add hnumber).2
  exact le_add (IeeeScalar.le_of_lt hpos) hnumber

end Layer

end Ends

/-! ### The cells of a stack -/

/-- **No coordinate falls behind an earlier one.** -/
theorem follows_cells {index : Nat} {offset : α} {cs : List (α × Nat)}
    (h : cells index offset rs = .ok cs) (hd : ∀ r ∈ rs, r.divisions < 2 ^ 64) :
    (offset :: cs.map Prod.fst).Pairwise Follows := by
  induction rs generalizing index offset cs with
  | nil =>
    cases h
    exact List.pairwise_singleton _ _
  | cons region rs ih =>
    obtain ⟨-, hthickness, others, hothers, rfl⟩ := cells_cons h
    obtain ⟨hown, hd⟩ := List.forall_mem_cons.1 hd
    obtain ⟨hbehind, hlater⟩ := List.pairwise_cons.1 (ih hothers hd)
    rw [List.map_append, List.map_map, List.pairwise_cons, List.pairwise_append]
    refine ⟨fun x hx => ?_, ?_, hlater, fun x hx y hy => ?_⟩
    · rcases List.mem_append.1 hx with hx | hx
      · obtain ⟨k, hk, rfl⟩ := List.mem_map.1 hx
        exact follows_endOf_left hthickness (List.mem_range.1 hk) hown
      · exact (follows_offset hthickness).trans (hbehind x hx)
    · rw [List.pairwise_map]
      refine List.pairwise_lt_range.imp_of_mem fun {k l} _ hl hlt => ?_
      exact follows_endOf hthickness hlt.le (List.mem_range.1 hl) hown
    · obtain ⟨k, hk, rfl⟩ := List.mem_map.1 hx
      exact (follows_endOf_right hthickness (List.mem_range.1 hk) hown).trans (hbehind y hy)

/-- A number that is not the least of all. -/
def AboveBottom (x : α) : Prop :=
  ∃ p, place x = some p ∧ -limit (format α) < p

theorem AboveBottom.add {x y : α} (hx : AboveBottom x) (hy : 0 ≤ y) : AboveBottom (x + y) := by
  obtain ⟨p, hp, hlt⟩ := hx
  have hnumber := isNumber_add hp hlt hy
  obtain ⟨q, hq⟩ := (isNumber_iff_place _).1 hnumber
  exact ⟨q, hq, hlt.trans_le ((le_iff_place hp hq).1 (le_add hy hnumber))⟩

theorem isNumber_cells {index : Nat} {offset : α} {cs : List (α × Nat)}
    (h : cells index offset rs = .ok cs) (hd : ∀ r ∈ rs, r.divisions < 2 ^ 64)
    (hpos : ∀ r ∈ rs, 0 < r.thickness) (hoffset : AboveBottom offset) :
    ∀ x ∈ cs.map Prod.fst, IsNumber x := by
  induction rs generalizing index offset cs with
  | nil =>
    cases h
    simp
  | cons region rs ih =>
    obtain ⟨-, -, others, hothers, rfl⟩ := cells_cons h
    obtain ⟨hown, hd⟩ := List.forall_mem_cons.1 hd
    obtain ⟨hthickness, hpos⟩ := List.forall_mem_cons.1 hpos
    rw [List.map_append, List.map_map, List.forall_mem_append]
    constructor
    · intro x hx
      obtain ⟨k, hk, rfl⟩ := List.mem_map.1 hx
      obtain ⟨p, hp, hlt⟩ := hoffset
      exact isNumber_add hp hlt (part_nonneg hthickness (List.mem_range.1 hk) hown)
    · exact ih hothers hd hpos (hoffset.add (IeeeScalar.le_of_lt hthickness))

theorem pos_of_isNumber_cells {index : Nat} {offset : α} {cs : List (α × Nat)}
    (h : cells index offset rs = .ok cs) (hnumbers : ∀ x ∈ cs.map Prod.fst, IsNumber x) :
    ∀ r ∈ rs, 0 < r.thickness := by
  induction rs generalizing index offset cs with
  | nil => simp
  | cons region rs ih =>
    obtain ⟨hdivisions, hthickness, others, hothers, rfl⟩ := cells_cons h
    rw [List.map_append, List.map_map, List.forall_mem_append] at hnumbers
    obtain ⟨hown, hlater⟩ := hnumbers
    refine List.forall_mem_cons.2 ⟨?_, ih hothers hlater⟩
    have hfirst := hown _ (List.mem_map.2
      ⟨0, List.mem_range.2 (Nat.pos_of_ne_zero hdivisions), rfl⟩)
    exact pos_of_isNumber hthickness (isNumber_of_endOf hfirst).2

/-! ### Generated meshes -/

theorem ne_nil_of_generate {mesh : LineMesh α} (h : LineMesh.generate rs left = .ok mesh) :
    rs ≠ [] := by
  rintro rfl
  cases h

/-- The coordinates of the vertices from left to right. -/
def LineMesh.coordinates (mesh : LineMesh α) : List α :=
  mesh.vertices.map Vertex.coordinate

theorem ascends_iff_lengths {mesh : LineMesh α} (h : LineMesh.generate rs left = .ok mesh) :
    mesh.coordinates.Pairwise (· < ·) ↔
      ∀ element ∈ mesh.topology.elements, 0 < element.length := by
  obtain ⟨cs, -, hcoordinates, hscale, helements⟩ := generate_lengths h
  replace helements := helements mesh.lengthScale mesh.crossSection
  rw [LineMesh.coordinates, hcoordinates, ← List.isChain_iff_pairwise, List.isChain_iff_getElem]
  constructor
  · intro hchain element helement
    obtain ⟨e, he⟩ := Array.mem_iff_getElem?.1 helement
    obtain ⟨start, stop, region, hstart, hstop, rfl⟩ := (helements e element).1 he
    obtain ⟨hlt, rfl⟩ := List.getElem?_eq_some_iff.1 hstart
    obtain ⟨hlt', hvalue⟩ := List.getElem?_eq_some_iff.1 hstop
    have hless := hchain e (by simpa using hlt')
    rw [List.getElem_cons_succ, List.getElem_map, hvalue] at hless
    rw [hscale, mul_one_pos_iff, sub_pos_iff]
    exact hless
  · intro hlengths e he
    have hlt : e < cs.length := by simpa using he
    have hmem : (⟨e, e + 1, (cs[e].1 - (left :: cs.map Prod.fst)[e]) * mesh.lengthScale,
        mesh.crossSection, cs[e].2⟩ : Element α) ∈ mesh.topology.elements :=
      Array.mem_of_getElem? ((helements e _).2 ⟨_, _, _, List.getElem?_eq_getElem _,
        List.getElem?_eq_getElem hlt, rfl⟩)
    have hlength := hlengths _ hmem
    rw [hscale, mul_one_pos_iff, sub_pos_iff] at hlength
    rwa [List.getElem_cons_succ, List.getElem_map]

/-- Vertices ascend from a finite one only. -/
theorem isFinite_of_ascends {cs : List (α × Nat)} (h : cells 0 left rs = .ok cs)
    (hrs : rs ≠ []) (hascends : (left :: cs.map Prod.fst).Pairwise (· < ·)) : IsFinite left := by
  obtain ⟨region, rest, rfl⟩ := List.exists_cons_of_ne_nil hrs
  obtain ⟨hdivisions, -, others, -, rfl⟩ := cells_cons h
  have hfirst : left < endOf left region.thickness region.divisions 0 := by
    refine (List.pairwise_cons.1 hascends).1 _ ?_
    rw [List.map_append, List.map_map]
    exact List.mem_append_left _ (List.mem_map.2
      ⟨0, List.mem_range.2 (Nat.pos_of_ne_zero hdivisions), rfl⟩)
  obtain ⟨p, -, hp, -⟩ := exists_place_of_le (IeeeScalar.le_of_lt hfirst)
  rcases isFinite_or_infinity hp with ⟨hfinite, -⟩ | ⟨htop, -⟩ | ⟨hbottom, -⟩
  · exact hfinite
  · exact absurd hfirst (not_infinity_lt_add htop _)
  · exact absurd hfirst (not_infinity_lt_add hbottom _)

/-- **An accepted mesh ascends, and none of its elements is empty, just if** it starts at a finite
number, every thickness is a number, and no two vertices that follow each other coincide. A vertex
that is a number never falls behind an earlier one. -/
theorem generate_ascends_iff {mesh : LineMesh α} (h : LineMesh.generate rs left = .ok mesh)
    (hd : ∀ r ∈ rs, r.divisions < 2 ^ 64) :
    (mesh.coordinates.Pairwise (· < ·) ↔ ∀ element ∈ mesh.topology.elements, 0 < element.length) ∧
      (mesh.coordinates.Pairwise fun x y => IsNumber y → x ≤ y) ∧
      (IsFinite left →
        ((∀ x ∈ mesh.coordinates, IsNumber x) ↔ ∀ r ∈ rs, 0 < r.thickness)) ∧
      (mesh.coordinates.Pairwise (· < ·) ↔ IsFinite left ∧ (∀ r ∈ rs, 0 < r.thickness) ∧
        mesh.coordinates.IsChain fun x y => (x == y) = false) := by
  obtain ⟨cs, hcs, hcoordinates, -, -⟩ := generate_lengths h
  have hfollows := follows_cells hcs hd
  have hnumbers : IsFinite left →
      ((∀ x ∈ left :: cs.map Prod.fst, IsNumber x) ↔ ∀ r ∈ rs, 0 < r.thickness) := by
    intro hleft
    have hnumber := isNumber_of_isFinite hleft
    obtain ⟨p, hp⟩ := (isNumber_iff_place left).1 hnumber
    constructor
    · intro hnumbers
      exact pos_of_isNumber_cells hcs (List.forall_mem_cons.1 hnumbers).2
    · intro hpos
      have hbottom : AboveBottom left := ⟨p, hp, (abs_lt.1 (abs_place_lt hleft hp)).1⟩
      exact List.forall_mem_cons.2 ⟨hnumber, isNumber_cells hcs hd hpos hbottom⟩
  refine ⟨ascends_iff_lengths h, ?_⟩
  rw [LineMesh.coordinates, hcoordinates]
  refine ⟨hfollows, hnumbers, ?_⟩
  constructor
  · intro hascends
    have hleft := isFinite_of_ascends hcs (ne_nil_of_generate h) hascends
    refine ⟨hleft, (hnumbers hleft).1 (List.forall_mem_cons.2 ⟨?_, fun x hx => ?_⟩), ?_⟩
    · exact isNumber_of_isFinite hleft
    · have hless := (List.pairwise_cons.1 hascends).1 x hx
      exact (isNumber_of_le (IeeeScalar.le_of_lt hless)).2
    · exact hascends.isChain.imp fun x y hless => ((lt_iff_le_and_not_beq x y).1 hless).2
  · rintro ⟨hleft, hpos, hdistinct⟩
    rw [← List.isChain_iff_pairwise, List.isChain_iff_getElem]
    intro e he
    have hle := List.pairwise_iff_getElem.1 hfollows e (e + 1) (by omega) he e.lt_succ_self
      ((hnumbers hleft).2 hpos _ (List.getElem_mem he))
    exact (lt_iff_le_and_not_beq _ _).2 ⟨hle, List.isChain_iff_getElem.1 hdistinct e he⟩

/-- Two layers, the second of which has no thickness that is a number. -/
def unmeasured : List (Region Float) :=
  [⟨1, 2, 0⟩, ⟨0 / 0, 1, 0⟩]

theorem generate_ascends_iff_unmeasured :
    ∃ mesh, LineMesh.generate unmeasured 0 = .ok mesh ∧ ¬ mesh.coordinates.Pairwise (· < ·) ∧
      ∃ element ∈ mesh.topology.elements, ¬ 0 < element.length := by
  have hlayers : ∀ r ∈ unmeasured, r.divisions ≠ 0 ∧ ¬ r.thickness ≤ 0 := by decide +kernel
  obtain ⟨mesh, hmesh⟩ := exists_generate (List.cons_ne_nil _ _) hlayers 0
  obtain ⟨hlengths, -, -, hascends⟩ := generate_ascends_iff hmesh (by decide)
  have hnot : ¬ mesh.coordinates.Pairwise (· < ·) := by
    intro h
    have hpos := (hascends.1 h).2.1 ⟨0 / 0, 1, 0⟩ (by simp)
    exact absurd hpos (by decide +kernel)
  refine ⟨mesh, hmesh, hnot, ?_⟩
  rw [hlengths] at hnot
  simp only [not_forall, exists_prop] at hnot
  exact hnot

end CarrierTransport.Mesh
