import Mathlib
import CarrierTransport.Proofs.Mesh.Line
import CarrierTransport.Proofs.Newton.Sound

/-!
# Problems on a line

On a line every number in the mesh names something, so a problem is closed as soon as every region
has a material (`Problem.closed_of_isLine`), and sound if besides the nodes at semiconductor elements
are governed by semiconductors (`Problem.sound_of_isLine`). The latter holds where the material of
least priority governs a node and semiconductors have less of it than insulators
(`Problem.governs_of_priority`).
-/

namespace CarrierTransport.Newton

open Mesh (IsLine)
open Physics (MaterialKind)

namespace Problem

variable {M α : Type} [MaterialKind M] {p : Problem M α} {regions : List Nat}
  {priority : Nat → Int}

omit [MaterialKind M] in
/-- The element is at a side of the node. -/
theorem mem_neighbours_of_borders (h : IsLine p.mesh regions priority) {node : Nat}
    (hnode : node < p.nodeCount) {element : Mesh.Element α} (hborders : p.Borders node element) :
    ∃ e ∈ Mesh.neighbours regions.length node, regions[e]? = some element.region := by
  have hle : node ≤ regions.length := by
    have hsize := h.nodes_size
    rw [nodeCount, hsize] at hnode
    omega
  obtain ⟨e, he, hborders⟩ := hborders
  obtain ⟨hlt, hleft, hright, hregion⟩ := h.of_getElem? he
  refine ⟨e, ?_, hregion⟩
  rcases hborders with hends | ⟨n, hn, he⟩
  · rw [Mesh.mem_neighbours hle]
    omega
  · rwa [← (h.of_node hn).2.1]

omit [MaterialKind M] in
/-- A problem on a line is closed if every region has a material. -/
theorem closed_of_isLine (h : IsLine p.mesh regions priority) (hregions : regions ≠ [])
    (hmaterial : ∀ r ∈ regions, ∃ m, p.table.material? r = some m) : p.Closed := by
  have hpos := List.length_pos_iff.2 hregions
  have hcount : p.nodeCount = regions.length + 1 := h.nodes_size
  have hof : ∀ element ∈ p.mesh.elements, ∃ e < regions.length, element.left = e ∧
      element.right = e + 1 ∧ regions[e]? = some element.region := by
    intro element helement
    obtain ⟨e, he⟩ := Array.mem_iff_getElem?.1 helement
    exact ⟨e, h.of_getElem? he⟩
  constructor
  case two_le => omega
  case ends =>
    intro element helement
    obtain ⟨e, hlt, hleft, hright, -⟩ := hof element helement
    omega
  case material =>
    intro element helement
    obtain ⟨e, -, -, -, hregion⟩ := hof element helement
    exact hmaterial _ (List.mem_of_getElem? hregion)
  case governing =>
    intro node hnode
    obtain ⟨n, hn, -⟩ := p.exists_node hnode
    obtain ⟨⟨e, -, hregion⟩, -⟩ := h.governing hregions hn
    obtain ⟨m, hm⟩ := hmaterial _ (List.mem_of_getElem? hregion)
    exact ⟨m, by rw [governing?, hn]; exact hm⟩
  case listed =>
    intro n hn e he
    obtain ⟨i, hi⟩ := Array.mem_iff_getElem?.1 hn
    obtain ⟨hle, helements, -⟩ := h.of_node hi
    rw [helements, Mesh.mem_neighbours hle] at he
    rw [h.elements_size]
    exact he.1

/-- It is sound if besides nodes at semiconductor elements are governed by semiconductors. -/
theorem sound_of_isLine (h : IsLine p.mesh regions priority) (hregions : regions ≠ [])
    (hmaterial : ∀ r ∈ regions, ∃ m, p.table.material? r = some m)
    (hgoverns : ∀ node < p.nodeCount, ∀ element, p.Borders node element →
      p.HoldsCarriers element → p.Governs node) : p.Sound :=
  { closed_of_isLine h hregions hmaterial with governs := hgoverns }

/-- Where a line is governed by priority and semiconductors have less of it than insulators, nodes
at semiconductor elements are governed by semiconductors. -/
theorem governs_of_priority (h : IsLine p.mesh regions priority) (hregions : regions ≠ [])
    (hpriority : ∀ r m, p.table.material? r = some m → priority r = MaterialKind.priority m)
    (hmaterial : ∀ r ∈ regions, ∃ m, p.table.material? r = some m)
    (hless : ∀ m m' : M, MaterialKind.isSemiconductor m = true →
      MaterialKind.isSemiconductor m' = false → MaterialKind.priority m < MaterialKind.priority m')
    {node : Nat} (hnode : node < p.nodeCount) {element : Mesh.Element α}
    (hborders : p.Borders node element) (hcarriers : p.HoldsCarriers element) :
    p.Governs node := by
  obtain ⟨m, hm, hsemiconductor⟩ := hcarriers
  obtain ⟨e, he, hregion⟩ := mem_neighbours_of_borders h hnode hborders
  obtain ⟨n, hn, -⟩ := p.exists_node hnode
  obtain ⟨⟨e', -, hgoverning⟩, hmin⟩ := h.governing hregions hn
  obtain ⟨m', hm'⟩ := hmaterial _ (List.mem_of_getElem? hgoverning)
  rw [(h.of_node hn).2.1] at hmin
  have hle := hmin e he _ hregion
  rw [hpriority _ m hm, hpriority _ m' hm'] at hle
  refine ⟨m', by rw [governing?, hn]; exact hm', ?_⟩
  by_contra hinsulator
  have hlt := hless m m' hsemiconductor (Bool.not_eq_true _ ▸ hinsulator)
  omega

end Problem

end CarrierTransport.Newton
