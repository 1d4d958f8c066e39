import Mathlib
import CarrierTransport.Device.Regions
import CarrierTransport.Proofs.Newton.History
import CarrierTransport.Proofs.Newton.Line
import CarrierTransport.Proofs.State.Equilibrium

/-!
# Devices that were accepted

A device is accepted if its table of regions and its mesh can be built. The mesh is then a line in
the regions of the layers, and the layer that governs a node has the least priority of those around
it. As every semiconductor has less priority than every insulator, a node at a semiconductor is
governed by one, so the problem on the device is sound whatever its numbers are
(`Device.sound`). From there on nothing fails but the numerics (`Device.never_fails_structurally`).
-/

namespace CarrierTransport

open Mesh (LineMesh)
open Newton (Problem Settings)
open Physics (Material MaterialKind)
open State (NodeField)

/-! ### Devices -/

namespace Device

variable {α : Type} {d : Device α} {table : RegionTable Material α}

/-- The table of a device lists its layers. -/
theorem material?_regionTable (h : d.regionTable = .ok table) (r : Nat) :
    table.material? r = (d.layers[r]?).map Layer.material := by
  rw [regionTable, RegionTable.ofLayers] at h
  split_ifs at h
  cases h
  rw [RegionTable.material?, List.getElem?_toArray]
  simp only [List.zip_map', List.map_map, List.getElem?_map, Option.map_map]
  rfl

theorem temperature_regionTable (h : d.regionTable = .ok table) :
    table.temperature = d.temperature := by
  rw [regionTable, RegionTable.ofLayers] at h
  split_ifs at h
  cases h
  rfl

theorem exists_regionTable (h : d.layers ≠ []) : ∃ table, d.regionTable = .ok table := by
  rw [regionTable, RegionTable.ofLayers, if_neg (by simpa using h), if_neg (by simp),
    if_neg (by simp)]
  exact ⟨_, rfl⟩

/-- Silicon has less priority than its oxide. -/
theorem priority_lt {m m' : Material} (h : MaterialKind.isSemiconductor m = true)
    (h' : MaterialKind.isSemiconductor m' = false) :
    MaterialKind.priority m < MaterialKind.priority m' := by
  cases m with
  | silicon =>
    cases m' with
    | silicon => cases h'
    | siliconDioxide => decide
  | siliconDioxide => cases h

variable [Scalar α] {lengthScale crossSection : α} {mesh : LineMesh α}

/-- A device of layers that are divided and have a thickness is accepted. -/
theorem exists_mesh (hlayers : d.layers ≠ [])
    (h : ∀ layer ∈ d.layers, layer.divisions ≠ 0 ∧ ¬ layer.thickness ≤ 0)
    (lengthScale crossSection : α) : ∃ mesh, d.mesh lengthScale crossSection = .ok mesh := by
  have hregions : d.regions ≠ [] := by simpa [regions] using hlayers
  have hregion : ∀ r ∈ d.regions, r.divisions ≠ 0 ∧ ¬ r.thickness ≤ 0 := by
    intro r hr
    obtain ⟨layer, hlayer, rfl⟩ := List.mem_map.1 hr
    exact h layer hlayer
  obtain ⟨line, hline⟩ := Mesh.exists_generate hregions hregion 0
  rw [Device.mesh, if_neg (by simpa using hlayers), hline]
  exact ⟨_, rfl⟩

theorem of_mesh (hmesh : d.mesh lengthScale crossSection = .ok mesh) :
    ∃ line, LineMesh.generate d.regions 0 = .ok line ∧
      mesh = { line with lengthScale, crossSection } := by
  rw [Device.mesh] at hmesh
  split_ifs at hmesh
  split at hmesh
  · next line hline =>
    cases hmesh
    exact ⟨line, hline, rfl⟩
  · cases hmesh

/-- The elements of an accepted device have a length and an area. -/
theorem geometry {α : Type} [ExactScalar α] {d : Device α} {lengthScale crossSection : α}
    {mesh : LineMesh α} (hmesh : d.mesh lengthScale crossSection = .ok mesh)
    (hlengthScale : 0 < lengthScale) (hcrossSection : 0 < crossSection) :
    ∀ element ∈ mesh.topology.elements, 0 < element.length ∧ 0 < element.area := by
  obtain ⟨line, hline, rfl⟩ := of_mesh hmesh
  exact Mesh.element_pos_generate hline hlengthScale hcrossSection

/-- The problem on an accepted device is sound. -/
theorem sound (htable : d.regionTable = .ok table)
    (hmesh : d.mesh lengthScale crossSection = .ok mesh) (settings : Settings α) :
    (⟨mesh.topology, table, settings⟩ : Problem Material α).Sound := by
  obtain ⟨line, hline, rfl⟩ := of_mesh hmesh
  obtain ⟨regions, hregions, hlt, hisLine⟩ := Mesh.isLine_generate hline
  have hlayer : ∀ r m, table.material? r = some m →
      (d.regions.map Mesh.Region.priority).toArray.getD r 0 = MaterialKind.priority m := by
    intro r m hm
    rw [material?_regionTable htable] at hm
    obtain ⟨layer, hlayer, rfl⟩ := Option.map_eq_some_iff.1 hm
    simp [Device.regions, hlayer]
  have hmaterial : ∀ r ∈ regions, ∃ m, table.material? r = some m := by
    intro r hr
    have hr' := hlt r hr
    rw [Device.regions, List.length_map] at hr'
    rw [material?_regionTable htable, List.getElem?_eq_getElem hr']
    exact ⟨_, rfl⟩
  refine Problem.sound_of_isLine (hisLine _ _) hregions hmaterial ?_
  intro node hnode element hborders hcarriers
  exact Problem.governs_of_priority (hisLine _ _) hregions hlayer hmaterial
    (fun _ _ => priority_lt) hnode hborders hcarriers

/-- **A device that was accepted never fails structurally.** Its equilibrium field and both solvers
can be built, and in every state that calls of a solver lead to, from any field, a voltage can be
set, the equations can be assembled, a solve that nothing looks at fails at a pivot and an update
for want of a damping factor if at all. Every number that is used names something, and all nodes at
semiconductor elements have three unknowns. -/
theorem never_fails_structurally (d : Device α) (lengthScale crossSection : α)
    (htable : d.regionTable = .ok table) (hmesh : d.mesh lengthScale crossSection = .ok mesh)
    (settings : Settings α) :
    let p : Problem Material α := ⟨mesh.topology, table, settings⟩
    (∃ field, NodeField.equilibrium mesh.topology table = .ok field ∧
      field.nodeCount = p.nodeCount) ∧
    (∀ field : NodeField α, field.nodeCount = p.nodeCount →
      (∃ s, Newton.Poisson.start p field = .ok s) ∧
      ∃ s, Newton.TwoCarrier.start p field = .ok s) ∧
    (∀ s, Newton.Poisson.Reachable p s → Newton.Poisson.Sturdy p s) ∧
    ∀ s, Newton.TwoCarrier.Reachable p s → Newton.TwoCarrier.Sturdy p s := by
  intro p
  have hsound : p.Sound := sound htable hmesh settings
  refine ⟨hsound.exists_equilibrium, fun field hfield => ⟨?_, ?_⟩, ?_, ?_⟩
  · exact Newton.Poisson.exists_start hsound hfield
  · exact Newton.TwoCarrier.exists_start hsound hfield
  · exact fun s hs => Newton.Poisson.sturdy hsound hs.shaped
  · exact fun s hs => Newton.TwoCarrier.sturdy hsound hs.shaped

/-- Silicon between two layers of oxide. -/
def gateStack : Device Float where
  temperature := 300
  layers := [⟨.siliconDioxide, 0.1, 1, 0, 0⟩, ⟨.silicon, 1, 2, 1e17, 0⟩,
    ⟨.siliconDioxide, 0.1, 1, 0, 0⟩]

/-- The equations of the stack can be assembled at its equilibrium field. -/
theorem never_fails_structurally_gateStack :
    ∃ table mesh, gateStack.regionTable = .ok table ∧ gateStack.mesh 1e-4 1 = .ok mesh ∧
      ∃ field, NodeField.equilibrium mesh.topology table = .ok field ∧
        ∃ s, Newton.TwoCarrier.start ⟨mesh.topology, table, .ofTolerances 1e-3 1e-3 5⟩ field =
          .ok s ∧
        ∃ t, Newton.TwoCarrier.setup ⟨mesh.topology, table, .ofTolerances 1e-3 1e-3 5⟩ s =
          .ok () t := by
  have htable : gateStack.regionTable.isOk = true := by decide +kernel
  have hmesh : (gateStack.mesh 1e-4 1).isOk = true := by decide +kernel
  cases hr : gateStack.regionTable with
  | error e =>
    rw [hr] at htable
    cases htable
  | ok table =>
    cases hm : gateStack.mesh 1e-4 1 with
    | error e =>
      rw [hm] at hmesh
      cases hmesh
    | ok mesh =>
      obtain ⟨⟨field, hfield, hcount⟩, hstart, -, hsturdy⟩ :=
        never_fails_structurally gateStack 1e-4 1 hr hm (.ofTolerances 1e-3 1e-3 5)
      obtain ⟨s, hs⟩ := (hstart field hcount).2
      exact ⟨table, mesh, rfl, rfl, field, hfield, s, hs, (hsturdy s (.start hs)).setup⟩

end Device

end CarrierTransport
