import Mathlib
import CarrierTransport.Proofs.Newton.Sound
import CarrierTransport.State.Equilibrium

/-!
# The field in local equilibrium

On a problem in which every number names something the field can be built, with a state for every
node (`Problem.Closed.exists_equilibrium`), and each state is the equilibrium state of the material
that governs its node (`State.of_equilibrium`).
-/

namespace CarrierTransport

open Mesh (Topology)
open Newton (Problem)
open Physics (MaterialModel)
open State (NodeField NodeState)
open Transition

variable {M α : Type} [Scalar α]

theorem State.exists_summedDoping {table : RegionTable M α} {regions : List Nat}
    (h : ∀ r ∈ regions, ∃ m, table.material? r = some m) :
    ∃ doping, State.summedDoping table regions = .ok doping := by
  refine Loop.exists_foldlM _ fun r hr doping => ?_
  obtain ⟨m, hm⟩ := h r hr
  obtain ⟨info, hinfo, -⟩ := Option.map_eq_some_iff.1 hm
  rw [hinfo]
  exact ⟨_, rfl⟩

variable [MaterialModel M α] {p : Problem M α}

/-! ### The field can be built -/

theorem Newton.Problem.Closed.exists_nodeEquilibrium (h : p.Closed) {node : Mesh.Node}
    (hnode : node ∈ p.mesh.nodes) : ∃ s, State.nodeEquilibrium p.mesh p.table node = .ok s := by
  obtain ⟨es, hes, hmem⟩ := Loop.exists_mapM_some (f := fun e => p.mesh.elements[e]?)
    fun e he => ⟨_, Array.getElem?_eq_getElem (h.listed node hnode e he)⟩
  have hregions : State.borderingRegions? p.mesh node =
      some (Mesh.ascending (es.map Mesh.Element.region)) := by
    rw [State.borderingRegions?, Topology.bordering?, hes]
    rfl
  have hmaterial : ∀ r ∈ Mesh.ascending (es.map Mesh.Element.region),
      ∃ m, p.table.material? r = some m := by
    intro r hr
    rw [Mesh.mem_ascending] at hr
    obtain ⟨element, helement, rfl⟩ := List.mem_map.1 hr
    obtain ⟨e, -, he⟩ := hmem element helement
    exact h.material element (Array.mem_of_getElem? he)
  obtain ⟨⟨donor, acceptor⟩, hdoping⟩ := State.exists_summedDoping hmaterial
  obtain ⟨i, hi⟩ := Array.mem_iff_getElem?.1 hnode
  obtain ⟨m, hm⟩ := h.governing i (Array.getElem?_eq_some_iff.1 hi).1
  rw [Problem.governing?, hi] at hm
  have hm' : p.table.material? node.region = some m := hm
  rw [State.nodeEquilibrium, hregions]
  simp only [hdoping, hm', bind, Except.bind]
  exact ⟨_, rfl⟩

theorem State.nodeCount_equilibrium {mesh : Topology α} {table : RegionTable M α}
    {field : NodeField α} (h : NodeField.equilibrium mesh table = .ok field) :
    field.nodeCount = mesh.nodes.size := by
  obtain ⟨states, hstates, hfield⟩ := except_bind_eq_ok.1 h
  cases hfield
  have hlength := (Loop.mapM_eq_ok.1 hstates).length_eq
  rw [Array.length_toList] at hlength
  exact hlength.symm

/-- A closed problem has an equilibrium field, with a state for every node. -/
theorem Newton.Problem.Closed.exists_equilibrium (h : p.Closed) :
    ∃ field, NodeField.equilibrium p.mesh p.table = .ok field ∧ field.nodeCount = p.nodeCount := by
  have hnode : ∀ node ∈ p.mesh.nodes.toList,
      ∃ s, State.nodeEquilibrium p.mesh p.table node = .ok s :=
    fun node hnode => h.exists_nodeEquilibrium (Array.mem_toList_iff.1 hnode)
  obtain ⟨states, hstates⟩ := Loop.exists_mapM hnode
  have hfield : NodeField.equilibrium p.mesh p.table = .ok ⟨states.toArray⟩ :=
    except_bind_eq_ok.2 ⟨states, hstates, rfl⟩
  exact ⟨_, hfield, State.nodeCount_equilibrium hfield⟩

/-! ### Its states -/

theorem State.of_nodeEquilibrium {mesh : Topology α} {table : RegionTable M α} {node : Mesh.Node}
    {s : NodeState α} (h : State.nodeEquilibrium mesh table node = .ok s) :
    ∃ regions m donor acceptor, State.borderingRegions? mesh node = some regions ∧
      State.summedDoping table regions = .ok (donor, acceptor) ∧
      table.material? node.region = some m ∧
      s = State.equilibriumState m table.temperature donor acceptor := by
  rw [State.nodeEquilibrium] at h
  split at h
  · next regions hregions =>
    obtain ⟨⟨donor, acceptor⟩, hdoping, h⟩ := except_bind_eq_ok.1 h
    dsimp only at h
    split at h
    · next m hm =>
      cases h
      exact ⟨regions, m, donor, acceptor, hregions, hdoping, hm, rfl⟩
    · cases h
  · cases h

/-- A field in local equilibrium holds the equilibrium state of each node. -/
theorem State.nodeEquilibrium_of_equilibrium {mesh : Topology α} {table : RegionTable M α}
    {field : NodeField α} (h : NodeField.equilibrium mesh table = .ok field) {i : Nat}
    {node : Mesh.Node} {s : NodeState α} (hnode : mesh.nodes[i]? = some node)
    (hs : field.nodes[i]? = some s) : State.nodeEquilibrium mesh table node = .ok s := by
  obtain ⟨states, hstates, hfield⟩ := except_bind_eq_ok.1 h
  cases hfield
  rw [List.getElem?_toArray] at hs
  obtain ⟨hlt, rfl⟩ := List.getElem?_eq_some_iff.1 hs
  obtain ⟨hlt', rfl⟩ := Array.getElem?_eq_some_iff.1 hnode
  have hlt'' : i < mesh.nodes.toList.length := by simpa using hlt'
  exact List.forall₂_iff_get.1 (Loop.mapM_eq_ok.1 hstates) |>.2 i hlt'' hlt

/-- The state of a node in local equilibrium is that of its governing material. -/
theorem State.of_equilibrium {field : NodeField α}
    (h : NodeField.equilibrium p.mesh p.table = .ok field) {node : Nat} {s : NodeState α}
    (hs : field.nodes[node]? = some s) :
    ∃ m donor acceptor, p.governing? node = some m ∧
      s = State.equilibriumState m p.table.temperature donor acceptor := by
  have hnode : node < p.nodeCount := by
    rw [Problem.nodeCount, ← State.nodeCount_equilibrium h]
    exact (Array.getElem?_eq_some_iff.1 hs).1
  obtain ⟨n, hn, -⟩ := p.exists_node hnode
  obtain ⟨-, m, donor, acceptor, -, -, hm, hstate⟩ :=
    State.of_nodeEquilibrium (State.nodeEquilibrium_of_equilibrium h hn hs)
  refine ⟨m, donor, acceptor, ?_, hstate⟩
  rw [Problem.governing?, hn]
  exact hm

end CarrierTransport
