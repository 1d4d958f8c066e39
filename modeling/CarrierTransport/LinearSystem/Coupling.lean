import CarrierTransport.Mesh.Ascending
import CarrierTransport.Mesh.Topology
import CarrierTransport.LinearSystem.Layout

/-!
# Which nodes are coupled

A node is coupled to itself and to the nodes it is joined with. The couplings of all nodes fix the
pattern of a block matrix: an unknown of a node meets every unknown of the nodes coupled to it.
-/

namespace CarrierTransport.LinearSystem

open Mesh (Topology insertAscending)

/-! ### Couplings -/

/-- For each node the nodes it is coupled to, ascending. -/
abbrev Couplings := Array (List Nat)

namespace Couplings

/-- Every node coupled to itself only. -/
def diagonal (nodes : Nat) : Couplings :=
  (Array.range nodes).map fun n => [n]

/-- Two nodes coupled to each other. -/
def join (c : Couplings) (i j : Nat) : Couplings :=
  (c.modify i (insertAscending j)).modify j (insertAscending i)

/-- The couplings by a list of pairs. -/
def ofPairs (nodes : Nat) (pairs : List (Nat × Nat)) : Couplings :=
  pairs.foldl (fun c (i, j) => c.join i j) (diagonal nodes)

/-- The couplings of a mesh, if every element joins two of its nodes. -/
def ofTopology? {α : Type} (mesh : Topology α) : Option Couplings :=
  let pairs := mesh.elements.toList.map fun e => (e.left, e.right)
  let count := mesh.nodes.size
  if pairs.all fun (i, j) => i < count && j < count then some (ofPairs count pairs) else none

/-- The columns of the rows of a node, ascending. -/
def columns (c : Couplings) (layout : Layout) (node : Nat) : List Nat :=
  (c.getD node []).flatMap layout.block

end Couplings

end CarrierTransport.LinearSystem
