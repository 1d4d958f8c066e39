import CarrierTransport.Scalar.Basic

/-!
# The topology of a mesh

What the discretisation knows of a mesh: nodes and elements, numbered from zero. An element joins
two nodes and lies in a region; a node lists the elements that border it and the region that
governs it. A topology is plain data, so a number in it may name no node or element; what depends
on such a number has no value.
-/

namespace CarrierTransport.Mesh

/-! ### Elements and nodes -/

/-- A stretch of the device between two nodes, in the unit of the discretisation. -/
structure Element (α : Type) where
  left : Nat
  right : Nat
  length : α
  area : α
  region : Nat
deriving Repr

/-- A point where elements meet. -/
structure Node where
  /-- The elements that border the node. -/
  elements : List Nat
  /-- The region that governs the node. -/
  region : Nat
deriving DecidableEq, Repr

structure Topology (α : Type) where
  nodes : Array Node
  elements : Array (Element α)
deriving Repr

variable {α : Type}

/-- The part of an element's volume that belongs to either of its nodes. -/
def Element.share [Scalar α] (e : Element α) : α :=
  e.area * e.length / (1 + 1)

namespace Topology

/-- The elements that border a node, in the order the node lists them. -/
def bordering? (mesh : Topology α) (node : Node) : Option (List (Element α)) :=
  node.elements.mapM fun e => mesh.elements[e]?

/-! ### Control volumes -/

variable [Scalar α]

/-- The volumes of a node in each of its bordering elements. -/
def controlVolumes? (mesh : Topology α) (node : Node) : Option (List α) :=
  (mesh.bordering? node).map fun es => es.map Element.share

/-- The whole control volume of a node. -/
def totalControlVolume? (mesh : Topology α) (node : Node) : Option α :=
  (mesh.controlVolumes? node).map fun volumes => volumes.foldl (· + ·) 0

end Topology

end CarrierTransport.Mesh
