import CarrierTransport.Scalar.Basic

/-!
# Line segments

An element of a one-dimensional mesh as a piece of the line.
-/

namespace CarrierTransport.Mesh

/-- A piece of the line between two vertices. -/
structure Segment (α : Type) where
  /-- The coordinates of the two vertices. -/
  ends : α × α
  /-- The numbers of the two vertices. -/
  indices : Nat × Nat
  region : Nat
deriving Repr

namespace Segment

variable {α : Type} [Scalar α]

/-- The point halfway between the vertices. -/
def midpoint (s : Segment α) : α :=
  (s.ends.1 + s.ends.2) / (1 + 1)

/-- The distance of the vertices, whatever their order. -/
def diameter (s : Segment α) : α :=
  Scalar.abs (s.ends.1 - s.ends.2)

end Segment

end CarrierTransport.Mesh
