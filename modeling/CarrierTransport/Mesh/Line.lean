import CarrierTransport.Mesh.Topology
import CarrierTransport.Mesh.Segment

/-!
# Meshes of layered devices

A stack of regions, each split into equal elements, meshed along a line. Vertices on the interface
of two regions are shared. Of the regions that meet at a vertex the one of least priority governs
it, the left one on a tie.
-/

namespace CarrierTransport.Mesh

/-! ### Regions and errors -/

/-- A homogeneous slab of the device. -/
structure Region (α : Type) where
  thickness : α
  /-- The number of equal elements the slab is split into. -/
  divisions : Nat
  priority : Int
deriving Repr

inductive MeshError where
  | noRegions
  | noDivisions (region : Nat)
  | thickness (region : Nat)
deriving DecidableEq, Repr

def MeshError.message : MeshError → String
  | .noRegions => "A mesh needs at least one region"
  | .noDivisions region => s!"Region {region} has no divisions"
  | .thickness region => s!"Region {region} has a non-positive thickness"

/-! ### Vertices -/

/-- The regions around a vertex: one region, or the regions that meet there, left to right. -/
inductive Assignment where
  | core (region : Nat)
  | boundary (regions : List Nat)
deriving DecidableEq, Repr

namespace Assignment

/-- The distinct members of a list, each where it first occurs. -/
def distinct (regions : List Nat) : List Nat :=
  regions.foldl (fun seen r => if r ∈ seen then seen else seen ++ [r]) []

/-- The assignment of a vertex from the regions of its bordering elements. -/
def ofBordering (regions : List Nat) : Assignment :=
  match distinct regions with
  | [region] => .core region
  | several => .boundary several

def regions : Assignment → List Nat
  | .core region => [region]
  | .boundary regions => regions

end Assignment

structure Vertex (α : Type) where
  coordinate : α
  assignment : Assignment
deriving Repr

/-! ### The mesh -/

/-- A mesh of line segments. Coordinates are multiplied by `lengthScale` to give element lengths;
every element has the area `crossSection`. -/
structure LineMesh (α : Type) where
  vertices : List (Vertex α)
  segments : List (Segment α)
  /-- The elements bordering each vertex. -/
  connectivity : List (List Nat)
  /-- The region governing each vertex. -/
  governing : List Nat
  lengthScale : α
  crossSection : α
deriving Repr

variable {α : Type} [Scalar α]

/-- The right end and the region of every element of the regions from number `index` on, the first
of which starts at `offset`. -/
def cells (index : Nat) (offset : α) : List (Region α) → Except MeshError (List (α × Nat))
  | [] => .ok []
  | region :: rest =>
    if region.divisions = 0 then .error (.noDivisions index)
    else if region.thickness ≤ 0 then .error (.thickness index)
    else do
      let own := (List.range region.divisions).map fun k =>
        (offset + region.thickness * (Scalar.count (k + 1) / Scalar.count region.divisions), index)
      let others ← cells (index + 1) (offset + region.thickness) rest
      return own ++ others

/-- The elements bordering vertex `i` of a line of `count` elements. -/
def neighbours (count i : Nat) : List Nat :=
  (if 0 < i then [i - 1] else []) ++ (if i < count then [i] else [])

/-- The region of least priority among some regions, the first of them on a tie. -/
def governingRegion (priority : Nat → Int) : List Nat → Nat
  | [] => 0
  | first :: rest => rest.foldl (fun best r => if priority r < priority best then r else best) first

namespace LineMesh

/-- The mesh of a stack of regions from the point `left` on. -/
def generate (regions : List (Region α)) (left : α) : Except MeshError (LineMesh α) :=
  if regions.isEmpty then .error .noRegions
  else do
    let cells ← cells 0 left regions
    let coordinates := left :: cells.map (·.1)
    let elementRegions := (cells.map (·.2)).toArray
    let connectivity := (List.range coordinates.length).map (neighbours cells.length)
    let bordering := connectivity.map fun es => es.filterMap fun e => elementRegions[e]?
    let priorities := (regions.map (·.priority)).toArray
    return {
      vertices := (coordinates.zip bordering).map fun (x, rs) => ⟨x, .ofBordering rs⟩
      segments := ((coordinates.zip cells).zip (List.range cells.length)).map
        fun ((start, stop, region), e) => ⟨(start, stop), (e, e + 1), region⟩
      connectivity
      governing := bordering.map (governingRegion fun r => priorities.getD r 0)
      lengthScale := 1
      crossSection := 1 }

/-- The mesh of `divisions` equal elements between `left` and `left + length`. -/
def uniform (length : α) (divisions : Nat) (left : α) : Except MeshError (LineMesh α) :=
  generate [⟨length, divisions, 0⟩] left

/-- The topology that the discretisation works on. -/
def topology (mesh : LineMesh α) : Topology α where
  nodes := ((mesh.connectivity.zip mesh.governing).map fun (es, r) => ⟨es, r⟩).toArray
  elements := (mesh.segments.map fun s =>
    { left := s.indices.1, right := s.indices.2
      length := (s.ends.2 - s.ends.1) * mesh.lengthScale
      area := mesh.crossSection
      region := s.region }).toArray

end LineMesh

end CarrierTransport.Mesh
