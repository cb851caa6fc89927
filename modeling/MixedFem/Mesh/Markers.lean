import MixedFem.Mesh.Topology

/-!
# Marking and locating mesh entities

* `SubDomain` : a region given by a test of a point and whether it lies on the boundary;
* `Markers` : one integer marker per entity of one dimension; `Markers.count`, `Markers.find`;
* `Markers.mark` : sets `value` on every entity inside a subdomain: a vertex by its position and
  boundary flag, a facet or a cell when all its vertices and their midpoint are inside, with the
  entity's own boundary flag;
* `locateEntities` : the entities, ascending, whose vertices all satisfy a point test, on the
  boundary only if asked.
-/

namespace MixedFem

/-- A region of the plane, given by its test `inside x onBoundary`. -/
abbrev SubDomain (ρ : Type) := Vec2 ρ → Bool → Bool

/-- One marker per entity of a dimension. -/
structure Markers where
  dim : EntityDim
  values : Array Int32

namespace Markers

variable {ρ : Type} [RealScalar ρ]

/-- Every entity of the dimension marked `default`. -/
def new (t : Topology) (dim : EntityDim) (default : Int32) : Markers :=
  ⟨dim, Array.replicate (t.numEntities dim) default⟩

/-- Number of entities with the marker. -/
def count (m : Markers) (value : Int32) : Nat := (m.values.filter (· == value)).size

/-- The entities with the marker, ascending. -/
def find (m : Markers) (value : Int32) : Array Nat :=
  (Array.range m.values.size).filter fun i => m.values[i]! == value

/-- All the points and their midpoint, the mean of the points summed from zero, are inside. -/
def entityInside (inside : SubDomain ρ) (points : List (Vec2 ρ)) (onBoundary : Bool) : Bool :=
  points.all (inside · onBoundary) &&
    let sum := points.foldl (· + ·) Vec2.zero
    let n : ρ := RealScalar.ofNat points.length
    inside ⟨sum.x / n, sum.y / n⟩ onBoundary

/-- Marks with `value` the entities inside the subdomain. -/
def mark (m : Markers) (mesh : Mesh ρ) (t : Topology) (inside : SubDomain ρ) (value : Int32) :
    Except Violation Markers := do
  Violation.requireEq m.values.size (t.numEntities m.dim) "Markers must have one value per entity"
  let hit : Nat → Bool := match m.dim with
    | .vertex => fun v => inside (mesh.vertex v) (t.isBoundaryVertex v)
    | .facet => fun f =>
        let (a, b) := t.facet f
        entityInside inside [mesh.vertex a, mesh.vertex b] (t.isBoundaryFacet f)
    | .cell => fun c =>
        entityInside inside ((mesh.cellVertices c).toList.map mesh.vertex) (t.isBoundaryCell c)
  return { m with values := m.values.mapIdx fun i v => if hit i then value else v }

end Markers

/-- The entities of a dimension whose vertices all pass the test. -/
def locateEntities {ρ : Type} [RealScalar ρ] (mesh : Mesh ρ) (t : Topology) (dim : EntityDim)
    (marker : Vec2 ρ → Bool)
    (boundaryOnly : Bool) : Array Nat :=
  match dim with
  | .vertex => (Array.range mesh.numVertices).filter fun v =>
      (!boundaryOnly || t.isBoundaryVertex v) && marker (mesh.vertex v)
  | .facet => (Array.range t.numFacets).filter fun f =>
      (!boundaryOnly || t.isBoundaryFacet f) &&
        let (a, b) := t.facet f
        marker (mesh.vertex a) && marker (mesh.vertex b)
  | .cell => (Array.range mesh.numCells).filter fun c =>
      (!boundaryOnly || t.isBoundaryCell c) &&
        (mesh.cellVertices c).toList.all fun v => marker (mesh.vertex v)

end MixedFem
