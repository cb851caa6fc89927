import MixedFem.Geometry.Triangle
import MixedFem.Violation

/-!
# Triangle meshes

* `EntityDim` : vertices, facets and cells, of dimensions 0, 1, 2, named `vertex`, `facet`,
  `cell`;
* `CellVertices` : the three vertex indices of a cell;
* `Mesh ρ` : vertex positions and cells, every cell naming vertices of the mesh; `Mesh.make`
  refuses a cell that names a missing vertex;
* `Mesh.cellTriangle`, `Mesh.area` : the triangle of a cell, and the sum of cell areas from
  zero.
-/

namespace MixedFem

/-- The dimension of a mesh entity. -/
inductive EntityDim where
  | vertex
  | facet
  | cell
  deriving Repr, BEq, DecidableEq, Inhabited

namespace EntityDim

/-- The entity kind of a dimension. -/
def ofNat? : Nat → Option EntityDim
  | 0 => some .vertex
  | 1 => some .facet
  | 2 => some .cell
  | _ => none

/-- The dimension. -/
def toNat : EntityDim → Nat
  | .vertex => 0
  | .facet => 1
  | .cell => 2

/-- The name. -/
def name : EntityDim → String
  | .vertex => "vertex"
  | .facet => "facet"
  | .cell => "cell"

end EntityDim

/-- The vertex indices of a triangle cell. -/
structure CellVertices where
  a : Nat
  b : Nat
  c : Nat
  deriving Repr, BEq, Inhabited

/-- The indices in order. -/
def CellVertices.toList (c : CellVertices) : List Nat := [c.a, c.b, c.c]

/-- Vertex `k` of the cell, counted modulo 3. -/
def CellVertices.get (c : CellVertices) (k : Nat) : Nat :=
  if k % 3 = 0 then c.a else if k % 3 = 1 then c.b else c.c

/-- A mesh of triangles in the plane, whose cells name its vertices. -/
structure Mesh (ρ : Type) where
  vertices : Array (Vec2 ρ)
  cells : Array CellVertices
  /-- Every vertex index of a cell is below the number of vertices. -/
  cells_lt : ∀ cv ∈ cells, ∀ v ∈ cv.toList, v < vertices.size

namespace Mesh

variable {ρ : Type}

/-- What the check of `make` establishes. -/
theorem cells_lt_of_all {n : Nat} {cells : Array CellVertices}
    (h : (cells.all fun c => c.toList.all (· < n)) = true) :
    ∀ cv ∈ cells, ∀ v ∈ cv.toList, v < n := by
  intro cv hcv v hv
  rw [Array.all_eq_true_iff_forall_mem] at h
  simpa using List.all_eq_true.1 (h cv hcv) v hv

/-- The mesh, if every cell names existing vertices. -/
def make (vertices : Array (Vec2 ρ)) (cells : Array CellVertices) : Except Violation (Mesh ρ) :=
  if h : (cells.all fun c => c.toList.all (· < vertices.size)) = true then
    .ok ⟨vertices, cells, cells_lt_of_all h⟩
  else .error (.unmet "Cell references vertex out of bounds")

theorem cells_lt_empty {n : Nat} : ∀ cv ∈ (#[] : Array CellVertices), ∀ v ∈ cv.toList, v < n :=
  fun _ h => absurd h (Array.not_mem_empty _)

/-- The empty mesh. -/
def empty : Mesh ρ := ⟨#[], #[], cells_lt_empty⟩

instance : Inhabited (Mesh ρ) := ⟨empty⟩

/-- Number of vertices. -/
def numVertices (m : Mesh ρ) : Nat := m.vertices.size

/-- Number of cells. -/
def numCells (m : Mesh ρ) : Nat := m.cells.size

/-- The vertices of a cell. -/
def cellVertices (m : Mesh ρ) (c : Nat) : CellVertices := m.cells.getD c default

section

variable [RealScalar ρ]

/-- The position of a vertex. -/
def vertex (m : Mesh ρ) (v : Nat) : Vec2 ρ := m.vertices.getD v Vec2.zero

/-- The triangle of a cell. -/
def cellTriangle (m : Mesh ρ) (c : Nat) : Triangle ρ :=
  let cv := m.cellVertices c
  ⟨m.vertex cv.a, m.vertex cv.b, m.vertex cv.c⟩

/-- The total area, summed cell by cell from zero. -/
def area (m : Mesh ρ) : ρ :=
  (List.range m.numCells).foldl (fun s c => s + (m.cellTriangle c).area) Scalar.zero

end

end Mesh

end MixedFem
