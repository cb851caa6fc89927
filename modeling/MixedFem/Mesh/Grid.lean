import MixedFem.Mesh.Basic

/-!
# Structured meshes

* `Mesh.gridVertices nx ny pos`, `Mesh.gridCells nx ny` : the vertices `pos i j` row by row
  (`j` outer), and two triangles per grid square `(i, j)`: with corners `q₀ = (i, j+1)`,
  `q₁ = (i+1, j+1)`, `q₂ = (i+1, j)`, `q₃ = (i, j)`, the cells `q₀ q₁ q₂` and `q₀ q₂ q₃`;
* `Mesh.reserveVertices`, `Mesh.reserveCells` : the "capacity overflow" refusals of a grid whose
  vertex or cell array could not be addressed;
* `Mesh.grid nx ny pos` : the mesh of these vertices and cells, once both are reserved;
* `Mesh.rectangular` : `units_x × units_y` squares of side `unitLength`, each cut into
  `cellsPerUnit²` grid squares, hanging down from `topLeft`; empty if any count is zero; the grid
  counts are machine counts (modulo `2^64`);
* `Mesh.unitSquare n` : the unit square `[0,1]²` with `n × n` grid squares;
* `Mesh.cook n` : Cook's membrane, the quadrilateral with corners `(0,0), (48,44), (48,60),
  (0,44)`, as an `n × n` grid.
-/

namespace MixedFem

namespace Mesh

open RealScalar (ofFloat ofNat)

variable {ρ : Type} [RealScalar ρ]

/-- The vertices `pos i j` of an `nx × ny` grid, row by row (`j` outer). -/
def gridVertices (nx ny : Nat) (pos : Nat → Nat → Vec2 ρ) : Array (Vec2 ρ) :=
  (List.range (ny + 1)).foldl (fun acc j =>
    (List.range (nx + 1)).foldl (fun acc i => acc.push (pos i j)) acc) #[]

/-- The two cells of each square of an `nx × ny` grid, row by row, over the vertex numbering
`(nx + 1) j + i`. -/
def gridCells (nx ny : Nat) : Array CellVertices :=
  let idx := fun i j => (nx + 1) * j + i
  (List.range ny).foldl (fun acc j =>
    (List.range nx).foldl (fun acc i =>
      let q0 := idx i (j + 1)
      let q1 := idx (i + 1) (j + 1)
      let q2 := idx (i + 1) j
      let q3 := idx i j
      (acc.push ⟨q0, q1, q2⟩).push ⟨q0, q2, q3⟩) acc) #[]

/-- Reserves room for the `(nx + 1)(ny + 1)` vertices of a grid: a vertex takes 16 bytes, and
the byte count of an array must stay below `2^63`, so the count must be below `2^59`. The
requested count is a machine product, but when it wraps the pushes that follow grow the array
past `2^59` all the same, so the true product decides. -/
def reserveVertices (nx ny : Nat) : Except Violation Unit :=
  Violation.require ((nx + 1) * (ny + 1) < Nat.pow 2 59) "capacity overflow"

/-- The most cells an array can hold: a cell takes 24 bytes, and the byte count must stay at
most `2^63 - 8`. -/
def maxCells : Nat := (Nat.pow 2 63 - 8) / 24

/-- Reserves room for the `2 nx ny` cells of a grid; as for the vertices, the true count
decides. -/
def reserveCells (nx ny : Nat) : Except Violation Unit :=
  Violation.require (2 * nx * ny ≤ maxCells) "capacity overflow"

/-- A structured triangle mesh of `nx × ny` grid squares, after the room for its vertices and
for its cells is reserved. -/
def grid (nx ny : Nat) (pos : Nat → Nat → Vec2 ρ) : Except Violation (Mesh ρ) := do
  reserveVertices nx ny
  reserveCells nx ny
  make (gridVertices nx ny pos) (gridCells nx ny)

/-- A rectangle of `unitsX × unitsY` squares of side `unitLength` below and right of
`topLeft`, each cut into `cellsPerUnit × cellsPerUnit` grid squares. The grid counts
`unitsX · cellsPerUnit` and `unitsY · cellsPerUnit` are machine counts, taken modulo `2^64`. -/
def rectangular (unitLength : ρ) (unitsX unitsY cellsPerUnit : Nat) (topLeft : Vec2 ρ) :
    Except Violation (Mesh ρ) :=
  if cellsPerUnit = 0 ∨ unitsX = 0 ∨ unitsY = 0 then .ok empty
  else do
    let size := unitLength / ofNat cellsPerUnit
    let nx := unitsX * cellsPerUnit % Nat.pow 2 64
    let ny := unitsY * cellsPerUnit % Nat.pow 2 64
    grid nx ny fun i j => topLeft + (Vec2.mk (ofNat i) (-ofNat j)).scale size

/-- The unit square with `n × n` grid squares. -/
def unitSquare (n : Nat) : Except Violation (Mesh ρ) :=
  rectangular Scalar.one 1 1 n ⟨Scalar.zero, Scalar.one⟩

/-- Cook's membrane with `n × n` grid squares. -/
def cook (n : Nat) : Except Violation (Mesh ρ) :=
  if n = 0 then .ok empty
  else
    let nf : ρ := ofNat n
    grid n n fun i j =>
      let s := ofNat i / nf
      let t := ofNat (n - j) / nf
      let yBottom := ofFloat 44.0 * s
      let yTop := ofFloat 44.0 + ofFloat 16.0 * s
      ⟨ofFloat 48.0 * s, yBottom + t * (yTop - yBottom)⟩

end Mesh

end MixedFem
