import MixedFem.Mesh.Topology

/-!
# Finite element spaces

* `VectorP2Space` : continuous quadratic vector fields: a node per vertex and per facet, two
  degrees of freedom per node (`2 node + component`); a cell has the nodes of its vertices and
  of its three facets;
* `VectorP2Space.nodeCoordinates` : vertex positions, then facet midpoints `(x_a + x_b) / 2`;
* `FunctionSpace` : the quadratic vector space or the discontinuous linear symmetric tensors (9
  degrees of freedom per cell, `9 cell + i` in machine-sized arithmetic, modulo `2^64`);
* `FunctionSpace.cellDofs` : the degrees of freedom of a cell into a buffer of a given length,
  refused unless the length is the local dimension.
-/

namespace MixedFem

/-- Continuous quadratic vector fields on a mesh. -/
structure VectorP2Space where
  numVertices : Nat
  cellNodes : Array (Array Nat)
  facetNodes : Array (Nat × Nat × Nat)
  deriving Inhabited

namespace VectorP2Space

/-- The space on a mesh with the given topology. -/
def make {ρ : Type} (m : Mesh ρ) (t : Topology) : VectorP2Space :=
  let nv := m.numVertices
  let cellNodes := (m.cells.zip t.cellFacets).map fun (cv, fs) =>
    #[cv.a, cv.b, cv.c, nv + fs[0]!, nv + fs[1]!, nv + fs[2]!]
  let facetNodes := t.facets.mapIdx fun f (a, b) => (a, b, nv + f)
  ⟨nv, cellNodes, facetNodes⟩

/-- Number of nodes. -/
def numNodes (s : VectorP2Space) : Nat := s.numVertices + s.facetNodes.size

/-- The nodes of a facet: its vertices and its midpoint. -/
def facetNodesOf (s : VectorP2Space) (f : Nat) : Nat × Nat × Nat := s.facetNodes.getD f (0, 0, 0)

/-- Node positions: the vertices, then the facet midpoints. -/
def nodeCoordinates {ρ : Type} [RealScalar ρ] (s : VectorP2Space) (m : Mesh ρ) : Array (Vec2 ρ) :=
  let half : ρ := Scalar.one / (Scalar.one + Scalar.one)
  m.vertices ++ s.facetNodes.map fun (a, b, _) => (m.vertex a + m.vertex b).scale half

end VectorP2Space

/-- A finite element space of the mixed formulation. -/
inductive FunctionSpace where
  | vectorP2 (s : VectorP2Space)
  | tensorDg1 (numCells : Nat)

namespace FunctionSpace

/-- Local dimension. -/
def localDim : FunctionSpace → Nat
  | .vectorP2 _ => 12
  | .tensorDg1 _ => 9

/-- Number of cells. -/
def numCells : FunctionSpace → Nat
  | .vectorP2 s => s.cellNodes.size
  | .tensorDg1 n => n

/-- Number of degrees of freedom. -/
def numDofs : FunctionSpace → Nat
  | .vectorP2 s => 2 * s.numNodes
  | .tensorDg1 n => 9 * n

/-- The degrees of freedom of a cell, into a buffer of length `len`. -/
def cellDofs (sp : FunctionSpace) (cell len : Nat) : Except Violation (Array Nat) := do
  Violation.requireEq len sp.localDim "Dof buffer has wrong length"
  match sp with
  | .vectorP2 s =>
      let nodes ← Violation.get s.cellNodes cell
      return nodes.foldl (fun acc n => (acc.push (2 * n)).push (2 * n + 1)) #[]
  | .tensorDg1 _ => return Array.ofFn (n := 9) fun i => (9 * cell + i.val) % Nat.pow 2 64

/-- The degrees of freedom of a cell. -/
def dofsOf (sp : FunctionSpace) (cell : Nat) : Array Nat :=
  match sp.cellDofs cell sp.localDim with
  | .ok d => d
  | .error _ => #[]

end FunctionSpace

end MixedFem
