import MixedFem.Mesh.Basic
import Std.Data.HashMap

/-!
# Mesh topology

* `Topology` : the facets of a mesh (sorted vertex pairs, in order of first appearance over the
  cells and their edges `(0,1), (1,2), (2,0)`), the facets of each cell, the cells of each facet,
  and which vertices lie on the boundary;
* `Topology.ofMesh`;
* `Topology.isBoundaryFacet` : a facet with exactly one cell; `isBoundaryVertex` : a vertex of
  such a facet; `isBoundaryCell` : a cell with such a facet;
* `Topology.numEntities`, `Topology.boundaryFacets`.
-/

namespace MixedFem

/-- The facets of a mesh and their incidences. -/
structure Topology where
  numVertices : Nat
  facets : Array (Nat × Nat)
  cellFacets : Array (Array Nat)
  facetCells : Array (Array Nat)
  boundaryVertex : Array Bool
  deriving Inhabited

namespace Topology

/-- The state of the facet numbering while the cells are visited. -/
structure Builder where
  index : Std.HashMap (Nat × Nat) Nat := {}
  facets : Array (Nat × Nat) := #[]
  facetCells : Array (Array Nat) := #[]
  cellFacets : Array (Array Nat) := #[]

/-- Records edge `(a, b)` of cell `c`, numbering its facet if new; returns the facet. -/
def Builder.visit (s : Builder) (c a b : Nat) : Builder × Nat :=
  let key := (min a b, max a b)
  match s.index[key]? with
  | some f => ({ s with facetCells := s.facetCells.modify f (·.push c) }, f)
  | none =>
      let f := s.facets.size
      ({ s with index := s.index.insert key f, facets := s.facets.push key,
                facetCells := s.facetCells.push #[c] }, f)

/-- The topology of a mesh. -/
def ofMesh {ρ : Type} (m : Mesh ρ) : Topology :=
  let s := (List.range m.numCells).foldl (fun (s : Builder) c =>
    let cv := m.cellVertices c
    let (s, f0) := s.visit c (cv.get 0) (cv.get 1)
    let (s, f1) := s.visit c (cv.get 1) (cv.get 2)
    let (s, f2) := s.visit c (cv.get 2) (cv.get 0)
    { s with cellFacets := s.cellFacets.push #[f0, f1, f2] }) {}
  let boundary := (s.facets.zip s.facetCells).foldl (fun (bv : Array Bool) ((a, b), cs) =>
    if cs.size = 1 then (bv.set! a true).set! b true else bv) (Array.replicate m.numVertices false)
  ⟨m.numVertices, s.facets, s.cellFacets, s.facetCells, boundary⟩

/-- Number of facets. -/
def numFacets (t : Topology) : Nat := t.facets.size

/-- Number of cells. -/
def numCells (t : Topology) : Nat := t.cellFacets.size

/-- Number of entities of a dimension. -/
def numEntities (t : Topology) : EntityDim → Nat
  | .vertex => t.numVertices
  | .facet => t.numFacets
  | .cell => t.numCells

/-- The facet has exactly one cell. -/
def isBoundaryFacet (t : Topology) (f : Nat) : Bool := (t.facetCells.getD f #[]).size = 1

/-- The vertex lies on a boundary facet. -/
def isBoundaryVertex (t : Topology) (v : Nat) : Bool := t.boundaryVertex.getD v false

/-- The cell has a boundary facet. -/
def isBoundaryCell (t : Topology) (c : Nat) : Bool := (t.cellFacets.getD c #[]).any t.isBoundaryFacet

/-- The boundary facets, ascending. -/
def boundaryFacets (t : Topology) : Array Nat := (Array.range t.numFacets).filter t.isBoundaryFacet

/-- The vertices of a facet. -/
def facet (t : Topology) (f : Nat) : Nat × Nat := t.facets.getD f (0, 0)

end Topology

end MixedFem
