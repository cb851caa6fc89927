import MixedFem.Space
import MixedFem.Element.Lagrange
import MixedFem.Geometry.Box

/-!
# Point evaluation of quadratic vector fields

* `FunctionEvaluator` : a mesh, its vector P2 space, the box of each cell and the box around
  them all;
* `cellBox` : the bounding box of a cell enlarged by `10⁻¹⁰ (1 + w)`, `w` the larger magnitude
  of its two sides, spanned by the enlarged corners with `Box.ofCorners`;
* `FunctionEvaluator.make` : the evaluator; with more than `leafCapacity` cells the boxes are
  sorted into groups by their lower corners, which fails when one has a NaN coordinate;
* `FunctionEvaluator.findCell` : the lowest cell whose box holds the point (boundary included)
  and whose triangle contains it up to barycentric tolerance `10⁻¹⁰`, provided the box around
  all cells holds the point;
* `VectorP2Space.cellValue?` : the value `Σₖ u_{node k} φₖ(ξ)` of a field on one cell, at the
  reference point `ξ` of a point;
* `FunctionEvaluator.evaluate` : the value on the cell that `findCell` gives, or `none` outside
  the mesh; the coefficient vector must have one entry per dof.

The cells are found through a bounding-volume index. Up to `leafCapacity` cells it is one node:
its box is the merge of the cell boxes in cell order, taken from the empty box, and a point
outside it is in no cell. For more cells, grouping the cells compares the lower corners of
their boxes, so every lower corner must be ordered; then no box has a NaN, and the index finds
exactly the cells whose boxes hold the point, because every merged box contains the boxes
merged into it.
-/

namespace MixedFem

/-- Finds cells and evaluates fields of a vector P2 space at points. -/
structure FunctionEvaluator (ρ : Type) where
  mesh : Mesh ρ
  space : VectorP2Space
  boxes : Array (Box ρ)
  bounds : Box ρ

variable {ρ : Type} [RealScalar ρ]

/-- The value at `x` of the field with the given coefficients, two per node, expanded on cell
`c`: `Σₖ u_{node k} φₖ(ξ)` at the reference point `ξ` of `x`, or `none` on a degenerate cell. -/
def VectorP2Space.cellValue? (s : VectorP2Space) (m : Mesh ρ) (coefficients : Array ρ) (c : Nat)
    (x : Vec2 ρ) : Option (Vec2 ρ) := do
  let xi ← (m.cellTriangle c).toReference? x
  let phi := p2Values xi
  let nodes := s.cellNodes[c]!
  return (List.range nodes.size).foldl (fun (v : Vec2 ρ) k =>
    let n := nodes[k]!
    ⟨v.x + coefficients[2 * n]! * phi[k]!, v.y + coefficients[2 * n + 1]! * phi[k]!⟩) Vec2.zero

namespace FunctionEvaluator

/-- Relative tolerance of the bounding boxes and of the containment test. -/
def containmentTolerance : ρ := RealScalar.ofFloat 1e-10

/-- The number of cells the index keeps in a single node. -/
def leafCapacity : Nat := 6

/-- `|v.x|` unless `|v.y|` is greater; a NaN in `|v.x|` gives way to `|v.y|`. -/
def absMax (v : Vec2 ρ) : ρ :=
  let a := RealScalar.abs v.x
  let b := RealScalar.abs v.y
  if b ≤ a then a else b

/-- The bounding box of a cell, enlarged for rounding errors. -/
def cellBox (t : Triangle ρ) : Box ρ :=
  let (lo, hi) := t.boundingBox
  let margin := containmentTolerance * (RealScalar.ofFloat 1.0 + absMax (hi - lo))
  Box.ofCorners ⟨lo.x - margin, lo.y - margin⟩ ⟨hi.x + margin, hi.y + margin⟩

/-- The evaluator of a space on a mesh, or the failure of grouping a box whose lower corner is
not ordered. -/
def make (mesh : Mesh ρ) (space : VectorP2Space) : Except Violation (FunctionEvaluator ρ) := do
  let boxes := (Array.range mesh.numCells).map fun c => cellBox (mesh.cellTriangle c)
  if leafCapacity < boxes.size && !boxes.all Box.hasOrderedLower then
    throw (.unmet "called `Option::unwrap()` on a `None` value")
  return ⟨mesh, space, boxes, boxes.foldl Box.merge Box.empty⟩

/-- The lowest cell containing the point. -/
def findCell (e : FunctionEvaluator ρ) (x : Vec2 ρ) : Option Nat :=
  if e.bounds.holds x then
    (List.range e.boxes.size).find? fun c =>
      e.boxes[c]!.holds x && (e.mesh.cellTriangle c).contains x containmentTolerance
  else none

/-- The value at a point of the field with the given coefficients, two per node. -/
def evaluate (e : FunctionEvaluator ρ) (coefficients : Array ρ) (x : Vec2 ρ) :
    Except Violation (Option (Vec2 ρ)) := do
  Violation.requireEq coefficients.size (2 * e.space.numNodes) "Coefficient vector must have one entry per dof"
  return do
    let c ← e.findCell x
    e.space.cellValue? e.mesh coefficients c x

end FunctionEvaluator

end MixedFem
