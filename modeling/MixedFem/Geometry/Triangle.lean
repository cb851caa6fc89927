import MixedFem.Geometry.Vec2

/-!
# Affine triangles

* `Triangle ρ` : three vertices; the affine map from the reference triangle `(0,0), (1,0), (0,1)`
  sends `ξ` to `v₀ + J ξ`, `J` having the columns `v₁ - v₀` and `v₂ - v₀`;
* `Triangle.jacobian`, `determinant`, `inverseTranspose?`, `area`;
* `Triangle.toPhysical`, `Triangle.toReference?` : the map and its inverse (`none` for a
  degenerate triangle);
* `Triangle.barycentric?`, `Triangle.contains` : barycentric coordinates, and whether all of
  them are at least `-tolerance`;
* `Triangle.centroid`, `Triangle.boundingBox`.
-/

namespace MixedFem

/-- A triangle of the plane. -/
structure Triangle (ρ : Type) where
  v0 : Vec2 ρ
  v1 : Vec2 ρ
  v2 : Vec2 ρ
  deriving Inhabited

namespace Triangle

variable {ρ : Type} [RealScalar ρ]

/-- The Jacobian of the reference map. -/
def jacobian (t : Triangle ρ) : Mat2 ρ := Mat2.ofColumns (t.v1 - t.v0) (t.v2 - t.v0)

/-- The determinant of the Jacobian: twice the signed area. -/
def determinant (t : Triangle ρ) : ρ := t.jacobian.det

/-- `J⁻ᵀ`, the map of reference gradients to physical ones. -/
def inverseTranspose? (t : Triangle ρ) : Option (Mat2 ρ) := t.jacobian.inverse?.map Mat2.transpose

/-- The area. -/
def area (t : Triangle ρ) : ρ := RealScalar.ofFloat 0.5 * RealScalar.abs t.determinant

/-- The image of a reference point. -/
def toPhysical (t : Triangle ρ) (xi : Vec2 ρ) : Vec2 ρ := t.v0 + t.jacobian.mulVec xi

/-- The reference point of a physical point. -/
def toReference? (t : Triangle ρ) (x : Vec2 ρ) : Option (Vec2 ρ) :=
  t.jacobian.inverse?.map fun inv => inv.mulVec (x - t.v0)

/-- Barycentric coordinates `(1 - ξ - η, ξ, η)`. -/
def barycentric? (t : Triangle ρ) (x : Vec2 ρ) : Option (ρ × ρ × ρ) :=
  (t.toReference? x).map fun xi => (Scalar.one - xi.x - xi.y, xi.x, xi.y)

/-- Every barycentric coordinate is at least `-tolerance`. -/
def contains (t : Triangle ρ) (x : Vec2 ρ) (tolerance : ρ) : Bool :=
  match t.barycentric? x with
  | some (l0, l1, l2) => l0 ≥ -tolerance && l1 ≥ -tolerance && l2 ≥ -tolerance
  | none => false

/-- The centroid `(v₀ + v₁ + v₂) / 3`, scaled by `1 / (1 + 1 + 1)`. -/
def centroid (t : Triangle ρ) : Vec2 ρ :=
  (t.v0 + t.v1 + t.v2).scale (Scalar.one / (Scalar.one + Scalar.one + Scalar.one))

/-- The least and greatest corners of the bounding box. -/
def boundingBox (t : Triangle ρ) : Vec2 ρ × Vec2 ρ :=
  ((t.v0.inf t.v1).inf t.v2, (t.v0.sup t.v1).sup t.v2)

end Triangle

end MixedFem
