import MixedFem.Geometry.Vec2

/-!
# Lagrange shape functions on the reference triangle and segment

* `p1Values`, `p1Gradients` : the linear functions `1 - ξ - η, ξ, η` and their constant
  gradients;
* `p2Values`, `p2Gradients`, `p2Nodes` : the quadratic functions `λᵢ(2λᵢ - 1)` at the vertices
  and `4λᵢλⱼ` at the edge midpoints, in the edge order `(0,1), (1,2), (2,0)` of `p2Edges`;
* `segmentValues`, `segmentGradients` : the quadratic functions on `[-1, 1]` with nodes
  `-1, 1, 0`.

The constants `2`, `4`, `1/2` are `RealScalar.ofFloat` of the corresponding literals.
-/

namespace MixedFem

open RealScalar (ofFloat)

variable {ρ : Type} [RealScalar ρ]

/-- The barycentric coordinates of a reference point. -/
def refBarycentric (xi : Vec2 ρ) : ρ × ρ × ρ := (Scalar.one - xi.x - xi.y, xi.x, xi.y)

/-- Values of the linear shape functions. -/
def p1Values (xi : Vec2 ρ) : Array ρ := #[Scalar.one - xi.x - xi.y, xi.x, xi.y]

/-- Gradients of the linear shape functions, one column each. -/
def p1Gradients : Array (Vec2 ρ) :=
  #[⟨-Scalar.one, -Scalar.one⟩, ⟨Scalar.one, Scalar.zero⟩, ⟨Scalar.zero, Scalar.one⟩]

/-- Values of the quadratic shape functions. -/
def p2Values (xi : Vec2 ρ) : Array ρ :=
  let (l0, l1, l2) := refBarycentric xi
  #[l0 * (ofFloat 2.0 * l0 - ofFloat 1.0), l1 * (ofFloat 2.0 * l1 - ofFloat 1.0),
    l2 * (ofFloat 2.0 * l2 - ofFloat 1.0),
    ofFloat 4.0 * l0 * l1, ofFloat 4.0 * l1 * l2, ofFloat 4.0 * l2 * l0]

/-- Gradients of the quadratic shape functions, one column each. -/
def p2Gradients (xi : Vec2 ρ) : Array (Vec2 ρ) :=
  let (l0, l1, l2) := refBarycentric xi
  let g : Array (Vec2 ρ) := p1Gradients
  let g0 := g[0]!
  let g1 := g[1]!
  let g2 := g[2]!
  #[g0.scale (ofFloat 4.0 * l0 - ofFloat 1.0), g1.scale (ofFloat 4.0 * l1 - ofFloat 1.0),
    g2.scale (ofFloat 4.0 * l2 - ofFloat 1.0),
    (g0.scale l1 + g1.scale l0).scale (ofFloat 4.0), (g1.scale l2 + g2.scale l1).scale (ofFloat 4.0),
    (g2.scale l0 + g0.scale l2).scale (ofFloat 4.0)]

/-- The nodes of the quadratic functions: vertices, then edge midpoints. -/
def p2Nodes : Array (Vec2 ρ) :=
  #[⟨ofFloat 0.0, ofFloat 0.0⟩, ⟨ofFloat 1.0, ofFloat 0.0⟩, ⟨ofFloat 0.0, ofFloat 1.0⟩,
    ⟨ofFloat 0.5, ofFloat 0.0⟩, ⟨ofFloat 0.5, ofFloat 0.5⟩, ⟨ofFloat 0.0, ofFloat 0.5⟩]

/-- The local vertex pairs of the edges that carry the midpoint nodes `3`, `4` and `5`. -/
def p2Edges : Array (Nat × Nat) := #[(0, 1), (1, 2), (2, 0)]

/-- Values of the quadratic functions on `[-1, 1]`. -/
def segmentValues (t : ρ) : Array ρ :=
  #[ofFloat 0.5 * t * (t - ofFloat 1.0), ofFloat 0.5 * t * (t + ofFloat 1.0), ofFloat 1.0 - t * t]

/-- Derivatives of the quadratic functions on `[-1, 1]`. -/
def segmentGradients (t : ρ) : Array ρ := #[t - ofFloat 0.5, t + ofFloat 0.5, (-ofFloat 2.0) * t]

end MixedFem
