import MixedFem.Quadrature.Gauss
import MixedFem.Element.Lagrange
import MixedFem.Mesh.Topology
import MixedFem.Space

/-!
# Loads on facets and the dofs of facets

* `assembleFacetVector mesh t space facets traction` : the load vector `∫_Γ f · v ds` of the
  vector P2 space over the listed facets (repeats count again), by three-point Gauss quadrature on
  each facet, which is exact for quadratic tractions. The point of the facet `[a, b]` at `t` is
  `a (1 - t)/2 + b (1 + t)/2`, the Jacobian half its length, and each term adds
  `((w · h) · φₖ) · f_c` to dof `2 node + c`;
* `locateDofs space facets` : the dofs of the nodes of the facets, sorted, without repeats.
-/

namespace MixedFem

open RealScalar (ofFloat)

/-- The load vector of a traction over facets. -/
def assembleFacetVector {ρ : Type} [RealScalar ρ] (mesh : Mesh ρ) (t : Topology)
    (space : VectorP2Space) (facets : List Nat) (traction : Vec2 ρ → Vec2 ρ) :
    Except Violation (Array ρ) := do
  let half : ρ := Scalar.one / (Scalar.one + Scalar.one)
  let rule := (← gauss 3).mapPoints (ofFloat ∘ Binary64.ofFloat)
  facets.foldlM (fun vector facet => do
    let (a, b) ← Violation.get t.facets facet
    let (xa, xb) := (mesh.vertex a, mesh.vertex b)
    let halfLength := (xb - xa).norm * half
    let (n0, n1, n2) := space.facetNodesOf facet
    let nodes := #[n0, n1, n2]
    return (List.range rule.weights.size).foldl (fun vector q =>
      let w : ρ := ofFloat (Binary64.ofFloat rule.weights[q]!)
      let s := rule.points[q]!
      let x := xa.scale (half * (Scalar.one - s)) + xb.scale (half * (Scalar.one + s))
      let f := traction x
      let phi := segmentValues s
      (List.range 3).foldl (fun vector k =>
        let node := nodes[k]!
        let c := w * halfLength * phi[k]!
        (vector.modify (2 * node) (· + c * f.x)).modify (2 * node + 1) (· + c * f.y)) vector) vector)
    (Array.replicate (2 * space.numNodes) Scalar.zero)

/-- The sorted dofs of the nodes of the facets. -/
def locateDofs (space : VectorP2Space) (facets : List Nat) : Except Violation (Array Nat) := do
  let nodes ← facets.mapM fun f => do
    let (a, b, m) ← Violation.get space.facetNodes f
    return [a, b, m]
  let dofs := nodes.flatten.flatMap fun n => [2 * n, 2 * n + 1]
  return (dofs.mergeSort (· ≤ ·)).eraseDups.toArray

end MixedFem
