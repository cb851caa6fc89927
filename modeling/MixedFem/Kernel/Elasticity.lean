import MixedFem.Kernel.Basic
import MixedFem.Element.Lagrange
import MixedFem.Material
import MixedFem.Quadrature.Triangle

/-!
# Element tensors of mixed plane elasticity

Stresses are discontinuous and linear, with three components each in the basis `symBasis`;
displacements are continuous and quadratic, with two components. All four tensors are
integrated with the strength-2 rule on the reference triangle, weighted by `|det J|`.

* `stressMass` (9 × 9) : `∫ ψ_a ψ_b (E_c : E_c)` on matching components;
* `strainStress m` (9 × 12) : `-∫ ψ_a (σ(e_m ⊗ ∇φ_b) : E_c)`;
* `stressDivergence` (12 × 9) : `-∫ ψ_b (E_d row l · ∇φ_a)`;
* `displacementStiffness m` (12 × 12) : `-∫ C(∇φ_a, ∇φ_b)`, in 2 × 2 blocks;
* `cellGeometry` : `|det J|` and `J⁻ᵀ`, refusing a zero or non-finite determinant.
-/

namespace MixedFem

open RealScalar (ofFloat)

variable {ρ : Type} [RealScalar ρ]

/-- The symmetric basis tensors `E₀ = e₀⊗e₀`, `E₁ = e₁⊗e₁`, `E₂ = e₀⊗e₁ + e₁⊗e₀`. -/
def symBasis (c : Nat) : Mat2 ρ :=
  let (o, l) := ((Scalar.zero : ρ), (Scalar.one : ρ))
  if c = 0 then ⟨l, o, o, o⟩ else if c = 1 then ⟨o, o, o, l⟩ else ⟨o, l, l, o⟩

/-- `|det J|` and `J⁻ᵀ` of a cell. -/
def cellGeometry (cell : CellData ρ) : Except TabulationError (ρ × Mat2 ρ) := do
  let det := cell.triangle.determinant
  if Scalar.isZero det || !Scalar.isFinite det then throw (.degenerateCell cell.index)
  match cell.triangle.inverseTranspose? with
  | some it => pure (RealScalar.abs det, it)
  | none => throw (.degenerateCell cell.index)

/-- The quadrature points and weights of the element tensors: the strength-2 rule, each value
converted from `Float`. -/
def elementRule : List (ρ × Vec2 ρ) :=
  match triangleRule 2 with
  | .ok r => (r.weights.zip r.points).toList.map fun (w, (x, y)) => (ofFloat w, ⟨ofFloat x, ofFloat y⟩)
  | .error _ => []

/-- Physical gradients of the quadratic shape functions. -/
def physicalP2Gradients (invT : Mat2 ρ) (xi : Vec2 ρ) : Array (Vec2 ρ) := (p2Gradients xi).map invT.mulVec

/-- The stress mass tensor. -/
def stressMass : ElementKernel ρ where
  shape := (9, 9)
  compute cell := do
    let (det, _) ← cellGeometry cell
    let norms := #[0, 1, 2].map fun c => (symBasis (ρ := ρ) c).contract (symBasis c)
    return Id.run do
      let mut out : Matrix ρ := Matrix.zeros 9 9
      for (w, xi) in elementRule (ρ := ρ) do
        let psi := p1Values xi
        for a in [0:3] do
          for b in [0:3] do
            let mab := w * det * psi[a]! * psi[b]!
            for c in [0:3] do
              out := out.addAt (3 * a + c) (3 * b + c) (mab * norms[c]!)
      return out

/-- The strain–stress coupling tensor. -/
def strainStress (m : PlaneStress ρ) : ElementKernel ρ where
  shape := (9, 12)
  compute cell := do
    let (det, invT) ← cellGeometry cell
    return Id.run do
      let mut out : Matrix ρ := Matrix.zeros 9 12
      for (w, xi) in elementRule (ρ := ρ) do
        let psi := p1Values xi
        let grads := physicalP2Gradients invT xi
        for b in [0:6] do
          let g := grads[b]!
          for k in [0:2] do
            let e : Vec2 ρ := if k = 0 then ⟨Scalar.one, Scalar.zero⟩ else ⟨Scalar.zero, Scalar.one⟩
            let sigma := m.stressOfGradient (e.outer g)
            for c in [0:3] do
              let tau := sigma.contract (symBasis c)
              for a in [0:3] do
                out := out.subAt (3 * a + c) (2 * b + k) (w * det * psi[a]! * tau)
      return out

/-- The stress divergence tensor. -/
def stressDivergence : ElementKernel ρ where
  shape := (12, 9)
  compute cell := do
    let (det, invT) ← cellGeometry cell
    return Id.run do
      let mut out : Matrix ρ := Matrix.zeros 12 9
      for (w, xi) in elementRule (ρ := ρ) do
        let psi := p1Values xi
        let grads := physicalP2Gradients invT xi
        for d in [0:3] do
          let e : Mat2 ρ := symBasis d
          for a in [0:6] do
            for l in [0:2] do
              let contraction := (e.row l).dot grads[a]!
              for b in [0:3] do
                out := out.subAt (2 * a + l) (3 * b + d) (w * det * psi[b]! * contraction)
      return out

/-- The displacement stiffness tensor. -/
def displacementStiffness (m : PlaneStress ρ) : ElementKernel ρ where
  shape := (12, 12)
  compute cell := do
    let (det, invT) ← cellGeometry cell
    return Id.run do
      let mut out : Matrix ρ := Matrix.zeros 12 12
      for (w, xi) in elementRule (ρ := ρ) do
        let grads := physicalP2Gradients invT xi
        for a in [0:6] do
          for b in [0:6] do
            let blk := (m.contraction grads[a]! grads[b]!).scale (w * det)
            out := out.subAt (2 * a) (2 * b) blk.a00
            out := out.subAt (2 * a) (2 * b + 1) blk.a01
            out := out.subAt (2 * a + 1) (2 * b) blk.a10
            out := out.subAt (2 * a + 1) (2 * b + 1) blk.a11
      return out

/-- The condensed displacement tensor of the mixed formulation. -/
def condensedElasticity (settings : CondensationSettings ρ) (m : PlaneStress ρ) :
    Except CondensationError (ElementKernel ρ) :=
  ElementKernel.condensed settings stressMass (strainStress m) stressDivergence

end MixedFem
