import MixedFem.Geometry.Vec2
import MixedFem.Violation

/-!
# Linear elastic materials

* `Lame` : the Lamé parameters `μ, λ`; `Lame.ofYoungPoisson` : `μ = E / (2 (1 + ν))`,
  `λ = 2 μ ν / (1 - 2 ν)`, unchecked;
* `PlaneStress ρ` : a plane-stress material with `E > 0` and `-1 < ν < 1`, made by
  `PlaneStress.make`;
* `PlaneStress.lame` : `μ = E / (2 (1 + ν))`, `λ = E ν / (1 - ν²)`;
* `PlaneStress.stress` : `E / (1 - ν²) ((1 - ν) ε + ν tr(ε) I)`;
* `PlaneStress.stressOfGradient` : the stress of the symmetric part of a displacement gradient;
* `PlaneStress.contraction a b` : `μ (a·b I + b aᵀ) + λ a bᵀ`, the stiffness between two
  gradients.
-/

namespace MixedFem

open RealScalar (ofFloat)

/-- Lamé parameters. -/
structure Lame (ρ : Type) where
  mu : ρ
  lambda : ρ

/-- Lamé parameters of a three-dimensional material. -/
def Lame.ofYoungPoisson {ρ : Type} [RealScalar ρ] (young poisson : ρ) : Lame ρ :=
  let mu := ofFloat 0.5 * young / (ofFloat 1.0 + poisson)
  ⟨mu, ofFloat 2.0 * mu * poisson / (ofFloat 1.0 - ofFloat 2.0 * poisson)⟩

/-- A plane-stress material. -/
structure PlaneStress (ρ : Type) where
  young : ρ
  poisson : ρ
  deriving Inhabited

namespace PlaneStress

variable {ρ : Type} [RealScalar ρ]

/-- The material, if `E > 0` and `-1 < ν < 1`. -/
def make (young poisson : ρ) : Except Violation (PlaneStress ρ) := do
  Violation.require (decide (young > ofFloat 0.0)) "Young's modulus must be positive"
  Violation.require (decide (poisson > -ofFloat 1.0) && decide (poisson < ofFloat 1.0))
    "Poisson ratio must be in (-1, 1)"
  return ⟨young, poisson⟩

/-- The plane-stress Lamé parameters. -/
def lame (m : PlaneStress ρ) : Lame ρ :=
  ⟨ofFloat 0.5 * m.young / (ofFloat 1.0 + m.poisson),
    m.young * m.poisson / (ofFloat 1.0 - m.poisson * m.poisson)⟩

/-- The stress of a strain. -/
def stress (m : PlaneStress ρ) (strain : Mat2 ρ) : Mat2 ρ :=
  let scale := m.young / (ofFloat 1.0 - m.poisson * m.poisson)
  (strain.scale (ofFloat 1.0 - m.poisson) + Mat2.scaledIdentity (m.poisson * strain.trace)).scale scale

/-- The stress of the symmetric part of a displacement gradient. -/
def stressOfGradient (m : PlaneStress ρ) (g : Mat2 ρ) : Mat2 ρ :=
  m.stress ((g + g.transpose).scale (ofFloat 0.5))

/-- `μ (a·b I + b aᵀ) + λ a bᵀ`. -/
def contraction (m : PlaneStress ρ) (a b : Vec2 ρ) : Mat2 ρ :=
  let l := m.lame
  (Mat2.scaledIdentity (a.dot b) + b.outer a).scale l.mu + (a.outer b).scale l.lambda

end PlaneStress

end MixedFem
