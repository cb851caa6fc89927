import MixedFem.Scalar

/-!
# Vectors and 2 × 2 matrices in the plane

* `Vec2 ρ`, `Mat2 ρ` : plane vectors and 2 × 2 matrices over an ordered scalar;
* `Vec2.dot` : `x x' + y y'`; `Mat2.mulVec`, `Mat2.mul` : row by column, the two products of a
  row added in order;
* `Mat2.det` : `a₀₀ a₁₁ - a₁₀ a₀₁`; `Mat2.inverse?` : the adjugate over the determinant, `none`
  when the determinant is zero;
* `Mat2.trace` : `(0 + a₀₀) + a₁₁`; `Mat2.contract` : `Σ aᵢⱼ bᵢⱼ` from zero, column by column;
  `Mat2.scaledIdentity s` : the entries `1·s`, `0·s`;
* `Vec2.outer a b` : the matrix `a bᵀ`;
* `Vec2.inf`, `Vec2.sup` : componentwise the first value unless the second is below (above) it;
  a NaN is kept in the first place and replaced in the second.
-/

namespace MixedFem

/-- A vector of the plane. -/
structure Vec2 (ρ : Type) where
  x : ρ
  y : ρ
  deriving Inhabited

/-- A 2 × 2 matrix, by rows. -/
structure Mat2 (ρ : Type) where
  a00 : ρ
  a01 : ρ
  a10 : ρ
  a11 : ρ
  deriving Inhabited

namespace Vec2

variable {ρ : Type} [RealScalar ρ]

instance : Add (Vec2 ρ) := ⟨fun a b => ⟨a.x + b.x, a.y + b.y⟩⟩
instance : Sub (Vec2 ρ) := ⟨fun a b => ⟨a.x - b.x, a.y - b.y⟩⟩
instance : Neg (Vec2 ρ) := ⟨fun a => ⟨-a.x, -a.y⟩⟩

/-- The zero vector. -/
def zero : Vec2 ρ := ⟨Scalar.zero, Scalar.zero⟩

/-- The vector scaled by `s` from the right. -/
def scale (a : Vec2 ρ) (s : ρ) : Vec2 ρ := ⟨a.x * s, a.y * s⟩

/-- The dot product. -/
def dot (a b : Vec2 ρ) : ρ := a.x * b.x + a.y * b.y

/-- The Euclidean length. -/
def norm (a : Vec2 ρ) : ρ := RealScalar.sqrt (a.dot a)

/-- The matrix `a bᵀ`. -/
def outer (a b : Vec2 ρ) : Mat2 ρ := ⟨a.x * b.x, a.x * b.y, a.y * b.x, a.y * b.y⟩

/-- Componentwise least: `a` where `a ≤ b`, `b` otherwise. -/
def inf (a b : Vec2 ρ) : Vec2 ρ :=
  ⟨if a.x ≤ b.x then a.x else b.x, if a.y ≤ b.y then a.y else b.y⟩

/-- Componentwise greatest: `a` where `b ≤ a`, `b` otherwise. -/
def sup (a b : Vec2 ρ) : Vec2 ρ :=
  ⟨if b.x ≤ a.x then a.x else b.x, if b.y ≤ a.y then a.y else b.y⟩

end Vec2

namespace Mat2

variable {ρ : Type} [RealScalar ρ]

instance : Add (Mat2 ρ) := ⟨fun a b => ⟨a.a00 + b.a00, a.a01 + b.a01, a.a10 + b.a10, a.a11 + b.a11⟩⟩
instance : Sub (Mat2 ρ) := ⟨fun a b => ⟨a.a00 - b.a00, a.a01 - b.a01, a.a10 - b.a10, a.a11 - b.a11⟩⟩

/-- The matrix with columns `c₀` and `c₁`. -/
def ofColumns (c0 c1 : Vec2 ρ) : Mat2 ρ := ⟨c0.x, c1.x, c0.y, c1.y⟩

/-- Column `j`. -/
def col (m : Mat2 ρ) (j : Nat) : Vec2 ρ := if j = 0 then ⟨m.a00, m.a10⟩ else ⟨m.a01, m.a11⟩

/-- Row `i`. -/
def row (m : Mat2 ρ) (i : Nat) : Vec2 ρ := if i = 0 then ⟨m.a00, m.a01⟩ else ⟨m.a10, m.a11⟩

/-- Every entry scaled by `s` from the right. -/
def scale (m : Mat2 ρ) (s : ρ) : Mat2 ρ := ⟨m.a00 * s, m.a01 * s, m.a10 * s, m.a11 * s⟩

/-- The transpose. -/
def transpose (m : Mat2 ρ) : Mat2 ρ := ⟨m.a00, m.a10, m.a01, m.a11⟩

/-- The identity scaled by `s`: `1·s` on the diagonal, `0·s` off it. -/
def scaledIdentity (s : ρ) : Mat2 ρ :=
  ⟨Scalar.one * s, Scalar.zero * s, Scalar.zero * s, Scalar.one * s⟩

/-- `m v`. -/
def mulVec (m : Mat2 ρ) (v : Vec2 ρ) : Vec2 ρ :=
  ⟨m.a00 * v.x + m.a01 * v.y, m.a10 * v.x + m.a11 * v.y⟩

/-- `a b`. -/
def mul (a b : Mat2 ρ) : Mat2 ρ :=
  ⟨a.a00 * b.a00 + a.a01 * b.a10, a.a00 * b.a01 + a.a01 * b.a11,
   a.a10 * b.a00 + a.a11 * b.a10, a.a10 * b.a01 + a.a11 * b.a11⟩

/-- The determinant. -/
def det (m : Mat2 ρ) : ρ := m.a00 * m.a11 - m.a10 * m.a01

/-- The inverse, `none` for a zero determinant. -/
def inverse? (m : Mat2 ρ) : Option (Mat2 ρ) :=
  let d := m.det
  if Scalar.isZero d then none else some ⟨m.a11 / d, -m.a01 / d, -m.a10 / d, m.a00 / d⟩

/-- The trace, summed from zero. -/
def trace (m : Mat2 ρ) : ρ := Scalar.zero + m.a00 + m.a11

/-- The contraction `Σ aᵢⱼ bᵢⱼ`, summed from zero with the entries taken column by column. -/
def contract (a b : Mat2 ρ) : ρ :=
  Scalar.zero + a.a00 * b.a00 + a.a10 * b.a10 + a.a01 * b.a01 + a.a11 * b.a11

end Mat2

end MixedFem
