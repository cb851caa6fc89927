import Mathlib.Tactic.Linarith
import Mathlib.Tactic.LinearCombination
import MixedFem.Proofs.Geometry.Plane

/-!
# The maps of an affine triangle are mutually inverse

Every question asked of a triangle goes through one guard: the inverse of the Jacobian exists
exactly when its determinant is nonzero, and then the reference map `ξ ↦ v₀ + J ξ`, the map back
`x ↦ J⁻¹ (x - v₀)`, the barycentric coordinates and `J⁻ᵀ` all agree. This holds for both
orientations: a clockwise triangle has a negative determinant and nothing else changes.

* `Triangle.InClosed` : a convex combination of the three vertices;
* `Triangle.inverseTranspose?_eq_none_iff`, `barycentric?_eq_none_iff` : the guard;
* `Triangle.toPhysical_toReference?` : the map back followed by the reference map;
* `Triangle.barycentric?_reconstructs` : the coordinates sum to one and give the point back;
* `Triangle.inverseTranspose?_mul_transpose` : `J⁻ᵀ Jᵀ = I`;
* `Triangle.contains_mono`, `Triangle.contains_zero_iff` : the containment test grows with the
  tolerance, and at tolerance zero it is membership in the closed triangle;
* `Triangle.Inverts`, `Triangle.affine_maps_inverse` : all of it.
-/

namespace MixedFem

variable {K : Type} [Field K] [LinearOrder K]

namespace Triangle

variable (t : Triangle (Exact K))

/-- `x` is a convex combination of the vertices: it lies in the closed triangle. -/
def InClosed (x : Vec2 (Exact K)) : Prop :=
  ∃ l0 l1 l2 : K, 0 ≤ l0 ∧ 0 ≤ l1 ∧ 0 ≤ l2 ∧ l0 + l1 + l2 = 1 ∧
    x.x.val = l0 * t.v0.x.val + l1 * t.v1.x.val + l2 * t.v2.x.val ∧
    x.y.val = l0 * t.v0.y.val + l1 * t.v1.y.val + l2 * t.v2.y.val

theorem inverseTranspose?_eq_none_iff : t.inverseTranspose? = none ↔ t.determinant.val = 0 := by
  have hdet : t.jacobian.det = t.determinant := rfl
  unfold inverseTranspose? Mat2.inverse?
  simp only [Option.map_eq_none_iff, hdet, Exact.isZero_eq]
  by_cases hd : t.determinant.val = 0 <;> simp [hd]

theorem barycentric?_eq_none_iff {x : Vec2 (Exact K)} :
    t.barycentric? x = none ↔ t.determinant.val = 0 := by
  rw [barycentric?, Option.map_eq_none_iff, toReference?_eq_none_iff]

/-- On a triangle of nonzero determinant every point has a reference point, which the reference
map sends back to it. -/
theorem toPhysical_toReference? (hdet : t.determinant.val ≠ 0) (x : Vec2 (Exact K)) :
    (t.toReference? x).map t.toPhysical = some x := by
  obtain ⟨xi, hxi⟩ := Option.ne_none_iff_exists'.1 (mt (toReference?_eq_none_iff t).1 hdet)
  rw [hxi, Option.map_some, toPhysical_of_toReference? t hxi]

/-- The barycentric coordinates of a point sum to one and give the point back as the combination
of the vertices. -/
theorem barycentric?_reconstructs {x : Vec2 (Exact K)} {l0 l1 l2 : Exact K}
    (h : t.barycentric? x = some (l0, l1, l2)) : l0.val + l1.val + l2.val = 1 ∧
      x.x.val = l0.val * t.v0.x.val + l1.val * t.v1.x.val + l2.val * t.v2.x.val ∧
      x.y.val = l0.val * t.v0.y.val + l1.val * t.v1.y.val + l2.val * t.v2.y.val := by
  obtain ⟨xi, hxi, hl⟩ := Option.map_eq_some_iff.1 h
  simp only [Prod.mk.injEq] at hl
  obtain ⟨rfl, rfl, rfl⟩ := hl
  have hx := toPhysical_of_toReference? t hxi
  refine ⟨by simp only [Exact.val_sub, Exact.val_one]; ring, ?_, ?_⟩
  · rw [← hx, toPhysical_x]
    simp
    ring
  · rw [← hx, toPhysical_y]
    simp
    ring

/-- `J⁻ᵀ Jᵀ = I`: the inverse transpose maps the reference gradients of the coordinates back. -/
theorem inverseTranspose?_mul_transpose (hdet : t.determinant.val ≠ 0) :
    ∃ M, t.inverseTranspose? = some M ∧
      M.mul t.jacobian.transpose = ⟨Exact.mk 1, Exact.mk 0, Exact.mk 0, Exact.mk 1⟩ := by
  have hz : Scalar.isZero t.jacobian.det = false := by
    simpa [show t.jacobian.det = t.determinant from rfl] using hdet
  refine ⟨_, by simp only [inverseTranspose?, Mat2.inverse?, hz]; rfl, ?_⟩
  have hd : t.determinant.val = t.jacobian.a00.val * t.jacobian.a11.val -
      t.jacobian.a10.val * t.jacobian.a01.val := rfl
  rw [← show t.jacobian.det = t.determinant from rfl] at hdet hd
  simp only [Mat2.mul, Mat2.transpose, Mat2.mk.injEq]
  generalize t.jacobian = J at hdet hd ⊢
  refine ⟨Exact.ext ?_, Exact.ext ?_, Exact.ext ?_, Exact.ext ?_⟩ <;> simp only [Exact.val_add,
    Exact.val_mul, Exact.val_div, Exact.val_neg, Exact.val_mk]
  -- the diagonal is `det / det`, the off-diagonal entries cancel
  · rw [show J.a11.val / J.det.val * J.a00.val + -J.a10.val / J.det.val * J.a01.val =
      (J.a00.val * J.a11.val - J.a10.val * J.a01.val) / J.det.val by ring, ← hd, div_self hdet]
  · ring
  · ring
  · rw [show -J.a01.val / J.det.val * J.a10.val + J.a00.val / J.det.val * J.a11.val =
      (J.a00.val * J.a11.val - J.a10.val * J.a01.val) / J.det.val by ring, ← hd, div_self hdet]

variable [IsStrictOrderedRing K]

/-- Every barycentric test passed at a tolerance is passed at every larger one. -/
theorem contains_mono {x : Vec2 (Exact K)} {tol tol' : Exact K} (hle : tol.val ≤ tol'.val)
    (h : t.contains x tol = true) : t.contains x tol' = true := by
  obtain ⟨xi, hxi, h0, h1, h2⟩ := (contains_iff t).1 h
  exact (contains_iff t).2 ⟨xi, hxi, by linarith, by linarith, by linarith⟩

/-- At tolerance zero a triangle of nonzero determinant contains exactly its closed set. -/
theorem contains_zero_iff (hdet : t.determinant.val ≠ 0)
    (x : Vec2 (Exact K)) : t.contains x (Exact.mk 0) = true ↔ t.InClosed x := by
  rw [contains_iff]
  constructor
  · rintro ⟨xi, hxi, h0, h1, h2⟩
    have hx := toPhysical_of_toReference? t hxi
    refine ⟨1 - xi.x.val - xi.y.val, xi.x.val, xi.y.val, by simpa using h0, by simpa using h1,
      by simpa using h2, by ring, ?_, ?_⟩
    · rw [← hx, toPhysical_x]
      ring
    · rw [← hx, toPhysical_y]
      ring
  · -- the reference point of a combination is its last two weights
    rintro ⟨l0, l1, l2, h0, h1, h2, hsum, hx, hy⟩
    have hpt : t.toPhysical ⟨Exact.mk l1, Exact.mk l2⟩ = x := by
      refine Vec2.ext_val ?_ ?_
      · rw [toPhysical_x, hx]
        simp only [Exact.val_mk]
        linear_combination (-t.v0.x.val) * hsum
      · rw [toPhysical_y, hy]
        simp only [Exact.val_mk]
        linear_combination (-t.v0.y.val) * hsum
    refine ⟨_, hpt ▸ toReference?_toPhysical t hdet _, ?_, ?_, ?_⟩
    · simp only [Exact.val_mk, neg_zero]
      linarith
    · simpa using h1
    · simpa using h2

/-- How the maps of a triangle of nonzero determinant fit together, read in the field. -/
structure Inverts (t : Triangle (Exact K)) : Prop where
  toReference_toPhysical : ∀ xi, t.toReference? (t.toPhysical xi) = some xi
  toPhysical_toReference : ∀ x, (t.toReference? x).map t.toPhysical = some x
  /-- The barycentric coordinates exist, sum to one and give the point back. -/
  barycentric : ∀ x, ∃ l0 l1 l2 : Exact K, t.barycentric? x = some (l0, l1, l2) ∧
    l0.val + l1.val + l2.val = 1 ∧
    x.x.val = l0.val * t.v0.x.val + l1.val * t.v1.x.val + l2.val * t.v2.x.val ∧
    x.y.val = l0.val * t.v0.y.val + l1.val * t.v1.y.val + l2.val * t.v2.y.val
  inverseTranspose : ∃ M, t.inverseTranspose? = some M ∧
    M.mul t.jacobian.transpose = ⟨Exact.mk 1, Exact.mk 0, Exact.mk 0, Exact.mk 1⟩
  contains_mono : ∀ x (tol tol' : Exact K), tol.val ≤ tol'.val → t.contains x tol = true →
    t.contains x tol' = true
  /-- At tolerance zero the test is membership in the closed triangle. -/
  contains_zero : ∀ x, t.contains x (Exact.mk 0) = true ↔ t.InClosed x

/-- The map back, the inverse transpose and the barycentric coordinates of a triangle are refused
exactly when its determinant is zero; otherwise the reference map and the map back are inverse to
each other, the barycentric coordinates are an affine partition of unity, `J⁻ᵀ Jᵀ = I`, and the
containment test is monotone in the tolerance and at zero tolerance is the closed triangle. -/
theorem affine_maps_inverse :
    (∀ x, t.toReference? x = none ↔ t.determinant.val = 0) ∧
      (t.inverseTranspose? = none ↔ t.determinant.val = 0) ∧
      (∀ x, t.barycentric? x = none ↔ t.determinant.val = 0) ∧
      (t.determinant.val ≠ 0 → t.Inverts) := by
  refine ⟨fun x => toReference?_eq_none_iff t, inverseTranspose?_eq_none_iff t,
    fun x => barycentric?_eq_none_iff t, fun hdet => ⟨toReference?_toPhysical t hdet,
      toPhysical_toReference? t hdet, fun x => ?_, inverseTranspose?_mul_transpose t hdet,
      fun x tol tol' hle h => contains_mono t hle h, contains_zero_iff t hdet⟩⟩
  obtain ⟨⟨l0, l1, l2⟩, hb⟩ := Option.ne_none_iff_exists'.1 (mt (barycentric?_eq_none_iff t).1 hdet)
  exact ⟨l0, l1, l2, hb, barycentric?_reconstructs t hb⟩

/-- The clockwise triangle `(0, 0), (0, 1), (1, 0)`, of determinant `-1`. -/
theorem affine_maps_inverse_clockwise :
    let t : Triangle (Exact ℚ) := ⟨⟨.mk 0, .mk 0⟩, ⟨.mk 0, .mk 1⟩, ⟨.mk 1, .mk 0⟩⟩
    t.determinant.val = -1 ∧ t.Inverts := by
  intro t
  have hdet : t.determinant.val = -1 := by decide +kernel
  exact ⟨hdet, (affine_maps_inverse t).2.2.2 (by rw [hdet]; norm_num)⟩

end Triangle

end MixedFem
