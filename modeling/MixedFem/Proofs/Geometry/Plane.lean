import Mathlib.Tactic.FieldSimp
import Mathlib.Tactic.Ring
import MixedFem.Proofs.Exact
import MixedFem.Geometry.Triangle

/-!
# Triangles in exact arithmetic

Read over an ordered field, the reference map of a triangle is `ξ ↦ v₀ + J ξ`, and the map back
exists exactly when `det J ≠ 0`; then the two are inverse to each other, and `contains` asks
that the barycentric coordinates `1 - ξ - η, ξ, η` of the reference point be at least
`-tolerance`.

* `Vec2.add_x`, …, `Vec2.ext_val` : components of plane vectors;
* `mul_adjugate_div`, `adjugate_div_mul` : the inverse of a `2 × 2` matrix by its adjugate;
* `Triangle.toPhysical_x`, `toPhysical_y` : the reference map;
* `Triangle.toReference?_eq`, `toReference?_eq_none_iff`, `toPhysical_of_toReference?`,
  `toReference?_toPhysical` : the map back;
* `Triangle.contains_iff` : the barycentric test.
-/

namespace MixedFem

section Vec2

variable {ρ : Type} [RealScalar ρ] (u v : Vec2 ρ) (s : ρ)

@[simp] theorem Vec2.add_x : (u + v).x = u.x + v.x := rfl

@[simp] theorem Vec2.add_y : (u + v).y = u.y + v.y := rfl

@[simp] theorem Vec2.sub_x : (u - v).x = u.x - v.x := rfl

@[simp] theorem Vec2.sub_y : (u - v).y = u.y - v.y := rfl

end Vec2

variable {K : Type}

/-- Two vectors of exact scalars are equal when their values are. -/
theorem Vec2.ext_val {u v : Vec2 (Exact K)} (hx : u.x.val = v.x.val) (hy : u.y.val = v.y.val) :
    u = v := by
  obtain ⟨ux, uy⟩ := u
  obtain ⟨vx, vy⟩ := v
  obtain rfl : ux = vx := Exact.ext hx
  obtain rfl : uy = vy := Exact.ext hy
  rfl

variable [Field K]

section Adjugate

variable {a b c e d : K}

/-- The adjugate over the determinant is a right inverse of `[[a, b], [c, e]]`. -/
theorem mul_adjugate_div (hd : d = a * e - c * b) (h0 : d ≠ 0) (p q : K) :
    a * ((e * p - b * q) / d) + b * ((a * q - c * p) / d) = p ∧
      c * ((e * p - b * q) / d) + e * ((a * q - c * p) / d) = q := by
  constructor <;> field_simp <;> rw [hd] <;> ring

/-- The adjugate over the determinant is a left inverse of `[[a, b], [c, e]]`. -/
theorem adjugate_div_mul (hd : d = a * e - c * b) (h0 : d ≠ 0) (u w : K) :
    (e * (a * u + b * w) - b * (c * u + e * w)) / d = u ∧
      (a * (c * u + e * w) - c * (a * u + b * w)) / d = w := by
  constructor <;> field_simp <;> rw [hd] <;> ring

end Adjugate

variable [LinearOrder K]

namespace Triangle

variable (t : Triangle (Exact K))

/-- The reference map in the field: `v₀ + J ξ`, `J` having the columns `v₁ - v₀`, `v₂ - v₀`. -/
@[simp] theorem toPhysical_x (xi : Vec2 (Exact K)) : (t.toPhysical xi).x.val =
    t.v0.x.val + ((t.v1.x.val - t.v0.x.val) * xi.x.val + (t.v2.x.val - t.v0.x.val) * xi.y.val) :=
  rfl

@[simp] theorem toPhysical_y (xi : Vec2 (Exact K)) : (t.toPhysical xi).y.val =
    t.v0.y.val + ((t.v1.y.val - t.v0.y.val) * xi.x.val + (t.v2.y.val - t.v0.y.val) * xi.y.val) :=
  rfl

/-- The determinant in the field. -/
theorem determinant_eq : t.determinant.val =
    (t.v1.x.val - t.v0.x.val) * (t.v2.y.val - t.v0.y.val) -
      (t.v1.y.val - t.v0.y.val) * (t.v2.x.val - t.v0.x.val) := rfl

/-- The reference point of `x`: `J⁻¹ (x - v₀)`, written with the adjugate. -/
theorem toReference?_eq (x : Vec2 (Exact K)) : t.toReference? x =
    if t.determinant.val = 0 then none else some
      ⟨Exact.mk (((t.v2.y.val - t.v0.y.val) * (x.x.val - t.v0.x.val) -
          (t.v2.x.val - t.v0.x.val) * (x.y.val - t.v0.y.val)) / t.determinant.val),
        Exact.mk (((t.v1.x.val - t.v0.x.val) * (x.y.val - t.v0.y.val) -
          (t.v1.y.val - t.v0.y.val) * (x.x.val - t.v0.x.val)) / t.determinant.val)⟩ := by
  have hdet : t.jacobian.det = t.determinant := rfl
  unfold toReference? Mat2.inverse?
  simp only [hdet, Exact.isZero_eq]
  by_cases hd : t.determinant.val = 0
  · simp [hd]
  · simp only [hd, decide_false, Bool.false_eq_true, if_false, Option.map_some]
    congr 1
    refine Vec2.ext_val ?_ ?_ <;>
      simp [Mat2.mulVec, determinant, jacobian, Mat2.ofColumns, Mat2.det] <;> ring

theorem toReference?_eq_none_iff {x : Vec2 (Exact K)} :
    t.toReference? x = none ↔ t.determinant.val = 0 := by
  rw [toReference?_eq]
  split_ifs with hd <;> simp [hd]

/-- The map back lands on a reference point that the reference map sends to `x`. -/
theorem toPhysical_of_toReference? {x xi : Vec2 (Exact K)} (h : t.toReference? x = some xi) :
    t.toPhysical xi = x := by
  rw [toReference?_eq] at h
  split_ifs at h with hd
  cases h
  obtain ⟨hx, hy⟩ := mul_adjugate_div t.determinant_eq hd (x.x.val - t.v0.x.val)
    (x.y.val - t.v0.y.val)
  refine Vec2.ext_val ?_ ?_
  · rw [toPhysical_x, Exact.val_mk, Exact.val_mk, hx]
    ring
  · rw [toPhysical_y, Exact.val_mk, Exact.val_mk, hy]
    ring

/-- On a triangle of nonzero determinant the map back undoes the reference map. -/
theorem toReference?_toPhysical (hdet : t.determinant.val ≠ 0) (xi : Vec2 (Exact K)) :
    t.toReference? (t.toPhysical xi) = some xi := by
  rw [toReference?_eq, if_neg hdet]
  obtain ⟨hx, hy⟩ := adjugate_div_mul t.determinant_eq hdet xi.x.val xi.y.val
  congr 1
  refine Vec2.ext_val ?_ ?_
  · rw [Exact.val_mk, toPhysical_x, toPhysical_y, add_sub_cancel_left, add_sub_cancel_left, hx]
  · rw [Exact.val_mk, toPhysical_x, toPhysical_y, add_sub_cancel_left, add_sub_cancel_left, hy]

/-- `x` passes the barycentric test when it has a reference point whose barycentric coordinates
are all at least `-tolerance`. -/
theorem contains_iff {x : Vec2 (Exact K)} {tol : Exact K} :
    t.contains x tol = true ↔ ∃ xi, t.toReference? x = some xi ∧
      -tol.val ≤ 1 - xi.x.val - xi.y.val ∧ -tol.val ≤ xi.x.val ∧ -tol.val ≤ xi.y.val := by
  unfold contains barycentric?
  cases h : t.toReference? x with
  | none => simp
  | some xi => simp [ge_iff_le, and_assoc]

end Triangle

end MixedFem
