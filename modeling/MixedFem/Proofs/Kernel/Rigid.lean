import Mathlib.LinearAlgebra.Dimension.Constructions
import Mathlib.LinearAlgebra.FiniteDimensional.Lemmas
import MixedFem.Proofs.Kernel.Energy
import MixedFem.Proofs.Geometry.Plane

/-!
# The null space of the displacement stiffness

On a cell of nonzero determinant and for an admissible material, the displacement stiffness `A`
is symmetric, `-A` is positive semidefinite, and `A U = 0` exactly when `U` holds the values of a
rigid motion `x ↦ c + w (-x_y, x_x)` at the six quadratic nodes of the cell: the null space has
dimension three.

`A U = 0` says that the strain of `U` vanishes at the three points of the rule. Pulled back to
the reference triangle by `J`, nodal values `V_a = Jᵀ u_a` and reference gradients `ĝ_a = Jᵀ g_a`
give the gradient `Jᵀ G J`, skew exactly when `G` is. The reference gradients of the quadratic
functions are affine, so the skew part of the gradient, vanishing at three points that are not
on a line, vanishes at the vertices, where the gradients are integers; there nine equations
leave `V` the values of a rigid motion, and since `Jᵀ R J = det J · R` for the rotation `R`, so
does `U`.

* `ofNodal`, `rigidMotion`, `refGrad` : nodal values, rigid motions, and the gradients of the
  quadratic functions on the reference triangle;
* `isSkew_refGrad_iff` : reference nodal values of zero strain at the points of the rule are those
  of a rigid motion;
* `congrTensor`, `isSkew_congrTensor_iff`, `dispGrad_pullback`, `pullback_rigid_iff` : the
  transport to the reference triangle;
* `isSkew_ruleGradVals_iff` : on a cell, nodal values of zero strain at the points of the rule
  are those of a rigid motion;
* `rigidInterpolant`, `rigidInterpolant_injective` : the rigid motions at the nodes of a cell, a
  linear map, injective on a cell of nonzero determinant;
* `rigidMotion_eq_zero_of_ne`, `Triangle.toPhysical_vertex_ne` : a rigid motion vanishing at two
  corners of a triangle of nonzero determinant is zero;
* `displacementStiffness_tabulate_rigid`, `displacementStiffness_rigid_kernel` : the stiffness of a
  cell, its sign and its null space.
-/

open scoped Matrix

namespace MixedFem

open Finset

/-- Nodal values, interleaved as `2 a + l`, from their node `a` and component `l`. -/
def ofNodal {α : Type} (f : Fin 6 → Fin 2 → α) (i : Fin 12) : α :=
  f ⟨i / 2, by omega⟩ ⟨i % 2, by omega⟩

@[simp] theorem ofNodal_dof {α : Type} (f : Fin 6 → Fin 2 → α) (a : Fin 6) (l : Fin 2) :
    ofNodal f (dof a l) = f a l := by
  unfold ofNodal
  congr 1 <;> ext <;> simp

variable {K : Type} [Field K] [LinearOrder K]

/-! ## The reference triangle -/

/-- The rigid motion `x ↦ c + w (-x_y, x_x)` at the point `x`. -/
def rigidMotion (c : K × K) (w : K) (x : Vec2 (Exact K)) : Fin 2 → K :=
  ![c.1 - w * x.y.val, c.2 + w * x.x.val]

/-- The gradients of the six quadratic functions at `(x, y)` on the reference triangle. -/
def refGrad (x y : K) : Fin 6 → Fin 2 → K :=
  ![![1 - 4 * (1 - x - y), 1 - 4 * (1 - x - y)], ![4 * x - 1, 0], ![0, 4 * y - 1],
    ![4 * (1 - x - y - x), -(4 * x)], ![4 * y, 4 * x], ![-(4 * y), 4 * (1 - x - y - y)]]

omit [LinearOrder K] in
/-- The reference gradients are affine: at `(x, y)` they combine their values at the vertices
with the weights `1 - x - y`, `x`, `y`. -/
theorem dispGrad_refGrad (x y : K) (V : Fin 12 → K) (l k : Fin 2) :
    dispGrad (refGrad x y) V l k = (1 - x - y) * dispGrad (refGrad 0 0) V l k +
      x * dispGrad (refGrad 1 0) V l k + y * dispGrad (refGrad 0 1) V l k := by
  have h : ∀ a, refGrad x y a k =
      (1 - x - y) * refGrad 0 0 a k + x * refGrad 1 0 a k + y * refGrad 0 1 a k := by
    intro a
    fin_cases a <;> fin_cases k <;> simp [refGrad] <;> ring
  simp only [dispGrad, h, mul_add, sum_add_distrib, mul_sum]
  congr 1
  congr 1
  all_goals exact sum_congr rfl fun a _ => by ring

variable [IsStrictOrderedRing K]

/-- The values of a rigid motion at the nodes have a skew gradient everywhere. -/
theorem isSkew_of_rigid {V : Fin 12 → K} {c : K × K} {w : K}
    (hV : ∀ a l, V (dof a l) = rigidMotion c w (p2Nodes[a.val]!) l) (x y : K) :
    IsSkew (dispGrad (refGrad x y) V) := by
  rw [isSkew_iff]
  simp only [dispGrad, Fin.sum_univ_succ, Fin.sum_univ_zero, hV]
  simp [rigidMotion, p2Nodes, refGrad]
  refine ⟨?_, ?_, ?_⟩ <;> ring

/-- At the vertices the reference gradients are integers, and nine equations say that the skew
parts vanish: they leave the values of a rigid motion, translated by `V₀` and turned by
`V₁,₁ - V₀,₁`. -/
theorem rigid_of_isSkew_vertices {V : Fin 12 → K}
    (h0 : IsSkew (dispGrad (refGrad 0 0) V)) (h1 : IsSkew (dispGrad (refGrad 1 0) V))
    (h2 : IsSkew (dispGrad (refGrad 0 1) V)) :
    ∃ c w, ∀ a l, V (dof a l) = rigidMotion c w (p2Nodes[a.val]!) l := by
  rw [isSkew_iff] at h0 h1 h2
  simp [dispGrad, Fin.sum_univ_succ, refGrad] at h0 h1 h2
  obtain ⟨e1, e2, e3⟩ := h0
  obtain ⟨e4, e5, e6⟩ := h1
  obtain ⟨e7, e8, e9⟩ := h2
  refine ⟨(V (dof 0 0), V (dof 0 1)), V (dof 1 1) - V (dof 0 1), fun a l => ?_⟩
  fin_cases a <;> fin_cases l <;> simp [rigidMotion, p2Nodes] <;> linarith

/-- An affine function vanishing at the three points of the rule vanishes at the vertices: the
points are not on a line. -/
theorem rulePoint_affine_eq_zero {z0 z1 z2 : K}
    (h : ∀ q < 3, (1 - (rulePoint (K := K) q).2.x.val - (rulePoint (K := K) q).2.y.val) * z0 +
      (rulePoint (K := K) q).2.x.val * z1 + (rulePoint (K := K) q).2.y.val * z2 = 0) :
    z0 = 0 ∧ z1 = 0 ∧ z2 = 0 := by
  have hab : ((floatValue ruleB : ℚ) : K) - floatValue ruleA ≠ 0 :=
    sub_ne_zero.2 fun he => floatValue_ruleA_ne_ruleB (Rat.cast_injective he).symm
  have e0 := h 0 (by omega)
  have e1 := h 1 (by omega)
  have e2 := h 2 (by omega)
  simp only [rulePoint_val, refPoint] at e0 e1 e2
  norm_num at e0 e1 e2
  -- the second and third points give `z₁ = z₂`, the first and second `z₁ = z₀`
  have h12 : ((floatValue ruleB : K) - floatValue ruleA) * (z1 - z2) = 0 := by
    linear_combination e1 - e2
  have h10 : ((floatValue ruleB : K) - floatValue ruleA) * (z1 - z0) = 0 := by
    linear_combination e1 - e0
  have hz12 := sub_eq_zero.1 ((mul_eq_zero.1 h12).resolve_left hab)
  have hz10 := sub_eq_zero.1 ((mul_eq_zero.1 h10).resolve_left hab)
  have hz0 : z0 = 0 := by linear_combination e0 - (floatValue ruleA : K) * (2 * hz10 - hz12)
  refine ⟨hz0, ?_, ?_⟩
  · rw [hz10, hz0]
  · rw [← hz12, hz10, hz0]

/-- Reference nodal values whose strain vanishes at the three points of the rule are the values
of a rigid motion at the nodes, and conversely. -/
theorem isSkew_refGrad_iff (V : Fin 12 → K) :
    (∀ q < 3, IsSkew (dispGrad (refGrad (rulePoint q).2.x.val (rulePoint q).2.y.val) V)) ↔
      ∃ c w, ∀ a l, V (dof a l) = rigidMotion c w (p2Nodes[a.val]!) l := by
  constructor
  · intro h
    -- each entry of the skew part is affine in the point, and vanishes at the three points
    have hv : ∀ l k, (dispGrad (refGrad 0 0) V l k + dispGrad (refGrad 0 0) V k l = 0) ∧
        (dispGrad (refGrad 1 0) V l k + dispGrad (refGrad 1 0) V k l = 0) ∧
        (dispGrad (refGrad 0 1) V l k + dispGrad (refGrad 0 1) V k l = 0) := by
      intro l k
      refine rulePoint_affine_eq_zero fun q hq => ?_
      have hs := h q hq l k
      rw [dispGrad_refGrad, dispGrad_refGrad _ _ _ k l] at hs
      linear_combination hs
    exact rigid_of_isSkew_vertices (fun l k => (hv l k).1) (fun l k => (hv l k).2.1)
      (fun l k => (hv l k).2.2)
  · rintro ⟨c, w, hV⟩ q _
    exact isSkew_of_rigid hV _ _

/-! ## The transport to the reference triangle -/

/-- The tensor `Pᵀ G P`. -/
def congrTensor (P G : Fin 2 → Fin 2 → K) (p m : Fin 2) : K := ∑ l, ∑ k, P l p * P k m * G l k

/-- `Pᵀ G P` is skew with `G`. -/
theorem isSkew_congrTensor (P : Fin 2 → Fin 2 → K) {G : Fin 2 → Fin 2 → K} (h : IsSkew G) :
    IsSkew (congrTensor P G) := by
  obtain ⟨h00, h11, h01⟩ := (isSkew_iff G).1 h
  intro p m
  simp only [congrTensor, Fin.sum_univ_two]
  linear_combination 2 * P 0 p * P 0 m * h00 + (P 0 p * P 1 m + P 0 m * P 1 p) * h01 +
    2 * P 1 p * P 1 m * h11

/-- For an invertible `P`, `Pᵀ G P` is skew exactly when `G` is: the adjugate takes it back to
`(det P)² G`. -/
theorem isSkew_congrTensor_iff {P : Fin 2 → Fin 2 → K} (hP : P 0 0 * P 1 1 - P 1 0 * P 0 1 ≠ 0)
    (G : Fin 2 → Fin 2 → K) : IsSkew (congrTensor P G) ↔ IsSkew G := by
  refine ⟨fun h l k => ?_, isSkew_congrTensor P⟩
  have hadj : ∀ l k, congrTensor ![![P 1 1, -P 0 1], ![-P 1 0, P 0 0]] (congrTensor P G) l k =
      (P 0 0 * P 1 1 - P 1 0 * P 0 1) ^ 2 * G l k := by
    intro l k
    fin_cases l <;> fin_cases k <;> simp [congrTensor, Fin.sum_univ_two] <;> ring
  have hs := isSkew_congrTensor ![![P 1 1, -P 0 1], ![-P 1 0, P 0 0]] h l k
  rw [hadj, hadj, ← mul_add] at hs
  exact (mul_eq_zero.1 hs).resolve_left (pow_ne_zero 2 hP)

omit [LinearOrder K] [IsStrictOrderedRing K] in
/-- With reference gradients `Pᵀ g_a`, the nodal values `Pᵀ u_a` have the gradient `Pᵀ G P`. -/
theorem dispGrad_pullback {P : Fin 2 → Fin 2 → K} {g gr : Fin 6 → Fin 2 → K}
    (hg : ∀ a m, ∑ k, P k m * g a k = gr a m) (U : Fin 12 → K) :
    dispGrad gr (ofNodal fun a p => ∑ l, P l p * U (dof a l)) = congrTensor P (dispGrad g U) := by
  funext p m
  simp only [dispGrad, congrTensor, ofNodal_dof, ← hg, Fin.sum_univ_two, mul_sum,
    ← sum_add_distrib]
  exact sum_congr rfl fun a _ => by ring

omit [LinearOrder K] [IsStrictOrderedRing K] in
/-- `Pᵀ u = v` is solved by `u = P⁻ᵀ v`. -/
theorem transpose_solve {P : Fin 2 → Fin 2 → K} (hP : P 0 0 * P 1 1 - P 1 0 * P 0 1 ≠ 0)
    {u0 u1 v0 v1 : K} (h0 : P 0 0 * u0 + P 1 0 * u1 = v0) (h1 : P 0 1 * u0 + P 1 1 * u1 = v1) :
    u0 = (P 1 1 * v0 - P 1 0 * v1) / (P 0 0 * P 1 1 - P 1 0 * P 0 1) ∧
      u1 = (P 0 0 * v1 - P 0 1 * v0) / (P 0 0 * P 1 1 - P 1 0 * P 0 1) := by
  rw [eq_div_iff hP, eq_div_iff hP]
  constructor
  · linear_combination P 1 1 * h0 - P 1 0 * h1
  · linear_combination P 0 0 * h1 - P 0 1 * h0

omit [LinearOrder K] [IsStrictOrderedRing K] in
/-- With nodes `x_a = v₀ + P ξ_a`, nodal values are those of a rigid motion at the `x_a` exactly
when their images `Pᵀ u_a` are those of a rigid motion at the `ξ_a`: `Pᵀ R P = det P · R` for the
rotation `R`. -/
theorem pullback_rigid_iff {P : Fin 2 → Fin 2 → K} (hP : P 0 0 * P 1 1 - P 1 0 * P 0 1 ≠ 0)
    {v0 : Vec2 (Exact K)} {ξ x : Fin 6 → Vec2 (Exact K)}
    (hx : ∀ a l, (x a).vals l = v0.vals l + ∑ p, P l p * (ξ a).vals p) (U : Fin 12 → K) :
    (∃ c w, ∀ a p, ∑ l, P l p * U (dof a l) = rigidMotion c w (ξ a) p) ↔
      ∃ c w, ∀ a l, U (dof a l) = rigidMotion c w (x a) l := by
  have hxy : ∀ a, (x a).x.val = v0.x.val + (P 0 0 * (ξ a).x.val + P 0 1 * (ξ a).y.val) ∧
      (x a).y.val = v0.y.val + (P 1 0 * (ξ a).x.val + P 1 1 * (ξ a).y.val) := fun a =>
    ⟨by simpa [Vec2.vals, Fin.sum_univ_two] using hx a 0,
      by simpa [Vec2.vals, Fin.sum_univ_two] using hx a 1⟩
  constructor
  · rintro ⟨c, w, hV⟩
    -- `u_a = P⁻ᵀ (c + w R ξ_a)`, and `P⁻ᵀ R = R P / det P`
    refine ⟨((P 1 1 * c.1 - P 1 0 * c.2) / (P 0 0 * P 1 1 - P 1 0 * P 0 1) +
        w / (P 0 0 * P 1 1 - P 1 0 * P 0 1) * v0.y.val,
      (P 0 0 * c.2 - P 0 1 * c.1) / (P 0 0 * P 1 1 - P 1 0 * P 0 1) -
        w / (P 0 0 * P 1 1 - P 1 0 * P 0 1) * v0.x.val),
      w / (P 0 0 * P 1 1 - P 1 0 * P 0 1), fun a l => ?_⟩
    have e0 := hV a 0
    have e1 := hV a 1
    simp only [rigidMotion, Fin.sum_univ_two, Matrix.cons_val_zero, Matrix.cons_val_one] at e0 e1
    obtain ⟨hu0, hu1⟩ := transpose_solve hP e0 e1
    obtain ⟨hxa, hya⟩ := hxy a
    fin_cases l
    · simp only [Fin.zero_eta, hu0, rigidMotion, hya, Matrix.cons_val_zero]
      ring
    · simp only [Fin.mk_one, hu1, rigidMotion, hxa, Matrix.cons_val_one, Matrix.cons_val_zero]
      ring
  · rintro ⟨c, w, hU⟩
    refine ⟨(∑ l, P l 0 * rigidMotion c w v0 l, ∑ l, P l 1 * rigidMotion c w v0 l),
      w * (P 0 0 * P 1 1 - P 1 0 * P 0 1), fun a p => ?_⟩
    obtain ⟨hxa, hya⟩ := hxy a
    simp only [hU, rigidMotion, hxa, hya, Fin.sum_univ_two, Matrix.cons_val_zero,
      Matrix.cons_val_one]
    fin_cases p
    · simp only [Fin.zero_eta, Matrix.cons_val_zero]
      ring
    · simp only [Fin.mk_one, Matrix.cons_val_one, Matrix.cons_val_zero]
      ring

/-- A rigid motion that vanishes at the images `x_a = v₀ + P ξ_a` of the reference nodes is zero:
two edges of the triangle span the plane. -/
theorem rigidMotion_eq_zero {P : Fin 2 → Fin 2 → K} (hP : P 0 0 * P 1 1 - P 1 0 * P 0 1 ≠ 0)
    {v0 : Vec2 (Exact K)} {x : Fin 6 → Vec2 (Exact K)}
    (hx : ∀ a l, (x a).vals l = v0.vals l + ∑ p, P l p * (p2Nodes[a.val]!).vals p)
    {c : K × K} {w : K} (h : ∀ a l, rigidMotion c w (x a) l = 0) : c = 0 ∧ w = 0 := by
  have hxa : ∀ a, (x a).x.val = v0.x.val + (P 0 0 * ((p2Nodes (ρ := Exact K))[a.val]!).x.val +
      P 0 1 * ((p2Nodes (ρ := Exact K))[a.val]!).y.val) :=
    fun a => by simpa [Vec2.vals, Fin.sum_univ_two] using hx a 0
  have hya : ∀ a, (x a).y.val = v0.y.val + (P 1 0 * ((p2Nodes (ρ := Exact K))[a.val]!).x.val +
      P 1 1 * ((p2Nodes (ρ := Exact K))[a.val]!).y.val) :=
    fun a => by simpa [Vec2.vals, Fin.sum_univ_two] using hx a 1
  have e00 := h 0 0
  have e01 := h 0 1
  have e10 := h 1 0
  have e11 := h 1 1
  simp [rigidMotion, hxa, hya, p2Nodes] at e00 e01 e10 e11
  -- the first edge, turned by `w`, and then the second give `w det P = 0`
  have hw : w * (P 0 0 * P 1 1 - P 1 0 * P 0 1) = 0 := by
    linear_combination P 1 1 * (e11 - e01) - P 0 1 * (e00 - e10)
  have hw0 := (mul_eq_zero.1 hw).resolve_right hP
  refine ⟨Prod.ext ?_ ?_, hw0⟩
  · simpa [hw0] using e00
  · simpa [hw0] using e01

/-- A rigid motion that vanishes at two distinct points is zero. -/
theorem rigidMotion_eq_zero_of_ne {c : K × K} {w : K} {x y : Vec2 (Exact K)} (hxy : x ≠ y)
    (hx : ∀ l, rigidMotion c w x l = 0) (hy : ∀ l, rigidMotion c w y l = 0) : c = 0 ∧ w = 0 := by
  have ex0 := hx 0
  have ex1 := hx 1
  have ey0 := hy 0
  have ey1 := hy 1
  simp only [rigidMotion, Matrix.cons_val_zero, Matrix.cons_val_one] at ex0 ex1 ey0 ey1
  -- the difference of the two points, turned by `w`, vanishes
  have hw : w = 0 := by
    by_contra hw
    refine hxy (Vec2.ext_val ?_ ?_)
    · have h : w * (x.x.val - y.x.val) = 0 := by linear_combination ex1 - ey1
      exact sub_eq_zero.1 ((mul_eq_zero.1 h).resolve_left hw)
    · have h : w * (y.y.val - x.y.val) = 0 := by linear_combination ex0 - ey0
      exact (sub_eq_zero.1 ((mul_eq_zero.1 h).resolve_left hw)).symm
  subst hw
  exact ⟨Prod.ext (by simpa using ex0) (by simpa using ex1), rfl⟩

/-! ## The cell -/

/-- The entries of a `2 × 2` matrix of scalars, in the field. -/
def Mat2.vals (M : Mat2 (Exact K)) : Fin 2 → Fin 2 → K :=
  ![![M.a00.val, M.a01.val], ![M.a10.val, M.a11.val]]

omit [IsStrictOrderedRing K] in
theorem Triangle.determinant_val (t : Triangle (Exact K)) : t.determinant.val =
    t.jacobian.vals 0 0 * t.jacobian.vals 1 1 - t.jacobian.vals 1 0 * t.jacobian.vals 0 1 := rfl

omit [IsStrictOrderedRing K] in
/-- The reference map `ξ ↦ v₀ + J ξ` in the field. -/
theorem Triangle.toPhysical_vals (t : Triangle (Exact K)) (xi : Vec2 (Exact K)) (l : Fin 2) :
    (t.toPhysical xi).vals l = t.v0.vals l + ∑ p, t.jacobian.vals l p * xi.vals p := by
  fin_cases l <;> simp [Triangle.toPhysical, Mat2.mulVec, Mat2.vals, Vec2.vals, Fin.sum_univ_two]

omit [IsStrictOrderedRing K] in
/-- A triangle of nonzero determinant has three distinct corners. -/
theorem Triangle.toPhysical_vertex_ne {t : Triangle (Exact K)} (hdet : t.determinant.val ≠ 0)
    {a b : Nat} (ha : a < 3) (hb : b < 3) (hab : a ≠ b) :
    t.toPhysical ((p2Nodes : Array (Vec2 (Exact K)))[a]!) ≠ t.toPhysical (p2Nodes[b]!) := by
  intro h
  have h0 := congrArg (fun x => x.vals 0) h
  have h1 := congrArg (fun x => x.vals 1) h
  simp only [Triangle.toPhysical_vals, Fin.sum_univ_two, add_right_inj] at h0 h1
  rw [Triangle.determinant_val] at hdet
  -- two corners that meet make a column of `J`, or their difference, zero
  rcases (show a = 0 ∨ a = 1 ∨ a = 2 by omega) with rfl | rfl | rfl <;>
  rcases (show b = 0 ∨ b = 1 ∨ b = 2 by omega) with rfl | rfl | rfl <;>
  simp [p2Nodes, Vec2.vals] at h0 h1 hab <;> exact hdet (by grind)

omit [IsStrictOrderedRing K] in
/-- `J⁻ᵀ` undoes `Jᵀ`: `Jᵀ (J⁻ᵀ v) = v`. -/
theorem Triangle.inverseTranspose?_mulVec {t : Triangle (Exact K)} {it : Mat2 (Exact K)}
    (h : t.inverseTranspose? = some it) (v : Vec2 (Exact K)) (p : Fin 2) :
    ∑ k, t.jacobian.vals k p * (it.mulVec v).vals k = v.vals p := by
  unfold Triangle.inverseTranspose? Mat2.inverse? at h
  dsimp only at h
  split at h
  · simp at h
  · rename_i hz
    simp only [Option.map_some, Option.some.injEq] at h
    subst h
    have hdet : t.jacobian.det.val =
        t.jacobian.a00.val * t.jacobian.a11.val - t.jacobian.a10.val * t.jacobian.a01.val := rfl
    have hd : t.jacobian.det.val ≠ 0 := by simpa using hz
    fin_cases p <;>
      simp only [Mat2.vals, Vec2.vals, Mat2.mulVec, Mat2.transpose, Fin.sum_univ_two, Fin.zero_eta,
        Fin.mk_one, Matrix.cons_val_zero, Matrix.cons_val_one, Exact.val_add, Exact.val_mul,
        Exact.val_div, Exact.val_neg] <;>
      field_simp <;> rw [hdet] <;> ring

omit [IsStrictOrderedRing K] in
/-- The gradients of the quadratic functions, read in the field. -/
theorem p2Gradients_vals (xi : Vec2 (Exact K)) (a : Fin 6) :
    ((p2Gradients xi)[a.val]!).vals = refGrad xi.x.val xi.y.val a := by
  funext k
  fin_cases a <;> fin_cases k <;>
    simp [p2Gradients, refBarycentric, p1Gradients, Vec2.scale, Vec2.vals, refGrad, floatValue_four] <;>
    ring

omit [IsStrictOrderedRing K] in
/-- The physical gradients at the points of the rule are `J⁻ᵀ` times the reference ones. -/
theorem ruleGradVals_pullback {t : Triangle (Exact K)} {it : Mat2 (Exact K)}
    (h : t.inverseTranspose? = some it) (q : Nat) (a : Fin 6) (m : Fin 2) :
    ∑ k, t.jacobian.vals k m * ruleGradVals it q a k =
      refGrad (rulePoint q).2.x.val (rulePoint q).2.y.val a m := by
  have hs : a.val < (p2Gradients (rulePoint (K := K) q).2).size := by
    simp [p2Gradients]
  rw [ruleGradVals, ruleGrad, physicalP2Gradients,
    getElem!_pos ((p2Gradients (rulePoint q).2).map it.mulVec) a.val (by simpa using hs),
    Array.getElem_map, ← getElem!_pos (p2Gradients (rulePoint q).2) a.val hs,
    Triangle.inverseTranspose?_mulVec h, p2Gradients_vals]

/-- Nodal values on a cell of nonzero determinant have zero strain at the three points of the
rule exactly when they are the values of a rigid motion at the six quadratic nodes. -/
theorem isSkew_ruleGradVals_iff {t : Triangle (Exact K)} {it : Mat2 (Exact K)}
    (hdet : t.determinant.val ≠ 0) (hit : t.inverseTranspose? = some it) (U : Fin 12 → K) :
    (∀ q < 3, IsSkew (dispGrad (ruleGradVals it q) U)) ↔
      ∃ c w, ∀ a l, U (dof a l) = rigidMotion c w (t.toPhysical (p2Nodes[a.val]!)) l := by
  have hJ := hdet
  rw [Triangle.determinant_val] at hJ
  have hx : ∀ (a : Fin 6) l, (t.toPhysical (p2Nodes[a.val]!)).vals l =
      t.v0.vals l + ∑ p, t.jacobian.vals l p * ((p2Nodes (ρ := Exact K))[a.val]!).vals p :=
    fun a l => Triangle.toPhysical_vals _ _ l
  rw [← pullback_rigid_iff hJ hx U]
  -- pulled back by `J`, the strain is that of the values `Jᵀ u_a` on the reference triangle
  calc (∀ q < 3, IsSkew (dispGrad (ruleGradVals it q) U))
      ↔ ∀ q < 3, IsSkew (dispGrad (refGrad (rulePoint q).2.x.val (rulePoint q).2.y.val)
        (ofNodal fun a p => ∑ l, t.jacobian.vals l p * U (dof a l))) :=
        forall₂_congr fun q _ => by
          rw [dispGrad_pullback (ruleGradVals_pullback hit q), isSkew_congrTensor_iff hJ]
    _ ↔ _ := by
        rw [isSkew_refGrad_iff]
        simp only [ofNodal_dof]

/-- The values of the rigid motions at nodes `x_a`, interleaved: a linear map of `(c, w)`. -/
def rigidInterpolant (x : Fin 6 → Vec2 (Exact K)) : (K × K) × K →ₗ[K] Fin 12 → K where
  toFun cw := ofNodal fun a l => rigidMotion cw.1 cw.2 (x a) l
  map_add' _ _ := by
    funext i
    obtain ⟨a, l, rfl⟩ := exists_dof i
    fin_cases l <;> simp [rigidMotion] <;> ring
  map_smul' _ _ := by
    funext i
    obtain ⟨a, l, rfl⟩ := exists_dof i
    fin_cases l <;> simp [rigidMotion] <;> ring

omit [LinearOrder K] [IsStrictOrderedRing K] in
theorem rigidInterpolant_dof (x : Fin 6 → Vec2 (Exact K)) (cw : (K × K) × K) (a : Fin 6)
    (l : Fin 2) :
    rigidInterpolant x cw (dof a l) = rigidMotion cw.1 cw.2 (x a) l := by
  simp [rigidInterpolant]

omit [LinearOrder K] [IsStrictOrderedRing K] in
theorem mem_range_rigidInterpolant (x : Fin 6 → Vec2 (Exact K)) (U : Fin 12 → K) :
    U ∈ LinearMap.range (rigidInterpolant x) ↔
      ∃ c w, ∀ a l, U (dof a l) = rigidMotion c w (x a) l := by
  rw [LinearMap.mem_range]
  constructor
  · rintro ⟨cw, rfl⟩
    exact ⟨cw.1, cw.2, rigidInterpolant_dof x cw⟩
  · rintro ⟨c, w, hU⟩
    refine ⟨(c, w), funext fun i => ?_⟩
    obtain ⟨a, l, rfl⟩ := exists_dof i
    rw [rigidInterpolant_dof, hU]

/-- On a cell of nonzero determinant a rigid motion is determined by its values at the nodes. -/
theorem rigidInterpolant_injective {t : Triangle (Exact K)} (hdet : t.determinant.val ≠ 0) :
    Function.Injective (rigidInterpolant fun a => t.toPhysical (p2Nodes[a.val]!)) := by
  have hJ := hdet
  rw [Triangle.determinant_val] at hJ
  refine LinearMap.ker_eq_bot.1 (LinearMap.ker_eq_bot'.2 fun cw hcw => ?_)
  have h0 : cw.1 = 0 ∧ cw.2 = 0 :=
    rigidMotion_eq_zero hJ (fun a l => Triangle.toPhysical_vals t _ l) fun a l => by
      have h := congrFun hcw (dof a l)
      rwa [rigidInterpolant_dof, Pi.zero_apply] at h
  exact Prod.ext h0.1 h0.2

/-- On a cell with `|det J| ≠ 0` and for an admissible material, the displacement stiffness
tabulates to a symmetric `12 × 12` matrix `A` with `Uᵀ A U ≤ 0`, whose null vectors are the values
of the rigid motions at the six quadratic nodes of the cell. -/
theorem displacementStiffness_tabulate_rigid (m : PlaneStress (Exact K)) (hE : 0 < m.young.val)
    (hν : -1 < m.poisson.val) (hν' : m.poisson.val < 1) (cell : CellData (Exact K))
    (hdet : cell.triangle.determinant.val ≠ 0) :
    ∃ A, (displacementStiffness m).tabulate cell = .ok A ∧ A.rows = 12 ∧ A.cols = 12 ∧
      (A.values 12 12).IsSymm ∧ (∀ U, U ⬝ᵥ (A.values 12 12 *ᵥ U) ≤ 0) ∧
      ∀ U, A.values 12 12 *ᵥ U = 0 ↔ ∃ c w, ∀ a l,
        U (dof a l) = rigidMotion c w (cell.triangle.toPhysical (p2Nodes[a.val]!)) l := by
  obtain ⟨it, hit, hgeo⟩ := cellGeometry_eq cell hdet
  have hD : 0 < (RealScalar.abs cell.triangle.determinant).val := by
    rw [Exact.val_abs]
    exact abs_pos.2 hdet
  obtain ⟨A, hA, hr, hc, hsymm, hneg, hker⟩ := displacementStiffness_kernel m hE hν hν' hgeo hD
  -- the null vectors have zero strain at the points of the rule: the rigid motions
  refine ⟨A, ?_, hr, hc, hsymm, hneg, fun U => (hker U).trans (isSkew_ruleGradVals_iff hdet hit U)⟩
  simpa [ElementKernel.tabulate, ElementKernel.tabulateInto] using hA

/-- On a cell with `|det J| ≠ 0` and for an admissible material, the displacement stiffness is
symmetric, `-A` is positive semidefinite, and `A U = 0` exactly when `U` holds the values of a
rigid motion at the six quadratic nodes of the cell, which make a space of dimension three. -/
theorem displacementStiffness_rigid_kernel (m : PlaneStress (Exact K)) (hE : 0 < m.young.val)
    (hν : -1 < m.poisson.val) (hν' : m.poisson.val < 1) (cell : CellData (Exact K))
    (hdet : cell.triangle.determinant.val ≠ 0) :
    ∃ A, (displacementStiffness m).tabulate cell = .ok A ∧ A.rows = 12 ∧ A.cols = 12 ∧
      (A.values 12 12).IsSymm ∧ (∀ U, 0 ≤ -(U ⬝ᵥ (A.values 12 12 *ᵥ U))) ∧
      (∀ U, A.values 12 12 *ᵥ U = 0 ↔ ∃ c w, ∀ a l,
        U (dof a l) = rigidMotion c w (cell.triangle.toPhysical (p2Nodes[a.val]!)) l) ∧
      Module.finrank K (LinearMap.ker (A.values 12 12).mulVecLin) = 3 := by
  obtain ⟨A, hA, hr, hc, hsymm, hneg, hnull⟩ :=
    displacementStiffness_tabulate_rigid m hE hν hν' cell hdet
  have hrange : LinearMap.ker (A.values 12 12).mulVecLin =
      LinearMap.range (rigidInterpolant fun a => cell.triangle.toPhysical (p2Nodes[a.val]!)) := by
    ext U
    rw [LinearMap.mem_ker, Matrix.mulVecLin_apply, hnull, mem_range_rigidInterpolant]
  refine ⟨A, hA, hr, hc, hsymm, fun U => neg_nonneg.2 (hneg U), hnull, ?_⟩
  rw [hrange, LinearMap.finrank_range_of_inj (rigidInterpolant_injective hdet),
    Module.finrank_prod, Module.finrank_prod, Module.finrank_self]

/-- On the triangle `(0, 0), (2, 0), (1, 3)` with `E = 1` and `ν = 1/3`, the stiffness has the
three rigid motions as its null space. -/
theorem displacementStiffness_rigid_kernel_on_triangle :
    ∃ A, (displacementStiffness (PlaneStress.mk (Exact.mk (1 : ℚ)) (Exact.mk (1 / 3)))).tabulate
        ⟨0, ⟨⟨Exact.mk 0, Exact.mk 0⟩, ⟨Exact.mk 2, Exact.mk 0⟩, ⟨Exact.mk 1, Exact.mk 3⟩⟩⟩ =
          .ok A ∧
      Module.finrank ℚ (LinearMap.ker (A.values 12 12).mulVecLin) = 3 := by
  obtain ⟨A, hA, -, -, -, -, -, hdim⟩ := displacementStiffness_rigid_kernel
    (PlaneStress.mk (Exact.mk (1 : ℚ)) (Exact.mk (1 / 3))) (by norm_num [Exact.val_mk])
    (by norm_num [Exact.val_mk]) (by norm_num [Exact.val_mk])
    ⟨0, ⟨⟨Exact.mk 0, Exact.mk 0⟩, ⟨Exact.mk 2, Exact.mk 0⟩, ⟨Exact.mk 1, Exact.mk 3⟩⟩⟩
    (by decide +kernel)
  exact ⟨A, hA, hdim⟩

end MixedFem
