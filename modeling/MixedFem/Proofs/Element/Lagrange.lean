import Mathlib
import MixedFem.Element.Lagrange
import MixedFem.Proofs.Assembly.Facet
import MixedFem.Proofs.Kernel.Energy

/-!
# The Lagrange bases of the reference element

Read in exact arithmetic, every quadratic function of the reference triangle is a product of
barycentric coordinates `λ₀ = 1 - ξ - η`, `λ₁ = ξ`, `λ₂ = η`, the linear functions: `λᵢ (2 λᵢ - 1)`
at vertex `i`, `4 λᵢ λᵢ₊₁` at the midpoint of edge `i`. Everything below comes from that
factorisation. At a node each `λᵢ` is `0`, `1/2` or `1`, so the quadratic basis is nodal. On edge
`k` the coordinate of the opposite corner vanishes, which kills three of the six functions and
leaves the three of the segment. The gradients `p2Gradients` writes out are the product rule
applied to the constant gradients of the `λᵢ`, so over the reals they are the Jacobian of the
values; since the values add up to one, the gradients add up to zero.

* `sum_p1Values`, `sum_p2Values`, `sum_p2Nodes_eval` : partition of unity, and reproduction of
  every polynomial of total degree at most two from its values at the nodes;
* `p2Values_vertex`, `p2Values_edge` : the quadratic functions as products of barycentric
  coordinates; `p2Values_p2Nodes` : they are nodal;
* `p2EdgePoint`, `p2Values_p2EdgePoint_ends`, `p2Values_p2EdgePoint_off` : on a reference edge the
  quadratic functions of its nodes are those of the segment, the others vanish;
* `Vec2.dotMap`, `jacobianOf`, `basisAt` : gradients as linear maps, and a basis as a map of the
  plane; `p2Gradients_vertex`, `p2Gradients_edge` : the quadratic gradients by the product rule;
* `hasFDerivAt_p1Values`, `hasFDerivAt_p2Values`, `hasDerivAt_segmentValues` : the gradients are
  the Jacobians of the values;
* `sum_vals_eq_zero_of_sum_eq_one`, `sum_segmentGradients` : so the gradients add up to zero;
* `TriangleBasisLaws`, `lagrange_bases_consistent` : all of it, for the three bases.
-/

namespace MixedFem

open Finset

section Field

variable {K : Type} [Field K]

/-- The barycentric coordinates add up to one. -/
theorem sum_shapeP1 (x y : K) : ∑ i ∈ range 3, shapeP1 i x y = 1 := by
  simp [sum_range_succ, shapeP1]
  ring

end Field

section Values

variable {K : Type} [Field K] [LinearOrder K]

theorem sum_p1Values (xi : Vec2 (Exact K)) : ∑ a ∈ range 3, ((p1Values xi)[a]!).val = 1 := by
  rw [sum_congr rfl fun a ha => p1Values_val xi (mem_range.1 ha)]
  exact sum_shapeP1 _ _

/-- The quadratic function of vertex `i` is `λᵢ (2 λᵢ - 1)`. -/
theorem p2Values_vertex (xi : Vec2 (Exact K)) {i : Nat} (hi : i < 3) :
    ((p2Values xi)[i]!).val =
      shapeP1 i xi.x.val xi.y.val * (2 * shapeP1 i xi.x.val xi.y.val - 1) := by
  obtain rfl | rfl | rfl : i = 0 ∨ i = 1 ∨ i = 2 := by omega
  all_goals simp [p2Values, refBarycentric, shapeP1, floatValue_two]

/-- The quadratic function of the midpoint of edge `i` is `4 λᵢ λᵢ₊₁`. -/
theorem p2Values_edge (xi : Vec2 (Exact K)) {i : Nat} (hi : i < 3) :
    ((p2Values xi)[3 + i]!).val =
      4 * shapeP1 i xi.x.val xi.y.val * shapeP1 ((i + 1) % 3) xi.x.val xi.y.val := by
  obtain rfl | rfl | rfl : i = 0 ∨ i = 1 ∨ i = 2 := by omega
  all_goals simp [p2Values, refBarycentric, shapeP1, floatValue_four]

/-- Barycentric coordinate `i` at vertex `j` is `δᵢⱼ`. -/
theorem shapeP1_p2Nodes_vertex {i j : Nat} (hi : i < 3) (hj : j < 3) :
    shapeP1 i ((p2Nodes (ρ := Exact K))[j]!).x.val ((p2Nodes (ρ := Exact K))[j]!).y.val =
      if i = j then 1 else 0 := by
  obtain rfl | rfl | rfl : i = 0 ∨ i = 1 ∨ i = 2 := by omega
  all_goals obtain rfl | rfl | rfl : j = 0 ∨ j = 1 ∨ j = 2 := by omega
  all_goals simp [shapeP1, p2Nodes]

theorem p2Edges_getElem {k : Nat} (hk : k < 3) : p2Edges[k]! = (k, (k + 1) % 3) := by
  obtain rfl | rfl | rfl : k = 0 ∨ k = 1 ∨ k = 2 := by omega
  all_goals rfl

/-- The point at `t` of reference edge `k`: `(1 - t)/2` times the node of its first vertex plus
`(1 + t)/2` times the node of its second, so that `t = -1`, `1` and `0` are its two ends and its
midpoint. -/
noncomputable def p2EdgePoint (k : Nat) (t : K) : Vec2 (Exact K) :=
  let half : Exact K := Scalar.one / (Scalar.one + Scalar.one)
  (p2Nodes[(p2Edges[k]!).1]!).scale (half * (Scalar.one - Exact.mk t)) +
    (p2Nodes[(p2Edges[k]!).2]!).scale (half * (Scalar.one + Exact.mk t))

variable [IsStrictOrderedRing K]

theorem segmentValues_vals (t : K) :
    ((segmentValues (Exact.mk t))[0]!).val = 1 / 2 * t * (t - 1) ∧
      ((segmentValues (Exact.mk t))[1]!).val = 1 / 2 * t * (t + 1) ∧
      ((segmentValues (Exact.mk t))[2]!).val = 1 - t * t := by
  simp [segmentValues]

theorem segmentGradients_vals (t : K) :
    ((segmentGradients (Exact.mk t))[0]!).val = t - 1 / 2 ∧
      ((segmentGradients (Exact.mk t))[1]!).val = t + 1 / 2 ∧
      ((segmentGradients (Exact.mk t))[2]!).val = -2 * t := by
  simp [segmentGradients, floatValue_two]

/-- Barycentric coordinate `i` at the midpoint of edge `k` is `1/2` on the two ends of the edge
and `0` at the opposite corner. -/
theorem shapeP1_p2Nodes_edge {i k : Nat} (hi : i < 3) (hk : k < 3) :
    shapeP1 i ((p2Nodes (ρ := Exact K))[3 + k]!).x.val ((p2Nodes (ρ := Exact K))[3 + k]!).y.val =
      if i = k ∨ i = (k + 1) % 3 then 1 / 2 else 0 := by
  obtain rfl | rfl | rfl : i = 0 ∨ i = 1 ∨ i = 2 := by omega
  all_goals obtain rfl | rfl | rfl : k = 0 ∨ k = 1 ∨ k = 2 := by omega
  all_goals norm_num [shapeP1, p2Nodes]

/-- The quadratic basis is nodal: function `i` is `1` at node `i` and `0` at the five others. -/
theorem p2Values_p2Nodes {i j : Nat} (hi : i < 6) (hj : j < 6) :
    ((p2Values ((p2Nodes (ρ := Exact K))[j]!))[i]!).val = if i = j then 1 else 0 := by
  rcases Nat.lt_or_ge i 3 with hi3 | hi3 <;> rcases Nat.lt_or_ge j 3 with hj3 | hj3
  · -- `δ (2 δ - 1) = δ`
    rw [p2Values_vertex _ hi3, shapeP1_p2Nodes_vertex hi3 hj3]
    split_ifs <;> norm_num
  · -- a vertex function at a midpoint, where `λᵢ` is `1/2` or `0`
    obtain ⟨k, rfl⟩ : ∃ k, j = 3 + k := ⟨j - 3, by omega⟩
    rw [p2Values_vertex _ hi3, shapeP1_p2Nodes_edge hi3 (by omega),
      if_neg (show i ≠ 3 + k by omega)]
    split_ifs <;> norm_num
  · -- an edge function at a vertex: the two ends of the edge are not both that vertex
    obtain ⟨l, rfl⟩ : ∃ l, i = 3 + l := ⟨i - 3, by omega⟩
    rw [p2Values_edge _ (by omega), shapeP1_p2Nodes_vertex (by omega) hj3,
      shapeP1_p2Nodes_vertex (by omega) hj3, if_neg (show 3 + l ≠ j by omega)]
    rcases (show l ≠ j ∨ (l + 1) % 3 ≠ j by omega) with h | h <;> simp [h]
  · obtain ⟨l, rfl⟩ : ∃ l, i = 3 + l := ⟨i - 3, by omega⟩
    obtain ⟨k, rfl⟩ : ∃ k, j = 3 + k := ⟨j - 3, by omega⟩
    rw [p2Values_edge _ (by omega), shapeP1_p2Nodes_edge (by omega) (by omega),
      shapeP1_p2Nodes_edge (by omega) (by omega)]
    by_cases hlk : l = k
    · -- the function of its own midpoint: `4 · 1/2 · 1/2`
      subst hlk
      norm_num
    · -- another midpoint lies off one of the two ends of edge `l`
      rw [if_neg (show 3 + l ≠ 3 + k by omega)]
      rcases (show ¬(l = k ∨ l = (k + 1) % 3) ∨
          ¬((l + 1) % 3 = k ∨ (l + 1) % 3 = (k + 1) % 3) by omega) with h | h <;> simp [h]

/-- The segment basis is nodal at `-1`, `1`, `0`. -/
theorem segmentValues_nodal (i j : Fin 3) :
    ((segmentValues (Exact.mk ((![-1, 1, 0] : Fin 3 → K) j)))[i.val]!).val =
      if i = j then 1 else 0 := by
  fin_cases i <;> fin_cases j <;> norm_num [segmentValues]

/-- The quadratic functions reproduce each monomial `xᵖ yᵠ` of degree at most two. -/
theorem sum_p2Nodes_monomial (xi : Vec2 (Exact K)) {p q : Nat} (h : p + q ≤ 2) :
    ∑ k ∈ range 6, ((p2Nodes (ρ := Exact K))[k]!).x.val ^ p *
        ((p2Nodes (ρ := Exact K))[k]!).y.val ^ q * ((p2Values xi)[k]!).val =
      xi.x.val ^ p * xi.y.val ^ q := by
  simp [sum_range_succ, p2Nodes, p2Values, refBarycentric, floatValue_two, floatValue_four]
  -- the six monomials `1, x, y, x², x y, y²`
  obtain ⟨rfl, rfl⟩ | ⟨rfl, rfl⟩ | ⟨rfl, rfl⟩ | ⟨rfl, rfl⟩ | ⟨rfl, rfl⟩ | ⟨rfl, rfl⟩ :
      (p = 0 ∧ q = 0) ∨ (p = 1 ∧ q = 0) ∨ (p = 0 ∧ q = 1) ∨ (p = 2 ∧ q = 0) ∨ (p = 1 ∧ q = 1) ∨
        (p = 0 ∧ q = 2) := by omega
  all_goals ring

/-- The quadratic functions add up to one: they reproduce the constant. -/
theorem sum_p2Values (xi : Vec2 (Exact K)) : ∑ a ∈ range 6, ((p2Values xi)[a]!).val = 1 := by
  simpa using sum_p2Nodes_monomial xi (p := 0) (q := 0) (by omega)

/-- The quadratic functions reproduce every polynomial of total degree at most two from its
values at the nodes, term by term. -/
theorem sum_p2Nodes_eval (q : MvPolynomial (Fin 2) K) (hq : q.totalDegree ≤ 2)
    (xi : Vec2 (Exact K)) :
    ∑ k ∈ range 6, MvPolynomial.eval ((p2Nodes (ρ := Exact K))[k]!).vals q *
        ((p2Values xi)[k]!).val = MvPolynomial.eval xi.vals q := by
  simp only [MvPolynomial.eval_eq', Fin.prod_univ_two, sum_mul]
  rw [sum_comm]
  refine sum_congr rfl fun m hm => ?_
  have hdeg : m 0 + m 1 ≤ 2 := by
    have := (MvPolynomial.le_totalDegree hm).trans hq
    simpa [Finsupp.sum_fintype, Fin.sum_univ_two] using this
  simp only [Vec2.vals, Matrix.cons_val_zero, Matrix.cons_val_one, Matrix.cons_val_fin_one]
  rw [← sum_p2Nodes_monomial xi hdeg, mul_sum]
  exact sum_congr rfl fun k _ => by ring

/-- On edge `k` the barycentric coordinate of corner `k` runs from `1` down to `0`. -/
theorem shapeP1_p2EdgePoint_first {k : Nat} (hk : k < 3) (t : K) :
    shapeP1 k (p2EdgePoint k t).x.val (p2EdgePoint k t).y.val = (1 - t) / 2 := by
  obtain rfl | rfl | rfl : k = 0 ∨ k = 1 ∨ k = 2 := by omega
  all_goals simp [shapeP1, p2EdgePoint, p2Edges, p2Nodes, Vec2.scale]
  all_goals ring

/-- On edge `k` the barycentric coordinate of corner `k + 1` runs from `0` up to `1`. -/
theorem shapeP1_p2EdgePoint_second {k : Nat} (hk : k < 3) (t : K) :
    shapeP1 ((k + 1) % 3) (p2EdgePoint k t).x.val (p2EdgePoint k t).y.val = (1 + t) / 2 := by
  obtain rfl | rfl | rfl : k = 0 ∨ k = 1 ∨ k = 2 := by omega
  all_goals simp [shapeP1, p2EdgePoint, p2Edges, p2Nodes, Vec2.scale]
  all_goals ring

/-- On edge `k` the barycentric coordinate of the opposite corner vanishes. -/
theorem shapeP1_p2EdgePoint_opposite {k : Nat} (hk : k < 3) (t : K) :
    shapeP1 ((k + 2) % 3) (p2EdgePoint k t).x.val (p2EdgePoint k t).y.val = 0 := by
  obtain rfl | rfl | rfl : k = 0 ∨ k = 1 ∨ k = 2 := by omega
  all_goals simp [shapeP1, p2EdgePoint, p2Edges, p2Nodes, Vec2.scale]
  all_goals ring

/-- On edge `k` the quadratic functions of its two ends and of its midpoint are the segment
functions of `-1`, `1` and `0`. -/
theorem p2Values_p2EdgePoint_ends {k : Nat} (hk : k < 3) (t : K) :
    ((p2Values (p2EdgePoint k t))[(p2Edges[k]!).1]!).val =
        ((segmentValues (Exact.mk t))[0]!).val ∧
      ((p2Values (p2EdgePoint k t))[(p2Edges[k]!).2]!).val =
        ((segmentValues (Exact.mk t))[1]!).val ∧
      ((p2Values (p2EdgePoint k t))[3 + k]!).val = ((segmentValues (Exact.mk t))[2]!).val := by
  obtain ⟨h0, h1, h2⟩ := segmentValues_vals t
  have hk1 : (k + 1) % 3 < 3 := Nat.mod_lt _ (by omega)
  rw [p2Edges_getElem hk, h0, h1, h2, p2Values_vertex _ hk, p2Values_vertex _ hk1,
    p2Values_edge _ hk, shapeP1_p2EdgePoint_first hk, shapeP1_p2EdgePoint_second hk]
  refine ⟨by ring, by ring, by ring⟩

/-- On edge `k` the other three quadratic functions vanish: each has the coordinate of the
opposite corner as a factor. -/
theorem p2Values_p2EdgePoint_off {k a : Nat} (hk : k < 3) (ha : a < 6) (t : K)
    (h0 : a ≠ (p2Edges[k]!).1) (h1 : a ≠ (p2Edges[k]!).2) (h2 : a ≠ 3 + k) :
    ((p2Values (p2EdgePoint k t))[a]!).val = 0 := by
  rw [p2Edges_getElem hk] at h0 h1
  have hopp := shapeP1_p2EdgePoint_opposite hk t
  rcases Nat.lt_or_ge a 3 with ha3 | ha3
  · -- the function of the opposite corner
    obtain rfl : a = (k + 2) % 3 := by simp only [ne_eq] at h0 h1; omega
    rw [p2Values_vertex _ ha3, hopp, zero_mul]
  · -- the functions of the midpoints of the two other edges, which end at the opposite corner
    obtain ⟨l, rfl⟩ : ∃ l, a = 3 + l := ⟨a - 3, by omega⟩
    rw [p2Values_edge _ (by omega)]
    rcases (show l = (k + 1) % 3 ∨ l = (k + 2) % 3 by omega) with rfl | rfl
    · rw [show ((k + 1) % 3 + 1) % 3 = (k + 2) % 3 by omega, hopp, mul_zero]
    · rw [hopp, mul_zero, zero_mul]

end Values

section Jacobian

open ContinuousLinearMap

/-- The point with coordinates `z`. -/
def Vec2.ofPair {K : Type} (z : K × K) : Vec2 (Exact K) := ⟨Exact.mk z.1, Exact.mk z.2⟩

@[simp] theorem Vec2.ofPair_x {K : Type} (z : K × K) : (Vec2.ofPair z).x.val = z.1 := rfl

@[simp] theorem Vec2.ofPair_y {K : Type} (z : K × K) : (Vec2.ofPair z).y.val = z.2 := rfl

/-- The derivative `h ↦ g₀ h₀ + g₁ h₁` of a function of the plane whose gradient is `g`. -/
noncomputable def Vec2.dotMap (g : Vec2 (Exact ℝ)) : ℝ × ℝ →L[ℝ] ℝ :=
  g.x.val • fst ℝ ℝ ℝ + g.y.val • snd ℝ ℝ ℝ

@[simp] theorem Vec2.dotMap_apply (g : Vec2 (Exact ℝ)) (h : ℝ × ℝ) :
    g.dotMap h = g.x.val * h.1 + g.y.val * h.2 := by
  simp [Vec2.dotMap]

theorem Vec2.dotMap_scale (g : Vec2 (Exact ℝ)) (s : Exact ℝ) :
    (g.scale s).dotMap = s.val • g.dotMap := by
  ext <;> simp [Vec2.scale, mul_comm]

theorem Vec2.dotMap_add (g g' : Vec2 (Exact ℝ)) : (g + g').dotMap = g.dotMap + g'.dotMap := by
  ext <;> simp

/-- The Jacobian of `n` functions of the plane whose gradients are the columns `G[0], …, G[n-1]`. -/
noncomputable def jacobianOf (n : Nat) (G : Array (Vec2 (Exact ℝ))) :
    ℝ × ℝ →L[ℝ] (Fin n → ℝ) :=
  pi fun a => (G[a.val]!).dotMap

/-- A basis of `n` functions of the reference element as a map of the plane into `ℝⁿ`. -/
noncomputable def basisAt (n : Nat) (values : Vec2 (Exact ℝ) → Array (Exact ℝ)) (z : ℝ × ℝ) :
    Fin n → ℝ :=
  fun a => ((values (Vec2.ofPair z))[a.val]!).val

/-- A barycentric coordinate is affine, with the constant gradient of its linear function. -/
theorem hasFDerivAt_shapeP1 {i : Nat} (hi : i < 3) (z : ℝ × ℝ) :
    HasFDerivAt (fun z : ℝ × ℝ => shapeP1 i z.1 z.2)
      ((p1Gradients : Array (Vec2 (Exact ℝ)))[i]!).dotMap z := by
  have h : (fun z : ℝ × ℝ => shapeP1 i z.1 z.2) =
      fun z => shapeP1 i 0 0 + ((p1Gradients : Array (Vec2 (Exact ℝ)))[i]!).dotMap z := by
    funext z
    obtain rfl | rfl | rfl : i = 0 ∨ i = 1 ∨ i = 2 := by omega
    all_goals simp [shapeP1, p1Gradients]
    all_goals ring
  rw [h]
  exact (((p1Gradients : Array (Vec2 (Exact ℝ)))[i]!).dotMap.hasFDerivAt).const_add _

/-- The linear gradients are the Jacobian of the linear values. -/
theorem hasFDerivAt_p1Values (z : ℝ × ℝ) :
    HasFDerivAt (basisAt 3 p1Values) (jacobianOf 3 p1Gradients) z := by
  unfold basisAt jacobianOf
  refine hasFDerivAt_pi.2 fun a => ?_
  have e : (fun z : ℝ × ℝ => ((p1Values (Vec2.ofPair z))[a.val]!).val) =
      fun z => shapeP1 a.val z.1 z.2 := funext fun z => p1Values_val _ a.isLt
  rw [e]
  exact hasFDerivAt_shapeP1 a.isLt z

/-- The gradient of vertex `i` as `p2Gradients` forms it: `(4 λᵢ - 1) ∇λᵢ`. -/
theorem p2Gradients_vertex (xi : Vec2 (Exact ℝ)) {i : Nat} (hi : i < 3) :
    ((p2Gradients xi)[i]!).dotMap =
      (4 * shapeP1 i xi.x.val xi.y.val - 1) •
        ((p1Gradients : Array (Vec2 (Exact ℝ)))[i]!).dotMap := by
  obtain rfl | rfl | rfl : i = 0 ∨ i = 1 ∨ i = 2 := by omega
  all_goals simp [p2Gradients, refBarycentric, Vec2.dotMap_scale, shapeP1, floatValue_four]

/-- The gradient of the midpoint of edge `i` as `p2Gradients` forms it:
`4 (λᵢ₊₁ ∇λᵢ + λᵢ ∇λᵢ₊₁)`. -/
theorem p2Gradients_edge (xi : Vec2 (Exact ℝ)) {i : Nat} (hi : i < 3) :
    ((p2Gradients xi)[3 + i]!).dotMap =
      (4 : ℝ) • (shapeP1 ((i + 1) % 3) xi.x.val xi.y.val •
          ((p1Gradients : Array (Vec2 (Exact ℝ)))[i]!).dotMap +
        shapeP1 i xi.x.val xi.y.val •
          ((p1Gradients : Array (Vec2 (Exact ℝ)))[(i + 1) % 3]!).dotMap) := by
  obtain rfl | rfl | rfl : i = 0 ∨ i = 1 ∨ i = 2 := by omega
  all_goals simp [p2Gradients, refBarycentric, Vec2.dotMap_scale, Vec2.dotMap_add, shapeP1,
    floatValue_four]

theorem hasFDerivAt_p2Values_vertex {i : Nat} (hi : i < 3) (z : ℝ × ℝ) :
    HasFDerivAt (fun z => ((p2Values (Vec2.ofPair z))[i]!).val)
      ((p2Gradients (Vec2.ofPair z))[i]!).dotMap z := by
  have e : (fun z => ((p2Values (Vec2.ofPair z))[i]!).val) =
      fun z : ℝ × ℝ => shapeP1 i z.1 z.2 * (2 * shapeP1 i z.1 z.2 - 1) :=
    funext fun z => p2Values_vertex _ hi
  have hl := hasFDerivAt_shapeP1 hi z
  rw [e, p2Gradients_vertex _ hi]
  -- the product rule: `λ · 2 dλ + (2 λ - 1) dλ = (4 λ - 1) dλ`
  refine (hl.mul ((hl.const_mul 2).sub_const 1)).congr_fderiv ?_
  simp only [Vec2.ofPair_x, Vec2.ofPair_y]
  module

theorem hasFDerivAt_p2Values_edge {i : Nat} (hi : i < 3) (z : ℝ × ℝ) :
    HasFDerivAt (fun z => ((p2Values (Vec2.ofPair z))[3 + i]!).val)
      ((p2Gradients (Vec2.ofPair z))[3 + i]!).dotMap z := by
  have e : (fun z => ((p2Values (Vec2.ofPair z))[3 + i]!).val) =
      fun z : ℝ × ℝ => 4 * shapeP1 i z.1 z.2 * shapeP1 ((i + 1) % 3) z.1 z.2 :=
    funext fun z => p2Values_edge _ hi
  have hl := hasFDerivAt_shapeP1 hi z
  have hl' := hasFDerivAt_shapeP1 (Nat.mod_lt (i + 1) (by omega)) z
  rw [e, p2Gradients_edge _ hi]
  -- the product rule for `4 λᵢ · λᵢ₊₁`
  refine ((hl.const_mul 4).mul hl').congr_fderiv ?_
  simp only [Vec2.ofPair_x, Vec2.ofPair_y]
  module

/-- The quadratic gradients are the Jacobian of the quadratic values. -/
theorem hasFDerivAt_p2Values (z : ℝ × ℝ) :
    HasFDerivAt (basisAt 6 p2Values) (jacobianOf 6 (p2Gradients (Vec2.ofPair z))) z := by
  unfold basisAt jacobianOf
  refine hasFDerivAt_pi.2 fun a => ?_
  rcases Nat.lt_or_ge a.val 3 with ha | ha
  · exact hasFDerivAt_p2Values_vertex ha z
  · obtain ⟨i, hi⟩ : ∃ i, a.val = 3 + i := ⟨a.val - 3, by omega⟩
    simp only [hi]
    exact hasFDerivAt_p2Values_edge (by omega) z

/-- The segment derivatives are the derivatives of the segment values. -/
theorem hasDerivAt_segmentValues (t : ℝ) :
    HasDerivAt (fun s : ℝ => fun a : Fin 3 => ((segmentValues (Exact.mk s))[a.val]!).val)
      (fun a => ((segmentGradients (Exact.mk t))[a.val]!).val) t := by
  refine hasDerivAt_pi.2 fun a => ?_
  have ht := hasDerivAt_id t
  fin_cases a
  · have e : (fun s : ℝ => ((segmentValues (Exact.mk s))[0]!).val) = fun s => 1 / 2 * s * (s - 1) :=
      funext fun s => (segmentValues_vals s).1
    simp only [e]
    refine ((ht.const_mul (1 / 2)).mul (ht.sub_const 1)).congr_deriv ?_
    rw [(segmentGradients_vals t).1]
    simp
    ring
  · have e : (fun s : ℝ => ((segmentValues (Exact.mk s))[1]!).val) = fun s => 1 / 2 * s * (s + 1) :=
      funext fun s => (segmentValues_vals s).2.1
    simp only [e]
    refine ((ht.const_mul (1 / 2)).mul (ht.add_const 1)).congr_deriv ?_
    rw [(segmentGradients_vals t).2.1]
    simp
    ring
  · have e : (fun s : ℝ => ((segmentValues (Exact.mk s))[2]!).val) = fun s => 1 - s * s :=
      funext fun s => (segmentValues_vals s).2.2
    simp only [e]
    refine ((ht.mul ht).const_sub 1).congr_deriv ?_
    rw [(segmentGradients_vals t).2.2]
    simp
    ring

/-- Functions of the plane that add up to one have gradients that add up to zero: the sum of the
gradients is the derivative of a constant. -/
theorem sum_vals_eq_zero_of_sum_eq_one {n : Nat} {values : Vec2 (Exact ℝ) → Array (Exact ℝ)}
    {G : Array (Vec2 (Exact ℝ))} {z : ℝ × ℝ}
    (hsum : ∀ z, ∑ a ∈ range n, ((values (Vec2.ofPair z))[a]!).val = 1)
    (hjac : HasFDerivAt (basisAt n values) (jacobianOf n G) z) :
    ∑ a ∈ range n, (G[a]!).vals = 0 := by
  have hparts : ∀ a : Fin n, HasFDerivAt (fun z => basisAt n values z a) (G[a.val]!).dotMap z :=
    hasFDerivAt_pi.1 hjac
  have hS := HasFDerivAt.fun_sum (u := univ) fun a _ => hparts a
  have hconst : (fun z => ∑ a : Fin n, basisAt n values z a) = fun _ => 1 := by
    funext z
    rw [← hsum z]
    exact Fin.sum_univ_eq_sum_range (fun a => ((values (Vec2.ofPair z))[a]!).val) n
  rw [hconst] at hS
  have hzero := (hasFDerivAt_const (1 : ℝ) z).unique hS
  -- the two components of the sum are the zero map at the two unit vectors
  funext l
  fin_cases l
  · have h := congrArg (fun L => L (1, 0)) hzero
    simp only [zero_apply, FunLike.coe_sum, Finset.sum_apply, Vec2.dotMap_apply, mul_one, mul_zero,
      add_zero] at h
    simp [Vec2.vals, ← Fin.sum_univ_eq_sum_range (fun a => (G[a]!).x.val), ← h]
  · have h := congrArg (fun L => L (0, 1)) hzero
    simp only [zero_apply, FunLike.coe_sum, Finset.sum_apply, Vec2.dotMap_apply, mul_one, mul_zero,
      zero_add] at h
    simp [Vec2.vals, ← Fin.sum_univ_eq_sum_range (fun a => (G[a]!).y.val), ← h]

/-- The segment derivatives add up to zero, as the derivatives of functions adding up to one. -/
theorem sum_segmentGradients (t : ℝ) :
    ∑ a ∈ range 3, ((segmentGradients (Exact.mk t))[a]!).val = 0 := by
  have hS := HasDerivAt.fun_sum (u := univ) fun a _ =>
    hasDerivAt_pi.1 (hasDerivAt_segmentValues t) a
  have hconst :
      (fun s : ℝ => ∑ a : Fin 3, ((segmentValues (Exact.mk s))[a.val]!).val) = fun _ => 1 := by
    funext s
    rw [Fin.sum_univ_eq_sum_range (fun a => ((segmentValues (Exact.mk s))[a]!).val) 3]
    exact sum_segmentValues (Exact.mk s)
  rw [hconst] at hS
  rw [← Fin.sum_univ_eq_sum_range (fun a => ((segmentGradients (Exact.mk t))[a]!).val) 3]
  exact ((hasDerivAt_const t (1 : ℝ)).unique hS).symm

/-- The laws of a Lagrange basis of `n` functions on the reference triangle, read in the reals: at
every point its values add up to one, and its gradient columns are the Jacobian of its values
and add up to zero. -/
def TriangleBasisLaws (n : Nat) (values : Vec2 (Exact ℝ) → Array (Exact ℝ))
    (gradients : Vec2 (Exact ℝ) → Array (Vec2 (Exact ℝ))) : Prop :=
  ∀ z : ℝ × ℝ, ∑ a ∈ range n, ((values (Vec2.ofPair z))[a]!).val = 1 ∧
    HasFDerivAt (basisAt n values) (jacobianOf n (gradients (Vec2.ofPair z))) z ∧
    ∑ a ∈ range n, ((gradients (Vec2.ofPair z))[a]!).vals = 0

/-- A partition of unity whose gradients are its Jacobian satisfies the laws. -/
theorem triangleBasisLaws_of_hasFDerivAt {n : Nat} {values : Vec2 (Exact ℝ) → Array (Exact ℝ)}
    {gradients : Vec2 (Exact ℝ) → Array (Vec2 (Exact ℝ))}
    (hsum : ∀ xi, ∑ a ∈ range n, ((values xi)[a]!).val = 1)
    (hjac : ∀ z, HasFDerivAt (basisAt n values) (jacobianOf n (gradients (Vec2.ofPair z))) z) :
    TriangleBasisLaws n values gradients :=
  fun z => ⟨hsum _, hjac z, sum_vals_eq_zero_of_sum_eq_one (fun _ => hsum _) (hjac z)⟩

/-- The three Lagrange bases of the reference element are consistent, in exact arithmetic. The
linear and the quadratic basis of the triangle add up to one at every point, their gradients
are the Jacobians of their values and add up to zero, and so do the values and derivatives of
the quadratic basis of the segment, which is nodal at `-1`, `1`, `0`. The quadratic basis of
the triangle is nodal at its six nodes and reproduces every polynomial of total degree at most
two. On reference edge `k`, parametrised by `t ∈ ℝ` from its first vertex to its second, the
functions of those vertices and of the midpoint `3 + k` are the segment functions of `-1`, `1`
and `0`, and the other three vanish. -/
theorem lagrange_bases_consistent :
    TriangleBasisLaws 3 p1Values (fun _ => p1Gradients) ∧
      TriangleBasisLaws 6 p2Values p2Gradients ∧
      (∀ t : ℝ, ∑ a ∈ range 3, ((segmentValues (Exact.mk t))[a]!).val = 1 ∧
        HasDerivAt (fun s : ℝ => fun a : Fin 3 => ((segmentValues (Exact.mk s))[a.val]!).val)
          (fun a => ((segmentGradients (Exact.mk t))[a.val]!).val) t ∧
        ∑ a ∈ range 3, ((segmentGradients (Exact.mk t))[a]!).val = 0) ∧
      (∀ i j : Fin 3, ((segmentValues (Exact.mk ((![-1, 1, 0] : Fin 3 → ℝ) j)))[i.val]!).val =
        if i = j then 1 else 0) ∧
      (∀ i < 6, ∀ j < 6,
        ((p2Values ((p2Nodes (ρ := Exact ℝ))[j]!))[i]!).val = if i = j then 1 else 0) ∧
      (∀ q : MvPolynomial (Fin 2) ℝ, q.totalDegree ≤ 2 → ∀ xi : Vec2 (Exact ℝ),
        ∑ k ∈ range 6, MvPolynomial.eval ((p2Nodes (ρ := Exact ℝ))[k]!).vals q *
          ((p2Values xi)[k]!).val = MvPolynomial.eval xi.vals q) ∧
      (∀ k < 3, ∀ t : ℝ,
        ((p2Values (p2EdgePoint k t))[(p2Edges[k]!).1]!).val =
            ((segmentValues (Exact.mk t))[0]!).val ∧
          ((p2Values (p2EdgePoint k t))[(p2Edges[k]!).2]!).val =
            ((segmentValues (Exact.mk t))[1]!).val ∧
          ((p2Values (p2EdgePoint k t))[3 + k]!).val = ((segmentValues (Exact.mk t))[2]!).val ∧
          ∀ a < 6, a ≠ (p2Edges[k]!).1 → a ≠ (p2Edges[k]!).2 → a ≠ 3 + k →
            ((p2Values (p2EdgePoint k t))[a]!).val = 0) :=
  ⟨triangleBasisLaws_of_hasFDerivAt sum_p1Values hasFDerivAt_p1Values,
    triangleBasisLaws_of_hasFDerivAt sum_p2Values hasFDerivAt_p2Values,
    fun t => ⟨sum_segmentValues _, hasDerivAt_segmentValues t, sum_segmentGradients t⟩,
    segmentValues_nodal,
    fun _ hi _ hj => p2Values_p2Nodes hi hj,
    sum_p2Nodes_eval,
    fun _ hk t => by
      obtain ⟨h0, h1, h2⟩ := p2Values_p2EdgePoint_ends hk t
      exact ⟨h0, h1, h2, fun _ ha => p2Values_p2EdgePoint_off hk ha t⟩⟩

end Jacobian

end MixedFem
