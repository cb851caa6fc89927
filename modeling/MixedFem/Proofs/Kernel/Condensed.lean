import Mathlib.Tactic.Linarith
import MixedFem.Proofs.Kernel.Pointwise

/-!
# Condensing the mixed element gives the displacement element

With stresses discontinuous and linear and displacements continuous and quadratic, the stress
unknowns of an element can be eliminated: the condensed matrix `-A₁₀ A₀₀⁻¹ A₀₁` is a matrix on the
displacements alone. Read in an exact ordered field, it is the displacement stiffness matrix.

The mass matrix `A₀₀` couples each stress component to itself with the weights of the rule, so
solving `A₀₀ X = A₀₁` amounts, by unisolvence of the linear functions at the three points, to
finding at each point the stress that balances the coupling (`mass_solve_pointwise`). Then
`-A₁₀ X` is a sum over the points of the contraction of stresses with the stress basis, which is
the elasticity contraction `C(∇φ_a, ∇φ_b)` (`condensed_pointwise`, `sum_symBasis_stress`).

* `sum_range_mul_add` : a sum over `t < n k` as a double sum over `t = k b + d`;
* `mass_solve_pointwise`, `condensed_pointwise` : the two steps above, for any weights, shape
  function values and couplings;
* `condensedElasticity_tabulate_eq_stiffness`, `condensedElasticity_tabulate_eq` : the condensed
  kernel tabulates, on every cell of nonzero determinant, the same matrix as
  `displacementStiffness`.
-/

namespace MixedFem

open Finset

/-- A sum over `t < n k` is a sum over the pairs `t = k b + d`, `b < n`, `d < k`. -/
theorem sum_range_mul_add {M : Type} [AddCommMonoid M] (k : Nat) (f : Nat → M) (n : Nat) :
    ∑ t ∈ range (n * k), f t = ∑ b ∈ range n, ∑ d ∈ range k, f (k * b + d) := by
  induction n with
  | zero => simp
  | succ n ih => rw [Nat.succ_mul, sum_range_add, ih, sum_range_succ, Nat.mul_comm n k]

section Algebra
variable {K : Type} [Field K]

/-- Of the three components at a stress node only the one of the row's component is coupled. -/
theorem sum_component {c : Nat} (hc : c < 3) (S : Nat → K) (X : Nat → K) :
    ∑ t ∈ range 9, (if c = t % 3 then S (t / 3) else 0) * X t = ∑ b ∈ range 3, S b * X (3 * b + c) := by
  rw [show 9 = 3 * 3 from rfl, sum_range_mul_add 3 _ 3]
  refine sum_congr rfl fun b _ => ?_
  rw [sum_eq_single_of_mem c (mem_range.2 hc) fun d hd hne => by
      rw [if_neg (by rw [mem_range] at hd; omega), zero_mul],
    if_pos (by omega), show (3 * b + c) / 3 = b by omega]

section
variable {w N : Nat → K} {ψ T : Nat → Nat → K} {X : Nat → K}

/-- Solving the stress mass system is solving at each quadrature point: the stress interpolated
at the point, times `E_c : E_c`, is minus the coupling there. -/
theorem mass_solve_pointwise
    (hU : ∀ z : Nat → K, (∀ a < 3, ∑ q ∈ range 3, ψ a q * z q = 0) → ∀ q < 3, z q = 0)
    (hw : ∀ q < 3, w q ≠ 0)
    (hsolve : ∀ a < 3, ∀ c < 3, ∑ t ∈ range 9,
      (if c = t % 3 then ∑ q ∈ range 3, w q * ψ a q * ψ (t / 3) q * N c else 0) * X t =
        -∑ q ∈ range 3, w q * ψ a q * T q c) :
    ∀ q < 3, ∀ c < 3, N c * ∑ b ∈ range 3, ψ b q * X (3 * b + c) = -T q c := by
  intro q hq c hc
  have hz := hU (fun q => w q * (N c * ∑ b ∈ range 3, ψ b q * X (3 * b + c) + T q c))
    (fun a ha => ?_) q hq
  · rw [mul_eq_zero, or_iff_right (hw q hq)] at hz
    exact eq_neg_of_add_eq_zero_left hz
  · have h := hsolve a ha c hc
    rw [sum_component hc (fun b => ∑ q ∈ range 3, w q * ψ a q * ψ b q * N c)] at h
    -- exchange the sums over nodes and points
    have hswap : ∑ b ∈ range 3, (∑ q ∈ range 3, w q * ψ a q * ψ b q * N c) * X (3 * b + c) =
        ∑ q ∈ range 3, w q * ψ a q * N c * ∑ b ∈ range 3, ψ b q * X (3 * b + c) := by
      simp only [sum_mul, mul_sum]
      rw [sum_comm]
      refine sum_congr rfl fun q _ => sum_congr rfl fun b _ => ?_
      ring
    rw [hswap, ← sub_eq_zero, sub_neg_eq_add, ← sum_add_distrib] at h
    rw [← h]
    refine sum_congr rfl fun q _ => ?_
    ring

/-- `-A_pi X` at a point: with the stress at each point known, the condensed entry is the sum
over points of the coupling divided by the norms. -/
theorem condensed_pointwise {R : Nat → Nat → K} (hN : ∀ c < 3, N c ≠ 0)
    (hY : ∀ q < 3, ∀ c < 3, N c * ∑ b ∈ range 3, ψ b q * X (3 * b + c) = -T q c) :
    -∑ t ∈ range 9, (-∑ q ∈ range 3, w q * ψ (t / 3) q * R q (t % 3)) * X t =
      -∑ q ∈ range 3, w q * ∑ d ∈ range 3, R q d * T q d / N d := by
  have hY' : ∀ q < 3, ∀ d < 3, ∑ b ∈ range 3, ψ b q * X (3 * b + d) = -T q d / N d :=
    fun q hq d hd => by rw [eq_div_iff (hN d hd), mul_comm]; exact hY q hq d hd
  rw [show 9 = 3 * 3 from rfl, sum_range_mul_add 3 _ 3]
  calc -∑ b ∈ range 3, ∑ d ∈ range 3,
          (-∑ q ∈ range 3, w q * ψ ((3 * b + d) / 3) q * R q ((3 * b + d) % 3)) * X (3 * b + d)
      = ∑ b ∈ range 3, ∑ d ∈ range 3, ∑ q ∈ range 3, w q * R q d * (ψ b q * X (3 * b + d)) := by
        simp only [neg_mul, sum_neg_distrib, neg_neg, sum_mul]
        refine sum_congr rfl fun b _ => sum_congr rfl fun d hd => sum_congr rfl fun q _ => ?_
        rw [show (3 * b + d) / 3 = b by rw [mem_range] at hd; omega,
          show (3 * b + d) % 3 = d by rw [mem_range] at hd; omega]
        ring
    -- gather the nodes of each component at each point
    _ = ∑ q ∈ range 3, w q * ∑ d ∈ range 3, R q d * ∑ b ∈ range 3, ψ b q * X (3 * b + d) := by
        rw [sum_comm]
        simp only [mul_sum]
        rw [sum_congr rfl fun d _ => sum_comm, sum_comm]
        refine sum_congr rfl fun q _ => sum_congr rfl fun d _ => sum_congr rfl fun b _ => ?_
        ring
    _ = -∑ q ∈ range 3, w q * ∑ d ∈ range 3, R q d * T q d / N d := by
        rw [← sum_neg_distrib]
        refine sum_congr rfl fun q hq => ?_
        rw [← mul_neg, ← sum_neg_distrib]
        congr 1
        refine sum_congr rfl fun d hd => ?_
        rw [hY' q (mem_range.1 hq) d (mem_range.1 hd)]
        ring
end

end Algebra

variable {K : Type} [Field K] [LinearOrder K] [IsStrictOrderedRing K]

/-- For a material with `-1 < ν < 1`, the condensed kernel exists and tabulates on every cell of
nonzero determinant the `12 × 12` displacement stiffness tensor. -/
theorem condensedElasticity_tabulate_eq_stiffness (m : PlaneStress (Exact K))
    (hν : -1 < m.poisson.val) (hν' : m.poisson.val < 1)
    (cell : CellData (Exact K)) (hdet : cell.triangle.determinant.val ≠ 0) :
    ∃ k A, condensedElasticity {} m = .ok k ∧ (displacementStiffness m).tabulate cell = .ok A ∧
      k.tabulate cell = .ok A ∧ A.rows = 12 ∧ A.cols = 12 := by
  obtain ⟨k, hk, htab⟩ := condensedElasticity_tabulate {} m cell
  obtain ⟨it, -, hgeo⟩ := cellGeometry_eq cell hdet
  set D := RealScalar.abs cell.triangle.determinant
  have hD : 0 < D.val := by
    rw [Exact.val_abs]
    exact abs_pos.2 hdet
  obtain ⟨M00, h00, hM00⟩ := stressMass_pointwise hgeo
  obtain ⟨M00', h00', hM00'⟩ := stressMass_eq_refMass hgeo
  obtain rfl : M00 = M00' := Except.ok.inj (h00.symm.trans h00')
  obtain ⟨hd, hpiv⟩ := refMass_scaled_pivots hD hM00'
  obtain ⟨M01, h01, hM01⟩ := strainStress_pointwise m hgeo
  obtain ⟨M10, h10, hM10⟩ := stressDivergence_pointwise hgeo
  obtain ⟨A, hA, hMA⟩ := displacementStiffness_pointwise m hgeo
  have s00 : M00.shape = (9, 9) := by simp only [Matrix.shape, hM00.1, hM00.2.1]
  have s01 : M01.shape = (9, 12) := by simp only [Matrix.shape, hM01.1, hM01.2.1]
  have s10 : M10.shape = (12, 9) := by simp only [Matrix.shape, hM10.1, hM10.2.1]
  obtain ⟨x, hx, R, hR, hMR⟩ := CondensationSettings.condenseInto_eq_ok {} hM00.2.2.1 hM01.2.2.1
    (by norm_num) s00 s01 s10 hpiv hd
  refine ⟨k, A, hk, ?_, ?_, hMA.1, hMA.2.1⟩
  · simp only [ElementKernel.tabulate, ElementKernel.tabulateInto, if_true]
    exact hA
  · rw [htab, h00, h01, h10]
    simp only [bind, Except.bind, hR]
    congr 1
    refine Matrix.ext_get hMR.2.2.1 hMA.2.2.1 (hMR.1.trans hMA.1.symm) (hMR.2.1.trans hMA.2.1.symm)
      fun i hi j hj => Exact.ext ?_
    rw [hMR.1] at hi
    rw [hMR.2.1] at hj
    rw [hMR.2.2.2 i hi j hj, hMA.2.2.2 i hi j hj]
    beta_reduce
    -- the stresses that solve the mass system, read at each point
    have hY := mass_solve_pointwise (w := fun q => (rulePoint q).1.val * D.val)
      (ψ := rulePsi) (N := basisNorm)
      (T := fun q c => ((m.stressOfGradient ((Vec2.unit (j % 2)).outer (ruleGrad it q (j / 2)))).contract
          (symBasis c)).val)
      (X := fun t => (x.get t j).val) (rulePoint_unisolvent) (fun q _ => ?_) (fun a ha c hc => ?_)
    · -- the condensed entry, point by point
      have hN : ∀ c < 3, (basisNorm c : K) ≠ 0 := fun c _ => by
        unfold basisNorm
        split_ifs <;> norm_num
      rw [sum_congr rfl fun t ht => by rw [hM10.2.2.2 i hi t (mem_range.1 ht)],
        condensed_pointwise (R := fun q d => (((symBasis d).row (i % 2)).dot (ruleGrad it q (i / 2))).val)
          hN hY]
      refine congrArg Neg.neg (sum_congr rfl fun q _ => congrArg _ ?_)
      exact sum_symBasis_stress m (ne_of_gt (show (0 : K) < 1 + m.poisson.val by linarith))
        (ne_of_gt (show (0 : K) < 1 - m.poisson.val by linarith)) _ _ (Nat.mod_lt _ (by omega))
        (Nat.mod_lt _ (by omega))
    · -- every weight is `fl(1/6) |det J|`
      rw [(rulePoint_val q).1, refPoint_weight]
      exact mul_ne_zero (Rat.cast_ne_zero.2 floatValue_ruleA_ne_zero) hD.ne'
    · -- row `3a + c` of the mass system
      have hq : (3 * a + c) / 3 = a := by omega
      have hr : (3 * a + c) % 3 = c := by omega
      calc ∑ t ∈ range 9, (if c = t % 3 then ∑ q ∈ range 3, (rulePoint q).1.val * D.val *
              rulePsi a q * rulePsi (t / 3) q * basisNorm c else 0) * (x.get t j).val
          = ∑ t ∈ range 9, (M00.get (3 * a + c) t).val * (x.get t j).val :=
            sum_congr rfl fun t ht => by
              rw [hM00.2.2.2 _ (by omega) t (mem_range.1 ht)]
              beta_reduce
              rw [hq, hr]
        _ = (M01.get (3 * a + c) j).val := hx _ (by omega) j hj
        _ = _ := by
            rw [hM01.2.2.2 _ (by omega) j hj]
            beta_reduce
            rw [hq, hr]

/-- Condensing the mixed element, the stress mass, strain–stress and stress–divergence tensors
with the default settings, succeeds on every cell of nonzero determinant and for every material
with `E > 0` and `-1 < ν < 1`, and gives the displacement stiffness tensor exactly. -/
theorem condensedElasticity_tabulate_eq {E ν : Exact K} (hE : 0 < E.val) (hν : -1 < ν.val)
    (hν' : ν.val < 1) (cell : CellData (Exact K)) (hdet : cell.triangle.determinant.val ≠ 0) :
    ∃ m k A, PlaneStress.make E ν = .ok m ∧ condensedElasticity {} m = .ok k ∧
      (displacementStiffness m).tabulate cell = .ok A ∧ k.tabulate cell = .ok A ∧
        A.rows = 12 ∧ A.cols = 12 := by
  obtain ⟨k, A, hk, hA, hkA, hr, hc⟩ :=
    condensedElasticity_tabulate_eq_stiffness ⟨E, ν⟩ hν hν' cell hdet
  exact ⟨_, k, A, PlaneStress.make_eq_ok hE hν hν', hk, hA, hkA, hr, hc⟩

/-- The equivalence on the cell `(0, 0), (2, 0), (1, 3)`, with `E = 1` and `ν = 1/3`. -/
theorem condensedElasticity_tabulate_eq_on_cell :
    let cell : CellData (Exact ℚ) := ⟨0, ⟨⟨.mk 0, .mk 0⟩, ⟨.mk 2, .mk 0⟩, ⟨.mk 1, .mk 3⟩⟩⟩
    ((0 : ℚ) < 1 ∧ (-1 : ℚ) < 1 / 3 ∧ (1 / 3 : ℚ) < 1 ∧ cell.triangle.determinant.val ≠ 0) ∧
      ∃ m k A, PlaneStress.make (Exact.mk 1) (Exact.mk (1 / 3)) = .ok m ∧
        condensedElasticity {} m = .ok k ∧ (displacementStiffness m).tabulate cell = .ok A ∧
          k.tabulate cell = .ok A ∧ A.rows = 12 ∧ A.cols = 12 := by
  intro cell
  have hdet : cell.triangle.determinant.val ≠ 0 := by decide +kernel
  exact ⟨⟨by norm_num, by norm_num, by norm_num, hdet⟩,
    condensedElasticity_tabulate_eq (E := Exact.mk (1 : ℚ)) (by norm_num) (by norm_num) (by norm_num)
      cell hdet⟩

end MixedFem
