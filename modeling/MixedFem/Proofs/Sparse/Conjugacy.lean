import Mathlib.Data.Matrix.Mul
import Mathlib.LinearAlgebra.Dimension.Constructions
import Mathlib.LinearAlgebra.Dimension.Finite
import Mathlib.Tactic.FieldSimp
import Mathlib.Tactic.Ring

/-!
# Conjugacy of the conjugate gradient recurrences

Read in an ordered field, the preconditioned conjugate gradient iteration with a diagonal
preconditioner of positive weights `w` is a pair of recurrences on residuals `r_j` and search
directions `p_j`:

  `r_{j+1} = r_j - α_j A p_j`, `p_{j+1} = w r_{j+1} + β_j p_j`, `p_0 = w r_0`,

with `α_j = (w r_j · r_j) / (p_j · A p_j)` and `β_j = (w r_{j+1} · r_{j+1}) / (w r_j · r_j)`. For a
symmetric `A`, whatever the signs it has elsewhere, as long as the two divisors stay positive the
residuals are orthogonal in the weighted product and the directions `A`-conjugate. Nonzero
residuals orthogonal in a positive product are independent, so there are at most `n` of them.

* `ConjugateStep A w r p r' p'` : one update, with positive divisors; `ConjugateRun A w r p k` :
  the recurrences over the first `k` updates;
* `Conjugate A w r p k` : the relations among the first `k + 1` residuals and directions;
  `ConjugateRun.conjugate` : the recurrences imply them, by induction on `k`;
* `ConjugateRun.lt_of_ne_zero` : `k + 1` nonzero residuals force `k < n`.
-/

namespace MixedFem

open Finset

variable {K : Type} [Field K] [LinearOrder K] {n : ℕ}

section Weighted

variable (w : Fin n → K)

omit [LinearOrder K] in
/-- The weighted product is symmetric. -/
theorem weighted_dotProduct_comm (u v : Fin n → K) : (w * u) ⬝ᵥ v = (w * v) ⬝ᵥ u := by
  simp only [dotProduct, Pi.mul_apply]
  exact sum_congr rfl fun i _ => by ring

variable {w}

/-- Positive weights give a positive product on nonzero vectors. -/
theorem weighted_dotProduct_self_pos [IsStrictOrderedRing K] (hw : ∀ i, 0 < w i) {u : Fin n → K}
    (hu : u ≠ 0) :
    0 < (w * u) ⬝ᵥ u := by
  obtain ⟨i, hi⟩ := Function.ne_iff.1 hu
  simp only [dotProduct, Pi.mul_apply]
  refine sum_pos' (fun j _ => ?_) ⟨i, mem_univ i, ?_⟩
  · rw [mul_assoc]
    exact mul_nonneg (hw j).le (mul_self_nonneg (u j))
  · rw [mul_assoc]
    exact mul_pos (hw i) (mul_self_pos.2 hi)

end Weighted

variable (A : (Fin n → K) → Fin n → K) (w : Fin n → K)

/-- One update of the recurrences, from the residual and direction `(r, p)` to `(r', p')`: the
residual moves along `A p` by `α = (w r · r) / (p · A p)`, and the direction towards `w r'` by
`β = (w r' · r') / (w r · r)`, both divisors positive. -/
structure ConjugateStep (r p r' p' : Fin n → K) : Prop where
  res : r' = r - ((w * r) ⬝ᵥ r / p ⬝ᵥ A p) • A p
  dir : p' = w * r' + ((w * r') ⬝ᵥ r' / (w * r) ⬝ᵥ r) • p
  res_pos : 0 < (w * r) ⬝ᵥ r
  dir_pos : 0 < p ⬝ᵥ A p

variable (r p : ℕ → Fin n → K)

/-- The recurrences over the first `k` updates, from the first direction `p_0 = w r_0`. -/
structure ConjugateRun (k : ℕ) : Prop where
  dir_zero : p 0 = w * r 0
  step : ∀ j < k, ConjugateStep A w (r j) (p j) (r (j + 1)) (p (j + 1))

/-- The relations among the first `k + 1` residuals and directions: earlier preconditioned
residuals are orthogonal to later residuals, directions are `A`-conjugate, and the last direction
meets the last residual as the preconditioned residual does. -/
structure Conjugate (k : ℕ) : Prop where
  res_orth : ∀ i j, i < j → j ≤ k → (w * r i) ⬝ᵥ r j = 0
  dir_conj : ∀ i j, i < j → j ≤ k → p i ⬝ᵥ A (p j) = 0
  dir_res : p k ⬝ᵥ r k = (w * r k) ⬝ᵥ r k

variable {A w r p}

/-- `A p` is a difference of residuals: `A p = (r - r') / α`. -/
theorem ConjugateStep.dir_eq {r₀ p₀ r₁ p₁ : Fin n → K} (h : ConjugateStep A w r₀ p₀ r₁ p₁) :
    A p₀ = (p₀ ⬝ᵥ A p₀ / (w * r₀) ⬝ᵥ r₀) • (r₀ - r₁) := by
  rw [h.res, sub_sub_cancel, smul_smul, div_mul_div_cancel₀ h.res_pos.ne', div_self h.dir_pos.ne',
    one_smul]

theorem ConjugateRun.mono {k : ℕ} (h : ConjugateRun A w r p (k + 1)) :
    ConjugateRun A w r p k where
  dir_zero := h.dir_zero
  step j hj := h.step j (by omega)

section Step

variable {k : ℕ} (hA : ∀ u v, u ⬝ᵥ A v = A u ⬝ᵥ v) (h : ConjugateRun A w r p (k + 1))
  (hc : Conjugate A w r p k)
include h hc

/-- A preconditioned residual meets `A p_k` as its own direction does: `w r_i = p_i - β p_{i-1}`,
and the earlier direction is conjugate to `p_k`. -/
theorem Conjugate.res_dot_dir {i : ℕ} (hi : i ≤ k) :
    (w * r i) ⬝ᵥ A (p k) = if i = k then p k ⬝ᵥ A (p k) else 0 := by
  cases i with
  | zero =>
    rw [← h.dir_zero]
    split_ifs with hk
    · rw [hk]
    · exact hc.dir_conj 0 k (by omega) le_rfl
  | succ j =>
    have hz : w * r (j + 1) =
        p (j + 1) - ((w * r (j + 1)) ⬝ᵥ r (j + 1) / (w * r j) ⬝ᵥ r j) • p j := by
      rw [(h.step j (by omega)).dir, add_sub_cancel_right]
    rw [hz, sub_dotProduct, smul_dotProduct, smul_eq_mul, hc.dir_conj j k (by omega) le_rfl,
      mul_zero, sub_zero]
    split_ifs with hk
    · rw [hk]
    · exact hc.dir_conj (j + 1) k (by omega) le_rfl

/-- The new residual is orthogonal to every earlier preconditioned residual. -/
theorem Conjugate.res_orth_succ {i : ℕ} (hi : i ≤ k) : (w * r i) ⬝ᵥ r (k + 1) = 0 := by
  have hstep := h.step k (by omega)
  rw [hstep.res, dotProduct_sub, dotProduct_smul, smul_eq_mul, hc.res_dot_dir h hi]
  split_ifs with hk
  · -- `α_k` is chosen to cancel the component along `w r_k`
    subst hk
    rw [div_mul_cancel₀ _ hstep.dir_pos.ne', sub_self]
  · rw [hc.res_orth i k (by omega) le_rfl, mul_zero, sub_zero]

include hA in
/-- The new direction is conjugate to every earlier one. -/
theorem Conjugate.dir_conj_succ {i : ℕ} (hi : i ≤ k) : p i ⬝ᵥ A (p (k + 1)) = 0 := by
  have horth : ∀ j ≤ k, (w * r j) ⬝ᵥ r (k + 1) = 0 := fun j hj => hc.res_orth_succ h hj
  -- `A p_i`, written through the residuals, meets the new preconditioned residual
  have hz : A (p i) ⬝ᵥ (w * r (k + 1)) = (p i ⬝ᵥ A (p i) / (w * r i) ⬝ᵥ r i) *
      ((w * r i) ⬝ᵥ r (k + 1) - (w * r (i + 1)) ⬝ᵥ r (k + 1)) := by
    conv => lhs; rw [(h.step i (by omega)).dir_eq]
    rw [smul_dotProduct, smul_eq_mul, sub_dotProduct,
      dotProduct_comm (r i), dotProduct_comm (r (i + 1)),
      weighted_dotProduct_comm w (r (k + 1)) (r i),
      weighted_dotProduct_comm w (r (k + 1)) (r (i + 1))]
  rw [hA, (h.step k (by omega)).dir, dotProduct_add, dotProduct_smul, smul_eq_mul, hz, horth i hi,
    ← hA (p i) (p k)]
  rcases Nat.lt_or_ge i k with hik | hik
  · rw [horth (i + 1) hik, hc.dir_conj i k hik le_rfl]
    ring
  · -- the last direction: `β_k` cancels what `w r_{k+1}` leaves along `A p_k`
    obtain rfl : i = k := le_antisymm hi hik
    ring

/-- The new direction meets the new residual as the new preconditioned residual does. -/
theorem Conjugate.dir_res_succ : p (k + 1) ⬝ᵥ r (k + 1) = (w * r (k + 1)) ⬝ᵥ r (k + 1) := by
  have hstep := h.step k (by omega)
  have hold : p k ⬝ᵥ r (k + 1) = 0 := by
    rw [hstep.res, dotProduct_sub, dotProduct_smul, smul_eq_mul, hc.dir_res,
      div_mul_cancel₀ _ hstep.dir_pos.ne', sub_self]
  rw [hstep.dir, add_dotProduct, smul_dotProduct, hold, smul_zero, add_zero]

include hA in
/-- One update keeps the conjugacy relations. -/
theorem Conjugate.succ : Conjugate A w r p (k + 1) where
  res_orth i j hij hj := by
    rcases Nat.lt_or_ge j (k + 1) with hjk | hjk
    · exact hc.res_orth i j hij (by omega)
    · obtain rfl : j = k + 1 := by omega
      exact hc.res_orth_succ h (by omega)
  dir_conj i j hij hj := by
    rcases Nat.lt_or_ge j (k + 1) with hjk | hjk
    · exact hc.dir_conj i j hij (by omega)
    · obtain rfl : j = k + 1 := by omega
      exact hc.dir_conj_succ hA h (by omega)
  dir_res := hc.dir_res_succ h

end Step

/-- Before any update the relations hold: the first direction is the preconditioned residual. -/
theorem ConjugateRun.conjugate_zero (h : ConjugateRun A w r p 0) : Conjugate A w r p 0 where
  res_orth _ _ hij hj := by omega
  dir_conj _ _ hij hj := by omega
  dir_res := by rw [h.dir_zero]

/-- The recurrences of conjugate gradients for a symmetric `A` imply the conjugacy relations, by
induction on the number of updates. -/
theorem ConjugateRun.conjugate (hA : ∀ u v, u ⬝ᵥ A v = A u ⬝ᵥ v) :
    ∀ {k : ℕ}, ConjugateRun A w r p k → Conjugate A w r p k
  | 0, h => h.conjugate_zero
  | _ + 1, h => (ConjugateRun.conjugate hA h.mono).succ hA h

/-- At most `n` residuals of a run are nonzero: `k + 1` nonzero residuals, orthogonal in the
positive weighted product, are linearly independent in `K^n`. -/
theorem ConjugateRun.lt_of_ne_zero [IsStrictOrderedRing K] (hA : ∀ u v, u ⬝ᵥ A v = A u ⬝ᵥ v)
    (hw : ∀ i, 0 < w i) {k : ℕ} (h : ConjugateRun A w r p k) (hr : ∀ j ≤ k, r j ≠ 0) : k < n := by
  have hc := h.conjugate hA
  -- residuals `i ≠ j` are orthogonal, from whichever comes first
  have horth : ∀ i j : Fin (k + 1), i ≠ j → (w * r i) ⬝ᵥ r j = 0 := by
    intro i j hij
    rcases Nat.lt_or_gt_of_ne (Fin.val_ne_of_ne hij) with hlt | hlt
    · exact hc.res_orth i j hlt (by omega)
    · rw [weighted_dotProduct_comm]
      exact hc.res_orth j i hlt (by omega)
  have hind : LinearIndependent K fun j : Fin (k + 1) => r j := by
    refine Fintype.linearIndependent_iff.2 fun g hg i => ?_
    -- the product of the combination with `w r_i` keeps the one term `g_i (w r_i · r_i)`
    have hdot : (w * r i) ⬝ᵥ ∑ j, g j • r j = g i * ((w * r i) ⬝ᵥ r i) := by
      rw [dotProduct_sum, sum_eq_single i (fun j _ hji => by
        rw [dotProduct_smul, horth i j (Ne.symm hji), smul_zero]) (by simp)]
      rw [dotProduct_smul, smul_eq_mul]
    rw [hg, dotProduct_zero] at hdot
    exact (mul_eq_zero.1 hdot.symm).resolve_right
      (weighted_dotProduct_self_pos hw (hr i (by omega))).ne'
  have hcard := hind.fintype_card_le_finrank
  rw [Fintype.card_fin, Module.finrank_fin_fun] at hcard
  omega

end MixedFem
