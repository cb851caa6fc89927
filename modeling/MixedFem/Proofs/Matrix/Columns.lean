import Mathlib.LinearAlgebra.Matrix.NonsingularInverse
import MixedFem.Proofs.Matrix.Solve

/-!
# The pivots of an LU factorization and the columns of the matrix

With `P A = L U` and `L` unit lower triangular, `A g = 0` exactly when `U g = 0`; the upper factor
then tells which columns of `A` depend on the earlier ones: the columns `0, …, k` are independent
exactly when `U` has no zero on its diagonal up to `k`. So the first zero pivot of the
factorization sits at the first column that depends on the columns before it, and `A` is
invertible exactly when no pivot is zero.

* `Matrix.values`, `Matrix.leadingColumns` : a matrix, and its first columns, over the field;
* `upperMul` : a row of the upper factor times a vector;
* `LuStage.kernel_iff` : `A g = 0 ↔ U g = 0`;
* `upperMul_eq_zero`, `upperMul_kernel_exists` : `U g = 0` forces `g = 0` on `[0, k]` when the
  pivots up to `k` are nonzero, and has a solution `g ≠ 0` on `[0, k]` when `U_kk = 0`;
* `LuStage.leadingColumns_independent_iff`, `LuStage.det_ne_zero_iff` : the columns and the
  determinant of `A` read off the pivots; `LuStage.isLeast_dependent_iff` : the first zero pivot
  is at the first column that depends on the ones before;
* `values_eq_inv_mul` : a solution of `A X = B` is `A⁻¹ B`.
-/

namespace MixedFem

namespace Matrix

variable {K : Type} [Field K] [DecidableEq K]

/-- The values of the entries in the first `r` rows and `c` columns, as a matrix over the field. -/
def values (m : Matrix (Exact K)) (r c : Nat) := Matrix.of fun (i : Fin r) (j : Fin c) => (m.get i j).val

@[simp] theorem values_apply (m : Matrix (Exact K)) (r c : Nat) (i : Fin r) (j : Fin c) :
    m.values r c i j = (m.get i j).val := rfl

/-- The columns `0, …, k`, as vectors of the first `n` rows. -/
def leadingColumns (m : Matrix (Exact K)) (n k : Nat) : Fin (k + 1) → Fin n → K :=
  fun j i => (m.get i j).val

/-- A combination of the leading columns, with the coefficients of a vector that vanishes past
`k`, is the product of the matrix with that vector. -/
theorem sum_smul_leadingColumns (m : Matrix (Exact K)) {n k : Nat} (hk : k < n) {g : Nat → K}
    (hg : ∀ s, k < s → g s = 0) :
    ∑ j : Fin (k + 1), g j • m.leadingColumns n k j =
      fun q : Fin n => ∑ s ∈ Finset.range n, (m.get q s).val * g s := by
  funext q
  simp only [Finset.sum_apply, Pi.smul_apply, smul_eq_mul, leadingColumns]
  calc ∑ j : Fin (k + 1), g j * (m.get q j).val
      = ∑ s ∈ Finset.range (k + 1), g s * (m.get q s).val :=
        Fin.sum_univ_eq_sum_range (fun s => g s * (m.get q s).val) (k + 1)
    _ = ∑ s ∈ Finset.range n, g s * (m.get q s).val :=
        Finset.sum_subset (Finset.range_subset_range.2 (by omega)) fun s _ hs => by
          rw [hg s (by simp at hs; omega), zero_mul]
    _ = ∑ s ∈ Finset.range n, (m.get q s).val * g s := Finset.sum_congr rfl fun s _ => mul_comm _ _

end Matrix

variable {K : Type} [Field K] [DecidableEq K]

/-- Row `t` of the upper factor, the entries of `F` on and right of the diagonal, times `g`. -/
def upperMul (F : Matrix (Exact K)) (n : Nat) (g : Nat → K) (t : Nat) : K :=
  ∑ s ∈ Finset.range n, if t ≤ s then (F.get t s).val * g s else 0

/-- A row of the upper factor times a vector that vanishes right of the diagonal. -/
theorem upperMul_of_eq_zero {F : Matrix (Exact K)} {n j : Nat} (hj : j < n) {g : Nat → K}
    (hg : ∀ s, j < s → g s = 0) : upperMul F n g j = (F.get j j).val * g j := by
  unfold upperMul
  rw [Finset.sum_eq_single j (fun s _ hsj => ?_) (fun hj' => absurd (Finset.mem_range.2 hj) hj'),
    if_pos le_rfl]
  rcases Nat.lt_or_gt_of_ne hsj with hsj | hjs
  · rw [if_neg (by omega)]
  · rw [hg s hjs, mul_zero, ite_self]

/-- Back substitution: with nonzero pivots up to `k`, `U g = 0` for a `g` that vanishes past `k`
leaves `g = 0`. -/
theorem upperMul_eq_zero {F : Matrix (Exact K)} {n k : Nat} (hk : k < n)
    (hF : ∀ j ≤ k, (F.get j j).val ≠ 0) {g : Nat → K} (hsupp : ∀ s, k < s → g s = 0)
    (hU : ∀ t < n, upperMul F n g t = 0) : ∀ j ≤ k, g j = 0 := by
  -- downward over the rows, by the distance to `k`
  suffices h : ∀ d, ∀ j ≤ k, k - j = d → g j = 0 from fun j hj => h _ j hj rfl
  intro d
  induction d using Nat.strong_induction_on with
  | _ d ih =>
    intro j hj hd
    have hright : ∀ s, j < s → g s = 0 := fun s hs => by
      rcases Nat.lt_or_ge k s with hks | hsk
      · exact hsupp s hks
      · exact ih (k - s) (by omega) s hsk rfl
    have hrow := hU j (by omega)
    rw [upperMul_of_eq_zero (by omega) hright] at hrow
    exact (mul_eq_zero.1 hrow).resolve_left (hF j hj)

/-- A zero pivot `U_kk` leaves the columns `0, …, k` of the upper factor inside the `k` rows above
it, so some `g ≠ 0` on `[0, k]` has `U g = 0`. -/
theorem upperMul_kernel_exists {F : Matrix (Exact K)} {n k : Nat} (hk : k < n)
    (hz : (F.get k k).val = 0) :
    ∃ g : Nat → K, (∀ s, k < s → g s = 0) ∧ (∃ j ≤ k, g j ≠ 0) ∧ ∀ t < n, upperMul F n g t = 0 := by
  -- the `k + 1` columns, cut to the rows above `k`, in a space of dimension `k`
  let v : Fin (k + 1) → Fin k → K := fun j i => if (i : Nat) ≤ j then (F.get i j).val else 0
  have hdep : ¬ LinearIndependent K v := fun hli => by
    have := hli.fintype_card_le_finrank
    rw [Fintype.card_fin, Module.finrank_fin_fun] at this
    omega
  obtain ⟨c, hc, i, hi⟩ := Fintype.not_linearIndependent_iff.1 hdep
  let g : Nat → K := fun s => if hs : s < k + 1 then c ⟨s, hs⟩ else 0
  have hsupp : ∀ s, k < s → g s = 0 := fun s hs => dif_neg (by omega)
  have hgc : ∀ j : Fin (k + 1), g j = c j := fun j => dif_pos j.isLt
  refine ⟨g, hsupp, ⟨i, by omega, by rw [hgc]; exact hi⟩, fun t ht => ?_⟩
  have hsum : upperMul F n g t = ∑ j : Fin (k + 1), if t ≤ j then (F.get t j).val * c j else 0 :=
    calc upperMul F n g t
        = ∑ s ∈ Finset.range (k + 1), if t ≤ s then (F.get t s).val * g s else 0 :=
          (Finset.sum_subset (Finset.range_subset_range.2 (by omega)) fun s _ hs => by
            rw [hsupp s (by simp at hs; omega), mul_zero, ite_self]).symm
      _ = ∑ j : Fin (k + 1), if t ≤ j then (F.get t j).val * g j else 0 :=
          (Fin.sum_univ_eq_sum_range (fun s => if t ≤ s then (F.get t s).val * g s else 0) _).symm
      _ = ∑ j : Fin (k + 1), if t ≤ j then (F.get t j).val * c j else 0 := by simp only [hgc]
  rw [hsum]
  rcases Nat.lt_or_ge t k with htk | hkt
  · -- a row above `k`: the combination of the columns vanishes there
    have hrow := congrFun hc ⟨t, htk⟩
    simp only [Finset.sum_apply, Pi.zero_apply, Pi.smul_apply, smul_eq_mul, v] at hrow
    refine Eq.trans (Finset.sum_congr rfl fun j _ => ?_) hrow
    split_ifs <;> ring
  · -- a row at or below `k` meets the columns `j ≤ k` only at `U_kk = 0`
    refine Finset.sum_eq_zero fun j _ => ?_
    split_ifs with htj
    · have htk : t = k := by omega
      have hjk : (j : Nat) = k := by omega
      rw [htk, hjk, hz, zero_mul]
    · rfl

section Stage

variable {a : Matrix (Exact K)} {n : Nat} {f : Lu (Exact K)}

/-- Row `π r` of `A g` is row `r` of `L (U g)`. -/
theorem LuStage.mul_eq (h : LuStage a n n f) {r : Nat} (hr : r < n) (g : Nat → K) :
    ∑ s ∈ Finset.range n, (a.get (swapsPerm f.swaps.toList r) s).val * g s =
      upperMul f.factors n g r +
        ∑ t ∈ Finset.range n, if t < r then (f.factors.get r t).val * upperMul f.factors n g t else 0 := by
  rw [Finset.sum_congr rfl fun s hs => by rw [h.factor r hr s (Finset.mem_range.1 hs), min_eq_left hr.le]]
  exact Lu.sum_factors_mul hr (fun r s => (f.factors.get r s).val) g (upperMul f.factors n g)
    (fun r => upperMul f.factors n g r +
      ∑ t ∈ Finset.range n, if t < r then (f.factors.get r t).val * upperMul f.factors n g t else 0)
    (fun _ _ => rfl) rfl

/-- `A g = 0` exactly when `U g = 0`: the unit lower factor and the row exchanges are invertible. -/
theorem LuStage.kernel_iff (h : LuStage a n n f) (g : Nat → K) :
    (∀ q < n, ∑ s ∈ Finset.range n, (a.get q s).val * g s = 0) ↔
      ∀ t < n, upperMul f.factors n g t = 0 := by
  constructor
  · intro hA r
    -- forward substitution with the unit lower factor, row by row
    induction r using Nat.strong_induction_on with
    | _ r ih =>
      intro hr
      have hrow := h.mul_eq hr g
      rw [hA _ (swapsPerm_lt h.swaps_lt hr),
        Finset.sum_eq_zero fun t ht => by
          split_ifs with htr
          · rw [ih t htr (Finset.mem_range.1 ht), mul_zero]
          · rfl,
        add_zero] at hrow
      exact hrow.symm
  · intro hU q hq
    have hπ := swapsPerm_inv_lt h.swaps_lt hq
    have hπq : swapsPerm f.swaps.toList ((swapsPerm f.swaps.toList)⁻¹ q) = q :=
      (Equiv.Perm.inv_eq_iff_eq.1 rfl).symm
    rw [← hπq, h.mul_eq hπ g, hU _ hπ, zero_add]
    exact Finset.sum_eq_zero fun t ht => by rw [hU t (Finset.mem_range.1 ht), mul_zero, ite_self]

/-- The columns `0, …, k` of `A` are independent exactly when no pivot up to `k` is zero. -/
theorem LuStage.leadingColumns_independent_iff (h : LuStage a n n f) {k : Nat} (hk : k < n) :
    LinearIndependent K (a.leadingColumns n k) ↔ ∀ j ≤ k, (f.factors.get j j).val ≠ 0 := by
  constructor
  · intro hli j hj hz
    obtain ⟨g, hsupp, ⟨i, hi, hgi⟩, hU⟩ := upperMul_kernel_exists (F := f.factors) (n := n) (by omega) hz
    have hsupp' : ∀ s, k < s → g s = 0 := fun s hs => hsupp s (by omega)
    have hcomb : ∑ j : Fin (k + 1), g j • a.leadingColumns n k j = 0 := by
      rw [Matrix.sum_smul_leadingColumns a hk hsupp']
      funext q
      exact (h.kernel_iff g).2 hU q q.isLt
    exact hgi (Fintype.linearIndependent_iff.1 hli (fun j => g j) hcomb ⟨i, by omega⟩)
  · intro hF
    refine Fintype.linearIndependent_iff.2 fun c hc j => ?_
    let g : Nat → K := fun s => if hs : s < k + 1 then c ⟨s, hs⟩ else 0
    have hsupp : ∀ s, k < s → g s = 0 := fun s hs => dif_neg (by omega)
    have hgc : ∀ j : Fin (k + 1), g j = c j := fun j => dif_pos j.isLt
    have hA : ∀ q < n, ∑ s ∈ Finset.range n, (a.get q s).val * g s = 0 := by
      intro q hq
      have := congrFun (Matrix.sum_smul_leadingColumns a hk hsupp) ⟨q, hq⟩
      simp only [hgc, hc] at this
      exact this.symm
    rw [← hgc j]
    exact upperMul_eq_zero hk hF hsupp ((h.kernel_iff g).1 hA) j (by omega)

/-- `A` is invertible exactly when no pivot of its factorization is zero. -/
theorem LuStage.det_ne_zero_iff (h : LuStage a n n f) :
    (a.values n n).det ≠ 0 ↔ ∀ j < n, (f.factors.get j j).val ≠ 0 := by
  cases n with
  | zero => simp [Matrix.det_isEmpty]
  | succ k =>
    have hcols : a.leadingColumns (k + 1) k = (a.values (k + 1) (k + 1)).col := rfl
    rw [← isUnit_iff_ne_zero, ← Matrix.isUnit_iff_isUnit_det, ← Matrix.linearIndependent_cols_iff_isUnit,
      ← hcols, h.leadingColumns_independent_iff (Nat.lt_succ_self k)]
    exact forall_congr' fun j => by rw [Nat.lt_succ_iff]

/-- The first zero pivot is the least `k` whose columns `0, …, k` are dependent. -/
theorem LuStage.isLeast_dependent_iff (h : LuStage a n n f) (k : Nat) :
    IsLeast {j | j < n ∧ ¬ LinearIndependent K (a.leadingColumns n j)} k ↔
      k < n ∧ (f.factors.get k k).val = 0 ∧ ∀ j < k, (f.factors.get j j).val ≠ 0 := by
  have hdep : ∀ j < n, (¬ LinearIndependent K (a.leadingColumns n j) ↔
      ∃ i ≤ j, (f.factors.get i i).val = 0) := fun j hj => by
    rw [h.leadingColumns_independent_iff hj]
    push Not
    rfl
  constructor
  · rintro ⟨⟨hk, hkdep⟩, hmin⟩
    obtain ⟨i, hik, hi⟩ := (hdep k hk).1 hkdep
    -- the zero pivot `i ≤ k` makes the columns up to `i` dependent, so `i = k`
    obtain rfl : i = k := le_antisymm hik (hmin ⟨by omega, (hdep i (by omega)).2 ⟨i, le_rfl, hi⟩⟩)
    exact ⟨hk, hi, fun j hj hz => absurd (hmin ⟨by omega, (hdep j (by omega)).2 ⟨j, le_rfl, hz⟩⟩)
      (by omega)⟩
  · rintro ⟨hk, hz, hbefore⟩
    refine ⟨⟨hk, (hdep k hk).2 ⟨k, le_rfl, hz⟩⟩, fun j ⟨hj, hjdep⟩ => ?_⟩
    obtain ⟨i, hij, hi⟩ := (hdep j hj).1 hjdep
    by_contra hlt
    exact hbefore i (by omega) hi

end Stage

/-- On an invertible `A`, a solution of `A X = B` is `A⁻¹ B`. -/
theorem values_eq_inv_mul {a x b : Matrix (Exact K)} {n c : Nat} (hdet : (a.values n n).det ≠ 0)
    (hx : ∀ r < n, ∀ k < c, ∑ s ∈ Finset.range n, (a.get r s).val * (x.get s k).val = (b.get r k).val) :
    x.values n c = (a.values n n)⁻¹ * b.values n c := by
  have hmul : a.values n n * x.values n c = b.values n c := by
    ext r k
    show ∑ s : Fin n, (a.get r s).val * (x.get s k).val = (b.get r k).val
    rw [← hx r r.isLt k k.isLt]
    exact (Finset.sum_range fun s => (a.get r s).val * (x.get s k).val).symm
  rw [← hmul, Matrix.nonsing_inv_mul_cancel_left _ _ (isUnit_iff_ne_zero.2 hdet)]

end MixedFem
