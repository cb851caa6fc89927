import Mathlib.Data.Rat.Cast.Order
import MixedFem.Proofs.Matrix.Factor

/-!
# The factorization of a scaled rational matrix

The LU factorization commutes with scaling by `c > 0` and with the embedding of `ℚ` in an
ordered field: the pivot search compares moduli only, the multipliers are quotients in which `c`
cancels, and the trailing block is updated by a difference of products that scales by `c`. So
the factorization of a matrix whose entries are `c` times rationals is read off the factorization
of the rational matrix, which can be computed.

* `Matrix.pivotRow_scaled` : the pivot row of `c A₀` is that of `A₀`;
* `LuScaled c n i f f₀` : the relation between the two runs after `i` steps; `LuScaled.swap`,
  `LuScaled.eliminate`, `LuScaled.skip`;
* `lu_scaled` : the factors of `c A₀` are the multipliers of `A₀` below the diagonal and `c`
  times its upper factor on and above it.
-/

namespace MixedFem

variable {K : Type} [Field K] [LinearOrder K]

namespace Matrix

/-- The pivot search reads only the order of the moduli: scaling column `i` by `c > 0` and
embedding it in an ordered field leaves the pivot row unchanged. -/
theorem pivotRow_scaled [IsStrictOrderedRing K] {m : Matrix (Exact K)} {m₀ : Matrix (Exact ℚ)} {i : Nat} {c : K}
    (hc : 0 < c) (hi : i < m.rows) (hrows : m.rows = m₀.rows)
    (h : ∀ r, i ≤ r → r < m.rows → (m.get r i).val = c * ((m₀.get r i).val : K)) :
    m.pivotRow (ρ := Exact K) i = m₀.pivotRow (ρ := Exact ℚ) i := by
  rw [pivotRow_eq_foldl, pivotRow_eq_foldl, ← hrows]
  have habs : ∀ r, i ≤ r → r < m.rows →
      (Magnitude.norm1 (m.get r i) : Exact K).val = c * ((Magnitude.norm1 (m₀.get r i) : Exact ℚ).val : K) := by
    intro r h1 h2
    simp only [Exact.norm1_eq, Exact.val_abs, h r h1 h2, abs_mul, abs_of_pos hc, Rat.cast_abs]
  -- the two searches visit the same rows and keep the same row, their moduli related by `c`
  have key : ∀ L, i + 1 + L ≤ m.rows →
      let p := (List.range' (i + 1) L).foldl
        (fun p r => if p.2 < Magnitude.norm1 (m.get r i) then (r, Magnitude.norm1 (m.get r i)) else p)
        (i, (Magnitude.norm1 (m.get i i) : Exact K))
      let p₀ := (List.range' (i + 1) L).foldl
        (fun p r => if p.2 < Magnitude.norm1 (m₀.get r i) then (r, Magnitude.norm1 (m₀.get r i)) else p)
        (i, (Magnitude.norm1 (m₀.get i i) : Exact ℚ))
      p.1 = p₀.1 ∧ p.2.val = c * (p₀.2.val : K) := by
    intro L
    induction L with
    | zero => intro hL; exact ⟨rfl, habs i le_rfl (by omega)⟩
    | succ L ih =>
      intro hL
      obtain ⟨h1, h2⟩ := ih (by omega)
      simp only [List.range'_1_concat, List.foldl_append, List.foldl_cons, List.foldl_nil]
      set p := (List.range' (i + 1) L).foldl
        (fun p r => if p.2 < Magnitude.norm1 (m.get r i) then (r, Magnitude.norm1 (m.get r i)) else p)
        (i, (Magnitude.norm1 (m.get i i) : Exact K))
      set p₀ := (List.range' (i + 1) L).foldl
        (fun p r => if p.2 < Magnitude.norm1 (m₀.get r i) then (r, Magnitude.norm1 (m₀.get r i)) else p)
        (i, (Magnitude.norm1 (m₀.get i i) : Exact ℚ))
      have hlt : p.2 < Magnitude.norm1 (m.get (i + 1 + L) i) ↔
          p₀.2 < Magnitude.norm1 (m₀.get (i + 1 + L) i) := by
        rw [Exact.lt_iff, Exact.lt_iff, h2, habs _ (by omega) (by omega), mul_lt_mul_iff_right₀ hc,
          Rat.cast_lt]
      by_cases hl : p₀.2 < Magnitude.norm1 (m₀.get (i + 1 + L) i)
      · rw [if_pos (hlt.2 hl), if_pos hl]
        exact ⟨rfl, habs _ (by omega) (by omega)⟩
      · rw [if_neg (fun h' => hl (hlt.1 h')), if_neg hl]
        exact ⟨h1, h2⟩
  exact (key (m.rows - (i + 1)) (by omega)).1

end Matrix

/-- After `i` steps on `A = c A₀` and on `A₀`: the multipliers of the finished columns agree and
every other entry is `c` times its rational counterpart. -/
structure LuScaled (c : K) (n i : Nat) (f : Lu (Exact K)) (f₀ : Lu (Exact ℚ)) : Prop where
  rows : f.factors.rows = n
  cols : f.factors.cols = n
  wf : f.factors.WF
  rows₀ : f₀.factors.rows = n
  cols₀ : f₀.factors.cols = n
  wf₀ : f₀.factors.WF
  entry : ∀ r < n, ∀ s < n,
    (f.factors.get r s).val = (if s < min r i then 1 else c) * ((f₀.factors.get r s).val : K)

variable {c : K} {n i : Nat} {f : Lu (Exact K)} {f₀ : Lu (Exact ℚ)}

theorem LuScaled.swap (h : LuScaled c n i f f₀) {p : Nat} (hi : i < n) (hip : i ≤ p) (hp : p < n) :
    LuScaled c n i ⟨f.factors.swapRows i p, f.swaps.push (i, p)⟩
      ⟨f₀.factors.swapRows i p, f₀.swaps.push (i, p)⟩ := by
  refine ⟨by simp [h.rows], by simp [h.cols], h.wf.swapRows (h.rows ▸ hi) (h.rows ▸ hp),
    by simp [h.rows₀], by simp [h.cols₀], h.wf₀.swapRows (h.rows₀ ▸ hi) (h.rows₀ ▸ hp),
    fun r hr s hs => ?_⟩
  have hmin : min (Equiv.swap i p r) i = min r i := by
    rw [Equiv.swap_apply_def]
    split_ifs <;> omega
  dsimp only
  rw [Matrix.get_swapRows h.wf (h.rows ▸ hi) (h.rows ▸ hp) (h.rows ▸ hr) (h.cols ▸ hs),
    Matrix.get_swapRows h.wf₀ (h.rows₀ ▸ hi) (h.rows₀ ▸ hp) (h.rows₀ ▸ hr) (h.cols₀ ▸ hs),
    h.entry _ (swap_lt hi hp hr) s hs, hmin]

/-- An elimination step on matching nonzero pivots: the new multipliers agree, the updated block
is still `c` times its counterpart. -/
theorem LuScaled.eliminate [IsStrictOrderedRing K] (h : LuScaled c n i f f₀) (hc : c ≠ 0) (hi : i < n) :
    LuScaled c n (i + 1) ⟨f.factors.eliminate (f.factors.get i i) i, f.swaps⟩
      ⟨f₀.factors.eliminate (f₀.factors.get i i) i, f₀.swaps⟩ := by
  obtain ⟨hr, hc', hw, hget⟩ := Matrix.get_eliminate h.wf (h.rows ▸ hi) (h.cols ▸ hi)
    (f.factors.get i i)
  obtain ⟨hr₀, hc₀, hw₀, hget₀⟩ := Matrix.get_eliminate h.wf₀ (h.rows₀ ▸ hi) (h.cols₀ ▸ hi)
    (f₀.factors.get i i)
  refine ⟨hr.trans h.rows, hc'.trans h.cols, hw, hr₀.trans h.rows₀, hc₀.trans h.cols₀, hw₀,
    fun r hr' s hs => ?_⟩
  dsimp only
  rw [hget r (h.rows ▸ hr') s (h.cols ▸ hs), hget₀ r (h.rows₀ ▸ hr') s (h.cols₀ ▸ hs)]
  beta_reduce
  -- from the diagonal down, column `i` and the trailing block are still scaled by `c`
  have hsc : ∀ r < n, ∀ s < n, i ≤ s → (f.factors.get r s).val = c * ((f₀.factors.get r s).val : K) :=
    fun r hr s hs his => by rw [h.entry r hr s hs, if_neg (by omega)]
  by_cases h1 : i < r ∧ s = i
  · rw [if_pos h1, if_pos h1, if_pos (show s < min r (i + 1) by omega), hsc r hr' i hi le_rfl,
      hsc i hi i hi le_rfl, mul_div_mul_left _ _ hc, Rat.cast_div, one_mul]
  · rw [if_neg h1, if_neg h1]
    by_cases h2 : i < r ∧ i < s
    · rw [if_pos h2, if_pos h2, if_neg (show ¬ s < min r (i + 1) by omega), hsc r hr' s hs h2.2.le,
        hsc i hi s hs h2.2.le, hsc r hr' i hi le_rfl, hsc i hi i hi le_rfl, mul_div_mul_left _ _ hc]
      push_cast
      ring
    · rw [if_neg h2, if_neg h2, h.entry r hr' s hs]
      exact congrArg (· * _) (if_congr (by omega) rfl rfl)

/-- Skipping a column that is zero from the diagonal down, on both sides. -/
theorem LuScaled.skip (h : LuScaled c n i f f₀)
    (hz : ∀ r, i ≤ r → r < n → (f₀.factors.get r i).val = 0) : LuScaled c n (i + 1) f f₀ := by
  refine ⟨h.rows, h.cols, h.wf, h.rows₀, h.cols₀, h.wf₀, fun r hr s hs => ?_⟩
  rw [h.entry r hr s hs]
  by_cases hsi : s = i ∧ i < r
  · obtain ⟨rfl, hir⟩ := hsi
    rw [hz r hir.le hr, Rat.cast_zero, mul_zero, mul_zero]
  · exact congrArg (· * _) (if_congr (by omega) rfl rfl)

/-- The LU factorization of `c A₀`, for `c > 0` in an ordered field and `A₀` rational, makes the
same row exchanges as that of `A₀`: its multipliers are those of `A₀` and its upper factor is
`c` times that of `A₀`. -/
theorem lu_scaled [IsStrictOrderedRing K] {a : Matrix (Exact K)} {a₀ : Matrix (Exact ℚ)} (hc : 0 < c) (ha : a.WF)
    (ha₀ : a₀.WF) (hr : a.rows = n) (hcl : a.cols = n) (hr₀ : a₀.rows = n) (hc₀ : a₀.cols = n)
    (h : ∀ r < n, ∀ s < n, (a.get r s).val = c * ((a₀.get r s).val : K)) :
    LuScaled c n n (a.lu (ρ := Exact K)) (a₀.lu (ρ := Exact ℚ)) := by
  unfold Matrix.lu
  rw [hr, hcl, hr₀, hc₀, min_self]
  refine foldl_range_invariant₂ (R := fun i f f₀ => LuScaled c n i f f₀) (fun f f₀ i hi h => ?_)
    ⟨hr, hcl, ha, hr₀, hc₀, ha₀, fun r hr s hs => by rw [h r hr s hs, if_neg (by omega)]⟩
    n le_rfl
  have hir₀ : i < f₀.factors.rows := h.rows₀ ▸ hi
  obtain ⟨hlo, hhi, -⟩ := Matrix.pivotRow_spec (R := ℚ) (m := f₀.factors) hir₀
  have hpiv : f.factors.pivotRow (ρ := Exact K) i = f₀.factors.pivotRow (ρ := Exact ℚ) i :=
    Matrix.pivotRow_scaled hc (h.rows ▸ hi) (h.rows.trans h.rows₀.symm)
      fun r h1 h2 => by rw [h.entry r (h.rows ▸ h2) i hi, if_neg (by omega)]
  have hhi' : f₀.factors.pivotRow (ρ := Exact ℚ) i < n := h.rows₀ ▸ hhi
  have hdiag : (f.factors.get (f₀.factors.pivotRow (ρ := Exact ℚ) i) i).val =
      c * ((f₀.factors.get (f₀.factors.pivotRow (ρ := Exact ℚ) i) i).val : K) := by
    rw [h.entry _ hhi' i hi, if_neg (by omega)]
  have hzero : Scalar.isZero (f.factors.get (f₀.factors.pivotRow (ρ := Exact ℚ) i) i) =
      Scalar.isZero (f₀.factors.get (f₀.factors.pivotRow (ρ := Exact ℚ) i) i) := by
    simp only [Exact.isZero_eq, hdiag, mul_eq_zero, hc.ne', false_or, Rat.cast_eq_zero]
  dsimp only
  rw [hpiv, hzero]
  split_ifs with hz hne
  · -- both columns are zero from the diagonal down
    rw [Exact.isZero_eq, decide_eq_true_iff] at hz
    exact h.skip fun r h1 h2 =>
      Matrix.pivotRow_column_zero hir₀ hz r h1 (by rw [h.rows₀]; exact h2)
  · -- the same exchange on both sides, then the elimination
    rw [← Matrix.get_swapRows_left h.wf (h.rows ▸ hi) (h.rows ▸ hhi') (h.cols ▸ hi),
      ← Matrix.get_swapRows_left h.wf₀ (h.rows₀ ▸ hi) (h.rows₀ ▸ hhi') (h.cols₀ ▸ hi)]
    exact (h.swap hi hlo hhi').eliminate hc.ne' hi
  · have hpi : f₀.factors.pivotRow (ρ := Exact ℚ) i = i := not_not.1 hne
    rw [hpi]
    exact h.eliminate hc.ne' hi

end MixedFem
