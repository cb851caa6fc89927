import Mathlib.Algebra.Order.Field.Basic
import Mathlib.Tactic.Ring
import MixedFem.Proofs.Matrix.Accumulate
import MixedFem.Matrix.Lu

/-!
# One step of elimination, entry by entry

Over an exact field, the two loops of `Matrix.eliminate` (the multipliers of column `i`, then
the columns `k > i` one at a time) and the search of `Matrix.pivotRow` are read entry by entry.

* `scaleBelow_entries` : the multipliers, column `i` below the diagonal times `1 / d`;
* `get_eliminateColumn`, `eliminateColumns_entries` : column `k` below row `i` less `u_k` times
  the multipliers, for one column and then for a run of them;
* `get_eliminate` : the whole step: `l_r = a_{r i} / d` below the pivot, `a_{r s} - a_{i s} l_r`
  in the trailing block, every other entry unchanged;
* `pivotRow_foldl`, `pivotRow_spec` : the pivot row lies in `[i, rows)` and its entry has the
  largest modulus of the column from the diagonal down.
-/

namespace MixedFem

namespace Matrix

section Eliminate

variable {K : Type} [Field K] [DecidableEq K] {m : Matrix (Exact K)} {i : Nat}

/-- The first loop of a step: the rows `i < r < i + 1 + L` of column `i` scaled by `v`. -/
theorem scaleBelow_entries (hm : m.WF) (hic : i < m.cols) (v : Exact K) : ∀ L, i + 1 + L ≤ m.rows →
    HasEntries m.rows m.cols (fun r s => if s = i ∧ i < r ∧ r < i + 1 + L then (m.get r i).val * v.val
      else (m.get r s).val) ((List.range' (i + 1) L).foldl (fun m r => m.set r i (m.get r i * v)) m)
  | 0, _ => ⟨rfl, rfl, hm, fun r _ s _ => (if_neg (by omega)).symm⟩
  | L + 1, hL => by
    obtain ⟨hr, hc, hw, hget⟩ := scaleBelow_entries hm hic v L (by omega)
    simp only [List.range'_1_concat, List.foldl_append, List.foldl_cons, List.foldl_nil]
    refine ⟨hr, hc, hw.set, fun r hr' s hs => ?_⟩
    beta_reduce
    rw [get_set hw (by omega) (by omega) (by omega) (by omega)]
    by_cases h : r = i + 1 + L ∧ s = i
    · rw [if_pos h, Exact.val_mul, hget _ (by omega) _ hic]
      beta_reduce
      rw [if_neg (by omega), if_pos (by omega), h.1]
    · rw [if_neg h, hget r hr' s hs]
      beta_reduce
      by_cases h' : s = i ∧ i < r ∧ r < i + 1 + L
      · rw [if_pos h', if_pos (by omega)]
      · rw [if_neg h', if_neg (by omega)]

/-- The loop of `eliminateColumn` over the rows `i < r < i + 1 + L`: column `k` less `u_k` times
column `i`, which it reads but does not write. -/
theorem eliminateColumn_entries (hm : m.WF) (hic : i < m.cols) {k : Nat} (hk : k < m.cols)
    (hki : k ≠ i) : ∀ L, i + 1 + L ≤ m.rows →
    HasEntries m.rows m.cols (fun r s => if s = k ∧ i < r ∧ r < i + 1 + L then
        (m.get r k).val - (m.get i k).val * (m.get r i).val else (m.get r s).val)
      ((List.range' (i + 1) L).foldl (fun m' r =>
        m'.set r k (-(m.get i k) * m'.get r i * Scalar.one + Scalar.one * m'.get r k)) m)
  | 0, _ => ⟨rfl, rfl, hm, fun r _ s _ => (if_neg (by omega)).symm⟩
  | L + 1, hL => by
    obtain ⟨hr, hc, hw, hget⟩ := eliminateColumn_entries hm hic hk hki L (by omega)
    simp only [List.range'_1_concat, List.foldl_append, List.foldl_cons, List.foldl_nil]
    refine ⟨hr, hc, hw.set, fun r hr' s hs => ?_⟩
    beta_reduce
    rw [get_set hw (by omega) (by omega) (by omega) (by omega)]
    by_cases h : r = i + 1 + L ∧ s = k
    · rw [if_pos h, Exact.val_add, Exact.val_mul, Exact.val_mul, Exact.val_mul, Exact.val_neg,
        hget _ (by omega) i hic, hget _ (by omega) k hk]
      beta_reduce
      rw [if_neg (by omega), if_neg (by omega), if_pos (by omega), h.1, Exact.val_one]
      ring
    · rw [if_neg h, hget r hr' s hs]
      beta_reduce
      by_cases h' : s = k ∧ i < r ∧ r < i + 1 + L
      · rw [if_pos h', if_pos (by omega)]
      · rw [if_neg h', if_neg (by omega)]

/-- `eliminateColumn i k`: column `k` below row `i` less `u_k = a_{i k}` times column `i`. -/
theorem get_eliminateColumn (hm : m.WF) (hir : i < m.rows) (hic : i < m.cols) (k : Nat)
    (hk : k < m.cols) (hki : k ≠ i) :
    HasEntries m.rows m.cols (fun r s => if s = k ∧ i < r then
        (m.get r k).val - (m.get i k).val * (m.get r i).val else (m.get r s).val)
      (m.eliminateColumn i k) := by
  obtain ⟨hr, hc, hw, hget⟩ := eliminateColumn_entries hm hic hk hki (m.rows - (i + 1)) (by omega)
  refine ⟨hr, hc, hw, fun r hr' s hs => ?_⟩
  rw [eliminateColumn, hget r hr' s hs]
  beta_reduce
  exact if_congr (by omega) rfl rfl

/-- The second loop of a step, over the columns `i < k < i + 1 + L`: each column reads row `i`
and column `i`, which no column writes. -/
theorem eliminateColumns_entries (hm : m.WF) (hir : i < m.rows) (hic : i < m.cols) :
    ∀ L, i + 1 + L ≤ m.cols →
    HasEntries m.rows m.cols (fun r s => if i < s ∧ s < i + 1 + L ∧ i < r then
        (m.get r s).val - (m.get i s).val * (m.get r i).val else (m.get r s).val)
      ((List.range' (i + 1) L).foldl (fun m k => m.eliminateColumn i k) m)
  | 0, _ => ⟨rfl, rfl, hm, fun r _ s _ => (if_neg (by omega)).symm⟩
  | L + 1, hL => by
    obtain ⟨hr, hc, hw, hget⟩ := eliminateColumns_entries hm hir hic L (by omega)
    simp only [List.range'_1_concat, List.foldl_append, List.foldl_cons, List.foldl_nil]
    obtain ⟨hr₂, hc₂, hw₂, hget₂⟩ := get_eliminateColumn (i := i) hw (by omega) (by omega) (i + 1 + L)
      (by omega) (by omega)
    refine ⟨hr₂.trans hr, hc₂.trans hc, hw₂, fun r hr' s hs => ?_⟩
    rw [hget₂ r (by omega) s (by omega)]
    beta_reduce
    by_cases h : s = i + 1 + L ∧ i < r
    · rw [if_pos h, h.1, hget r hr' _ (by omega), hget i hir _ (by omega), hget r hr' i hic]
      beta_reduce
      rw [if_neg (by omega), if_neg (by omega), if_neg (by omega), if_pos (by omega)]
    · rw [if_neg h, hget r hr' s hs]
      beta_reduce
      exact if_congr (by omega) rfl rfl

/-- One elimination step: the multipliers below the pivot, and the trailing block updated. -/
theorem get_eliminate (hm : m.WF) (hir : i < m.rows) (hic : i < m.cols) (d : Exact K) :
    HasEntries m.rows m.cols (fun r s =>
      if i < r ∧ s = i then (m.get r i).val / d.val
      else if i < r ∧ i < s then (m.get r s).val - (m.get i s).val * ((m.get r i).val / d.val)
      else (m.get r s).val) (m.eliminate d i) := by
  obtain ⟨hr₁, hc₁, hw₁, hget₁⟩ := scaleBelow_entries hm hic (Scalar.one / d) (m.rows - (i + 1))
    (by omega)
  have hir₁ : i < ((List.range' (i + 1) (m.rows - (i + 1))).foldl
      (fun m r => m.set r i (m.get r i * (Scalar.one / d))) m).rows := by omega
  have hic₁ : i < ((List.range' (i + 1) (m.rows - (i + 1))).foldl
      (fun m r => m.set r i (m.get r i * (Scalar.one / d))) m).cols := by omega
  obtain ⟨hr₂, hc₂, hw₂, hget₂⟩ := eliminateColumns_entries hw₁ hir₁ hic₁ (m.cols - (i + 1))
    (by omega)
  simp only [eliminate]
  rw [hc₁]
  refine ⟨hr₂.trans hr₁, hc₂.trans hc₁, hw₂, fun r hr s hs => ?_⟩
  rw [hget₂ r (by omega) s (by omega)]
  beta_reduce
  by_cases hrs : i < r ∧ i < s
  · -- the trailing block: `a - u l` with the multiplier `l` of the first fold
    rw [if_pos (by omega), hget₁ r hr s hs, hget₁ i hir s hs, hget₁ r hr i hic]
    beta_reduce
    rw [if_neg (by omega), if_neg (by omega), if_pos (by omega), if_neg (by omega), if_pos hrs,
      Exact.val_div, Exact.val_one, mul_one_div]
  · rw [if_neg (by omega), hget₁ r hr s hs, if_neg hrs]
    beta_reduce
    by_cases hcol : i < r ∧ s = i
    · rw [if_pos (by omega), if_pos hcol, Exact.val_div, Exact.val_one, mul_one_div]
    · rw [if_neg (by omega), if_neg hcol]

end Eliminate

section Pivot

variable {K R : Type} [Field K] [DecidableEq K] [Field R] [LinearOrder R]
  [Magnitude (Exact K) (Exact R)] {m : Matrix (Exact K)} {i : Nat}

/-- The pivot search as a fold over the rows below the diagonal. -/
theorem pivotRow_eq_foldl : m.pivotRow (ρ := Exact R) i = ((List.range' (i + 1) (m.rows - (i + 1))).foldl
    (fun p r => if p.2 < Magnitude.norm1 (m.get r i) then (r, Magnitude.norm1 (m.get r i)) else p)
    (i, (Magnitude.norm1 (m.get i i) : Exact R))).1 := rfl

/-- The search for the pivot keeps the largest size seen so far, and its row. -/
theorem pivotRow_foldl (L : Nat) :
    let p := (List.range' (i + 1) L).foldl
      (fun p r => if p.2 < Magnitude.norm1 (m.get r i) then (r, Magnitude.norm1 (m.get r i)) else p)
      (i, (Magnitude.norm1 (m.get i i) : Exact R))
    p.2 = Magnitude.norm1 (m.get p.1 i) ∧ i ≤ p.1 ∧ p.1 < i + 1 + L ∧
      ∀ r, i ≤ r → r < i + 1 + L → (Magnitude.norm1 (m.get r i) : Exact R).val ≤ p.2.val := by
  induction L with
  | zero =>
    refine ⟨rfl, le_rfl, by simp, fun r h1 h2 => ?_⟩
    obtain rfl : r = i := by omega
    exact le_rfl
  | succ L ih =>
    obtain ⟨hv, hlo, hhi, hmax⟩ := ih
    simp only [List.range'_1_concat, List.foldl_append, List.foldl_cons, List.foldl_nil]
    set p := (List.range' (i + 1) L).foldl
      (fun p r => if p.2 < Magnitude.norm1 (m.get r i) then (r, Magnitude.norm1 (m.get r i)) else p)
      (i, (Magnitude.norm1 (m.get i i) : Exact R))
    by_cases hlt : p.2 < Magnitude.norm1 (m.get (i + 1 + L) i)
    · -- a strictly larger size: row `i + 1 + L` becomes the pivot
      simp only [if_pos hlt]
      refine ⟨trivial, by omega, by omega, fun r h1 h2 => ?_⟩
      rcases Nat.lt_or_ge r (i + 1 + L) with hr | hr
      · exact ((hmax r h1 hr).trans_lt ((Exact.lt_iff _ _).1 hlt)).le
      · obtain rfl : r = i + 1 + L := by omega
        exact le_rfl
    · simp only [if_neg hlt]
      refine ⟨hv, hlo, by omega, fun r h1 h2 => ?_⟩
      rcases Nat.lt_or_ge r (i + 1 + L) with hr | hr
      · exact hmax r h1 hr
      · obtain rfl : r = i + 1 + L := by omega
        exact not_lt.1 (mt (Exact.lt_iff _ _).2 hlt)

/-- The pivot row of column `i` is at or below the diagonal and has the largest size there. -/
theorem pivotRow_spec (hir : i < m.rows) :
    i ≤ m.pivotRow (ρ := Exact R) i ∧ m.pivotRow (ρ := Exact R) i < m.rows ∧
      ∀ r, i ≤ r → r < m.rows → (Magnitude.norm1 (m.get r i) : Exact R).val ≤
        (Magnitude.norm1 (m.get (m.pivotRow (ρ := Exact R) i) i) : Exact R).val := by
  obtain ⟨hv, hlo, hhi, hmax⟩ := pivotRow_foldl (m := m) (i := i) (R := R) (m.rows - (i + 1))
  rw [pivotRow_eq_foldl]
  refine ⟨hlo, by omega, fun r h1 h2 => ?_⟩
  rw [← hv]
  exact hmax r h1 (by omega)

/-- A zero pivot has the largest size of its column from the diagonal down, so that part of the
column is zero. -/
theorem pivotRow_column_zero [LawfulMagnitude K R] (hir : i < m.rows)
    (hz : (m.get (m.pivotRow (ρ := Exact R) i) i).val = 0) :
    ∀ r, i ≤ r → r < m.rows → (m.get r i).val = 0 := by
  intro r h1 h2
  have hle := (pivotRow_spec (R := R) hir).2.2 r h1 h2
  rw [(LawfulMagnitude.norm1_eq_zero _).2 hz] at hle
  exact (LawfulMagnitude.norm1_eq_zero (R := R) _).1
    (le_antisymm hle (LawfulMagnitude.norm1_nonneg _))

end Pivot

end Matrix

end MixedFem
