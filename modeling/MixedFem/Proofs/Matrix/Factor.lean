import Mathlib.Algebra.Group.End
import MixedFem.Proofs.Loop
import MixedFem.Proofs.Matrix.Eliminate

/-!
# LU factorization with partial pivoting, over an exact field

The factorization of a square matrix is read as an invariant of its loop over the columns: after
`i` steps, the rows of `A` taken in the order of the exchanges made, `P A`, equal `L U` on the
columns done, plus the trailing block still to factor. Each kind of step keeps it: an exchange
of row `i` with a lower row, an elimination on a nonzero pivot, and the skip of a column that is
zero from the diagonal down (the only case in which the largest modulus is zero).

* `swapsPerm xs` : the permutation of rows made by the exchanges `xs`; `swapRows_foldl_entries`;
* `LuStage a n i f` : the invariant after `i` steps; `LuStage.init`, `LuStage.swap`,
  `LuStage.eliminate`, `LuStage.skip`;
* `lu_stage` : the finished factorization, `P A = L U` for every square matrix.
-/

namespace MixedFem

/-- The permutation of rows made by row exchanges done in order: row `r` after the exchanges
is row `swapsPerm xs r` before them. -/
def swapsPerm : List (Nat × Nat) → Equiv.Perm Nat
  | [] => 1
  | x :: xs => Equiv.swap x.1 x.2 * swapsPerm xs

theorem swapsPerm_append (xs : List (Nat × Nat)) (x : Nat × Nat) :
    swapsPerm (xs ++ [x]) = swapsPerm xs * Equiv.swap x.1 x.2 := by
  induction xs with
  | nil => simp [swapsPerm]
  | cons y ys ih => rw [List.cons_append, swapsPerm, swapsPerm, ih, mul_assoc]

theorem swap_lt {n i p r : Nat} (hi : i < n) (hp : p < n) (hr : r < n) : Equiv.swap i p r < n := by
  rw [Equiv.swap_apply_def]
  split_ifs <;> omega

theorem swapsPerm_lt {n : Nat} : ∀ {xs : List (Nat × Nat)}, (∀ x ∈ xs, x.1 < n ∧ x.2 < n) →
    ∀ {r}, r < n → swapsPerm xs r < n
  | [], _, _, hr => by rw [swapsPerm]; exact hr
  | x :: xs, hx, _, hr => by
    rw [swapsPerm, Equiv.Perm.mul_apply]
    obtain ⟨h1, h2⟩ := hx x List.mem_cons_self
    exact swap_lt h1 h2 (swapsPerm_lt (fun y hy => hx y (List.mem_cons_of_mem x hy)) hr)

theorem swapsPerm_inv_lt {n : Nat} : ∀ {xs : List (Nat × Nat)}, (∀ x ∈ xs, x.1 < n ∧ x.2 < n) →
    ∀ {r}, r < n → (swapsPerm xs)⁻¹ r < n
  | [], _, _, hr => by rw [swapsPerm, inv_one]; exact hr
  | x :: xs, hx, _, hr => by
    rw [swapsPerm, mul_inv_rev, Equiv.swap_inv, Equiv.Perm.mul_apply]
    obtain ⟨h1, h2⟩ := hx x List.mem_cons_self
    exact swapsPerm_inv_lt (fun y hy => hx y (List.mem_cons_of_mem x hy)) (swap_lt h1 h2 hr)

namespace Matrix

variable {K : Type} [Field K] [DecidableEq K]

/-- Row exchanges done in order read the rows of the matrix through `swapsPerm`. -/
theorem swapRows_foldl_entries {b : Matrix (Exact K)} (hb : b.WF) :
    ∀ (xs : List (Nat × Nat)), (∀ x ∈ xs, x.1 < b.rows ∧ x.2 < b.rows) →
    HasEntries b.rows b.cols (fun r s => (b.get (swapsPerm xs r) s).val)
      (xs.foldl (fun b x => b.swapRows x.1 x.2) b)
  | [], _ => ⟨rfl, rfl, hb, fun r _ s _ => rfl⟩
  | x :: xs, hx => by
    obtain ⟨h1, h2⟩ := hx x List.mem_cons_self
    have hb' := hb.swapRows h1 h2
    obtain ⟨hr, hc, hw, hget⟩ := swapRows_foldl_entries hb' xs
      (fun y hy => by rw [rows_swapRows]; exact hx y (List.mem_cons_of_mem x hy))
    simp only [rows_swapRows, cols_swapRows] at hr hc hget
    refine ⟨hr, hc, hw, fun r hr' s hs => ?_⟩
    rw [List.foldl_cons, hget r hr' s hs]
    beta_reduce
    rw [get_swapRows hb h1 h2 (swapsPerm_lt (fun y hy => hx y (List.mem_cons_of_mem x hy)) hr') hs,
      swapsPerm, Equiv.Perm.mul_apply]

end Matrix

section Stage

variable {K : Type} [Field K] [DecidableEq K]

/-- After `i` elimination steps on `a`: the factors so far satisfy `P A = L U` on the columns
done, the trailing block holding what is left to factor. Entry `(r, s)` of `P A` is the sum
over the finished columns `t < min(r, i)`, `t ≤ s`, of `L_{r t} U_{t s}`, plus the entry of
the factors itself where it belongs to `U` or to the trailing block. -/
structure LuStage (a : Matrix (Exact K)) (n i : Nat) (f : Lu (Exact K)) : Prop where
  rows : f.factors.rows = n
  cols : f.factors.cols = n
  wf : f.factors.WF
  swaps_lt : ∀ x ∈ f.swaps.toList, x.1 < n ∧ x.2 < n
  factor : ∀ r < n, ∀ s < n, (a.get (swapsPerm f.swaps.toList r) s).val =
    ∑ t ∈ Finset.range i, (if t < r ∧ t ≤ s then (f.factors.get r t).val * (f.factors.get t s).val
      else 0) + if min r i ≤ s then (f.factors.get r s).val else 0

variable {a : Matrix (Exact K)} {n i : Nat} {f : Lu (Exact K)}

/-- Before any step, the factors are the matrix itself. -/
theorem LuStage.init (ha : a.WF) (hr : a.rows = n) (hc : a.cols = n) : LuStage a n 0 ⟨a, #[]⟩ :=
  ⟨hr, hc, ha, by simp, fun r _ s _ => by simp [swapsPerm]⟩

/-- Exchanging row `i` with a row `p ≥ i` keeps the stage, the exchange recorded. -/
theorem LuStage.swap (h : LuStage a n i f) {p : Nat} (hi : i < n) (hip : i ≤ p) (hp : p < n) :
    LuStage a n i ⟨f.factors.swapRows i p, f.swaps.push (i, p)⟩ := by
  have hi' : i < f.factors.rows := h.rows ▸ hi
  have hp' : p < f.factors.rows := h.rows ▸ hp
  refine ⟨by simp [h.rows], by simp [h.cols], h.wf.swapRows hi' hp', fun x hx => ?_,
    fun r hr s hs => ?_⟩
  · rw [Array.toList_push, List.mem_append, List.mem_singleton] at hx
    rcases hx with hx | rfl
    · exact h.swaps_lt x hx
    · exact ⟨hi, hp⟩
  · have hsr : Equiv.swap i p r < n := swap_lt hi hp hr
    -- below the finished columns the exchange moves nothing, above them it exchanges `r`
    have hmin : min (Equiv.swap i p r) i = min r i := by
      rw [Equiv.swap_apply_def]
      split_ifs <;> omega
    have hlt : ∀ t < i, (t < Equiv.swap i p r ↔ t < r) := by
      intro t ht
      rw [Equiv.swap_apply_def]
      split_ifs <;> omega
    simp only [Array.toList_push, swapsPerm_append, Equiv.Perm.mul_apply]
    rw [h.factor _ hsr s hs, hmin, Matrix.get_swapRows h.wf hi' hp' (h.rows ▸ hr) (h.cols ▸ hs)]
    congr 1
    refine Finset.sum_congr rfl fun t ht => ?_
    have ht' : t < i := Finset.mem_range.1 ht
    have htr : t < f.factors.rows := by rw [h.rows]; omega
    have htc : t < f.factors.cols := by rw [h.cols]; omega
    rw [Matrix.get_swapRows h.wf hi' hp' (h.rows ▸ hr) htc,
      Matrix.get_swapRows h.wf hi' hp' htr (h.cols ▸ hs),
      Equiv.swap_apply_of_ne_of_ne (show t ≠ i by omega) (show t ≠ p by omega)]
    exact if_congr (and_congr (hlt t ht') Iff.rfl) rfl rfl

/-- An elimination step on a nonzero pivot `d = F_{i i}` completes column `i`: the multipliers
`F_{r i} / d` join `L`, and the trailing block loses `L_{r i} U_{i s}`. -/
theorem LuStage.eliminate (h : LuStage a n i f) (hi : i < n) (hd : (f.factors.get i i).val ≠ 0) :
    LuStage a n (i + 1) ⟨f.factors.eliminate (f.factors.get i i) i, f.swaps⟩ := by
  obtain ⟨hr, hc, hw, hget⟩ := Matrix.get_eliminate h.wf (h.rows ▸ hi) (h.cols ▸ hi) (f.factors.get i i)
  have hH : ∀ r < n, ∀ s < n, ((f.factors.eliminate (f.factors.get i i) i).get r s).val =
      if i < r ∧ s = i then (f.factors.get r i).val / (f.factors.get i i).val
      else if i < r ∧ i < s then
        (f.factors.get r s).val - (f.factors.get i s).val * ((f.factors.get r i).val / (f.factors.get i i).val)
      else (f.factors.get r s).val := fun r hr s hs => hget r (h.rows ▸ hr) s (h.cols ▸ hs)
  -- the finished columns `t < i` and the rows `t ≤ i` are untouched
  have hcol : ∀ r < n, ∀ t < i, ((f.factors.eliminate (f.factors.get i i) i).get r t).val =
      (f.factors.get r t).val := fun r hr t ht => by
    rw [hH r hr t (by omega), if_neg (by omega), if_neg (by omega)]
  have hrow : ∀ t ≤ i, ∀ s < n, ((f.factors.eliminate (f.factors.get i i) i).get t s).val =
      (f.factors.get t s).val := fun t ht s hs => by
    rw [hH t (by omega) s hs, if_neg (by omega), if_neg (by omega)]
  refine ⟨hr.trans h.rows, hc.trans h.cols, hw, h.swaps_lt, fun r hr' s hs => ?_⟩
  rw [h.factor r hr' s hs, Finset.sum_range_succ, add_assoc]
  have hsum : ∑ t ∈ Finset.range i, (if t < r ∧ t ≤ s then
      ((f.factors.eliminate (f.factors.get i i) i).get r t).val *
        ((f.factors.eliminate (f.factors.get i i) i).get t s).val else 0) =
      ∑ t ∈ Finset.range i, if t < r ∧ t ≤ s then (f.factors.get r t).val * (f.factors.get t s).val
        else 0 := Finset.sum_congr rfl fun t ht => by
    rw [hcol r hr' t (Finset.mem_range.1 ht), hrow t (Finset.mem_range.1 ht).le s hs]
  rw [hsum]
  congr 1
  rw [hrow i le_rfl s hs]
  rcases le_or_gt r i with hri | hir
  · -- at or above the pivot nothing changes in row `r`
    rw [hrow r hri s hs, if_neg (show ¬ (i < r ∧ i ≤ s) by omega), zero_add]
    exact if_congr (by omega) rfl rfl
  · -- below the pivot the multiplier times the pivot row restores the old entry
    have hmul : ((f.factors.eliminate (f.factors.get i i) i).get r i).val =
        (f.factors.get r i).val / (f.factors.get i i).val := by
      rw [hH r hr' i hi, if_pos ⟨hir, rfl⟩]
    rw [hmul, hH r hr' s hs]
    have hmin : min r i = i := by omega
    have hmin' : min r (i + 1) = i + 1 := by omega
    rw [hmin, hmin']
    rcases lt_trichotomy s i with hsi | rfl | hsi
    · rw [if_neg (show ¬ i ≤ s by omega), if_neg (show ¬ (i < r ∧ i ≤ s) by omega),
        if_neg (show ¬ i + 1 ≤ s by omega), add_zero]
    · rw [if_pos le_rfl, if_pos ⟨hir, le_rfl⟩, if_neg (show ¬ s + 1 ≤ s by omega), add_zero,
        div_mul_cancel₀ _ hd]
    · rw [if_pos hsi.le, if_pos ⟨hir, hsi.le⟩, if_pos (show i + 1 ≤ s by omega),
        if_neg (show ¬ (i < r ∧ s = i) by omega), if_pos ⟨hir, hsi⟩]
      ring

/-- A column that is zero from the diagonal down is already eliminated. -/
theorem LuStage.skip (h : LuStage a n i f) (hz : ∀ r, i ≤ r → r < n → (f.factors.get r i).val = 0) :
    LuStage a n (i + 1) f := by
  refine ⟨h.rows, h.cols, h.wf, h.swaps_lt, fun r hr s hs => ?_⟩
  rw [h.factor r hr s hs, Finset.sum_range_succ, add_assoc]
  congr 1
  rcases le_or_gt r i with hri | hir
  · rw [if_neg (show ¬ (i < r ∧ i ≤ s) by omega), zero_add]
    exact if_congr (by omega) rfl rfl
  · rw [hz r hir.le hr, zero_mul, ite_self, zero_add]
    by_cases hsi : s = i
    · subst hsi
      rw [hz r hir.le hr, ite_self, ite_self]
    · exact if_congr (by omega) rfl rfl

/-- The LU factorization of a square matrix: `P A = L U` with `L` unit lower triangular below
the diagonal of the factors and `U` on and above it, `P` the row exchanges made. -/
theorem lu_stage {R : Type} [Field R] [LinearOrder R] [Magnitude (Exact K) (Exact R)]
    [LawfulMagnitude K R] (ha : a.WF) (hr : a.rows = n) (hc : a.cols = n) :
    LuStage a n n (a.lu (ρ := Exact R)) := by
  unfold Matrix.lu
  rw [hr, hc, min_self]
  refine foldl_range_invariant (P := fun i f => LuStage a n i f) (fun f i hi h => ?_)
    (LuStage.init ha hr hc) n le_rfl
  have hir : i < f.factors.rows := by rw [h.rows]; exact hi
  obtain ⟨hlo, hhi, -⟩ := Matrix.pivotRow_spec (R := R) (m := f.factors) hir
  have hhi' : f.factors.pivotRow (ρ := Exact R) i < n := h.rows ▸ hhi
  dsimp only
  split_ifs with hz hne
  · -- a zero pivot of largest size: the column is zero from the diagonal down
    rw [Exact.isZero_eq, decide_eq_true_iff] at hz
    exact h.skip fun r h1 h2 =>
      Matrix.pivotRow_column_zero hir hz r h1 (by rw [h.rows]; exact h2)
  · -- the pivot row exchanged into row `i`, then eliminated
    have hs := h.swap hi hlo hhi'
    have hd : (f.factors.swapRows i (f.factors.pivotRow (ρ := Exact R) i)).get i i =
        f.factors.get (f.factors.pivotRow (ρ := Exact R) i) i :=
      Matrix.get_swapRows_left h.wf (by rw [h.rows]; exact hi) hhi (by rw [h.cols]; exact hi)
    rw [← hd]
    refine hs.eliminate hi ?_
    rw [Exact.isZero_eq, decide_eq_true_iff] at hz
    rwa [hd]
  · -- the pivot is already in row `i`
    have hpi : f.factors.pivotRow (ρ := Exact R) i = i := not_not.1 hne
    rw [hpi] at hz ⊢
    refine h.eliminate hi ?_
    rwa [Exact.isZero_eq, decide_eq_true_iff] at hz

end Stage

end MixedFem
