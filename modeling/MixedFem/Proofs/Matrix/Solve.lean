import Mathlib.Algebra.BigOperators.Ring.Finset
import Mathlib.Algebra.BigOperators.Group.Finset.Sigma
import MixedFem.Proofs.Matrix.Factor

/-!
# Solving with the LU factors

`Lu.solve` exchanges the rows of the right side, then runs forward substitution with the unit
lower factor and back substitution with the upper factor, one column at a time. Each loop is read
as a stage invariant with a step lemma; together with `lu_stage` they give `solve_spec`: on a
square matrix whose pivots are nonzero, `solve` succeeds and its result solves `A x = B`.

* `Lu.ForwardStage`, `Lu.forward_stage` : forward substitution on one column;
* `Lu.BackStage`, `Lu.back_stage` : back substitution on one column, which succeeds when the
  pivots are nonzero;
* `Lu.ForwardColumns`, `Lu.BackColumns` : the same on every column, each loop touching only its
  own column;
* `Lu.sum_factors_mul` : `L (U x) = b` read back as `(L U) x = b`;
* `solve_spec` : `A x = B`.
-/

namespace MixedFem


namespace Lu

section Substitution

variable {K : Type} [Field K] [DecidableEq K] {f : Lu (Exact K)} {b y : Matrix (Exact K)}
  {n k : Nat}

/-- The inner loop of forward substitution: `c` times column `i` of the factors taken from
column `k` of `b`, on the rows `i < r < i + 1 + L`. -/
theorem forwardColumn_entries (hb : b.WF) (hk : k < b.cols) (i : Nat) (c : Exact K) :
    ∀ L, i + 1 + L ≤ b.rows →
    Matrix.HasEntries b.rows b.cols (fun r s => if s = k ∧ i < r ∧ r < i + 1 + L then
        (b.get r k).val - c.val * (f.factors.get r i).val else (b.get r s).val)
      ((List.range' (i + 1) L).foldl (fun b r =>
        b.set r k (-c * f.factors.get r i * Scalar.one + Scalar.one * b.get r k)) b)
  | 0, _ => ⟨rfl, rfl, hb, fun r _ s _ => (if_neg (by omega)).symm⟩
  | L + 1, hL => by
    obtain ⟨hr, hc, hw, hget⟩ := forwardColumn_entries hb hk i c L (by omega)
    simp only [List.range'_1_concat, List.foldl_append, List.foldl_cons, List.foldl_nil]
    refine ⟨hr, hc, hw.set, fun r hr' s hs => ?_⟩
    beta_reduce
    rw [Matrix.get_set hw (by omega) (by omega) (by omega) (by omega)]
    by_cases h : r = i + 1 + L ∧ s = k
    · rw [if_pos h, Exact.val_add, Exact.val_mul, Exact.val_mul, Exact.val_mul, Exact.val_neg,
        Exact.val_one, hget _ (by omega) k hk]
      beta_reduce
      rw [if_neg (by omega), if_pos (by omega), h.1]
      ring
    · rw [if_neg h, hget r hr' s hs]
      beta_reduce
      exact if_congr (by omega) rfl rfl

/-- Forward substitution on column `k` after the first `J` columns of the unit lower factor:
`y_r + Σ_{t < J, t < r} L_{r t} y_t = b_r`, the other columns of `b` untouched. -/
structure ForwardStage (F b : Matrix (Exact K)) (k J : Nat) (y : Matrix (Exact K)) : Prop where
  rows : y.rows = b.rows
  cols : y.cols = b.cols
  wf : y.WF
  other : ∀ r < b.rows, ∀ s < b.cols, s ≠ k → y.get r s = b.get r s
  solves : ∀ r < b.rows, (y.get r k).val + ∑ t ∈ Finset.range J,
    (if t < r then (F.get r t).val * (y.get t k).val else 0) = (b.get r k).val

theorem forward_stage (hb : b.WF) (hbr : b.rows = f.factors.rows) (hk : k < b.cols) :
    ForwardStage f.factors b k (f.factors.rows - 1) (f.forward b k) := by
  unfold Lu.forward
  refine foldl_range_invariant (P := ForwardStage f.factors b k) (fun y J hJ h => ?_)
    ⟨rfl, rfl, hb, fun _ _ _ _ _ => rfl, fun r _ => by simp⟩ _ le_rfl
  obtain ⟨hr, hc, hw, hget⟩ := forwardColumn_entries (f := f) h.wf (h.cols ▸ hk) J
    (y.get J k / Scalar.one) (f.factors.rows - (J + 1)) (by rw [h.rows]; omega)
  beta_reduce at hget
  dsimp only
  have hr'' : ∀ r, r < b.rows → r < y.rows := fun r hr' => by rw [h.rows]; exact hr'
  have hk' : k < y.cols := by rw [h.cols]; exact hk
  -- rows up to `J` are final
  have hdone : ∀ t ≤ J, t < b.rows → (((List.range' (J + 1) (f.factors.rows - (J + 1))).foldl
      (fun b r => b.set r k (-(y.get J k / Scalar.one) * f.factors.get r J * Scalar.one +
        Scalar.one * b.get r k)) y).get t k).val = (y.get t k).val := fun t ht htb => by
    rw [hget t (hr'' t htb) k hk']
    exact if_neg (by omega)
  refine ⟨hr.trans h.rows, hc.trans h.cols, hw, fun r hr' s hs hsk => ?_, fun r hr' => ?_⟩
  · apply Exact.ext
    rw [hget r (hr'' r hr') s (by rw [h.cols]; exact hs), if_neg fun hc => hsk hc.1,
      h.other r hr' s hs hsk]
  · rw [Finset.sum_range_succ, Finset.sum_congr rfl fun t ht =>
      by rw [hdone t (Finset.mem_range.1 ht).le (by have := Finset.mem_range.1 ht; omega)],
      hdone J le_rfl (by omega), ← h.solves r hr', hget r (hr'' r hr') k hk']
    by_cases hJr : J < r
    · rw [if_pos ⟨rfl, hJr, by omega⟩, if_pos hJr, Exact.val_div, Exact.val_one, div_one]
      ring
    · rw [if_neg (by omega), if_neg hJr, add_zero]

/-- The inner loop of back substitution: `c` times column `i` of the factors taken from column
`k` of `b` on the rows `r < L`. -/
theorem backColumn_entries (hb : b.WF) (hk : k < b.cols) (i : Nat) (c : Exact K) :
    ∀ L, L ≤ b.rows →
    Matrix.HasEntries b.rows b.cols (fun r s => if s = k ∧ r < L then
        (b.get r k).val - c.val * (f.factors.get r i).val else (b.get r s).val)
      ((List.range L).foldl (fun b r =>
        b.set r k (-c * f.factors.get r i * Scalar.one + Scalar.one * b.get r k)) b)
  | 0, _ => ⟨rfl, rfl, hb, fun r _ s _ => (if_neg (by omega)).symm⟩
  | L + 1, hL => by
    obtain ⟨hr, hc, hw, hget⟩ := backColumn_entries hb hk i c L (by omega)
    beta_reduce at hget
    rw [List.range_succ, List.foldl_append, List.foldl_cons, List.foldl_nil]
    refine ⟨hr, hc, hw.set, fun r hr' s hs => ?_⟩
    beta_reduce
    rw [Matrix.get_set hw (by omega) (by omega) (by omega) (by omega)]
    by_cases h : r = L ∧ s = k
    · rw [if_pos h, Exact.val_add, Exact.val_mul, Exact.val_mul, Exact.val_mul, Exact.val_neg,
        Exact.val_one, hget _ (by omega) k hk, if_neg (by omega), if_pos (by omega), h.1]
      ring
    · rw [if_neg h, hget r hr' s hs]
      exact if_congr (by omega) rfl rfl

/-- Back substitution on column `k` after the rows `J ≤ r < n` of the upper factor:
`Σ_{s ≥ max(r, J)} U_{r s} x_s + [r < J] x_r = y_r`, the other columns untouched. -/
structure BackStage (F y : Matrix (Exact K)) (k J : Nat) (x : Matrix (Exact K)) : Prop where
  rows : x.rows = y.rows
  cols : x.cols = y.cols
  wf : x.WF
  other : ∀ r < y.rows, ∀ s < y.cols, s ≠ k → x.get r s = y.get r s
  solves : ∀ r < y.rows, ∑ s ∈ Finset.range y.rows,
    (if r ≤ s ∧ J ≤ s then (F.get r s).val * (x.get s k).val else 0) +
      (if r < J then (x.get r k).val else 0) = (y.get r k).val

theorem back_stage (hy : y.WF) (hyr : y.rows = f.factors.rows) (hk : k < y.cols)
    (hd : ∀ t < f.factors.rows, (f.factors.get t t).val ≠ 0) :
    ∃ x, f.backward y k = some x ∧ BackStage f.factors y k 0 x := by
  unfold Lu.backward
  refine foldlM_range_reverse_invariant (P := BackStage f.factors y k) (fun x J hJ h => ?_)
    _ le_rfl y ⟨rfl, rfl, hy, fun _ _ _ _ _ => rfl, fun r hr => ?_⟩
  · have hz : Scalar.isZero (f.factors.get J J) = false := by simp [hd J hJ]
    simp only [hz, Bool.false_eq_true, if_false]
    refine ⟨_, rfl, ?_⟩
    have hJx : J < x.rows := by rw [h.rows, hyr]; exact hJ
    have hkx : k < x.cols := by rw [h.cols]; exact hk
    obtain ⟨hr, hc, hw, hget⟩ := backColumn_entries (f := f) (b := x.set J k
      (x.get J k / f.factors.get J J)) h.wf.set hkx J (x.get J k / f.factors.get J J) J hJx.le
    beta_reduce at hget
    -- the new column `k`: `x_J = c`, and `c U_{r J}` taken from the rows above
    have hx' : ∀ r < y.rows, ∀ s < y.cols, (((List.range J).foldl (fun b r =>
        b.set r k (-(x.get J k / f.factors.get J J) * f.factors.get r J * Scalar.one +
          Scalar.one * b.get r k)) (x.set J k (x.get J k / f.factors.get J J))).get r s).val =
        if s = k ∧ r < J then (x.get r k).val - (x.get J k).val / (f.factors.get J J).val *
          (f.factors.get r J).val
        else if r = J ∧ s = k then (x.get J k).val / (f.factors.get J J).val
        else (x.get r s).val := by
      intro r hr s hs
      have hrx : r < x.rows := by rw [h.rows]; exact hr
      have hsx : s < x.cols := by rw [h.cols]; exact hs
      rw [hget r hrx s hsx]
      by_cases hsk : s = k ∧ r < J
      · rw [if_pos hsk, if_pos hsk, Matrix.get_set h.wf hJx hkx hrx hkx, if_neg (by omega),
          Exact.val_div]
      · rw [if_neg hsk, if_neg hsk, Matrix.get_set h.wf hJx hkx hrx hsx]
        by_cases hrs : r = J ∧ s = k
        · rw [if_pos hrs, if_pos hrs, Exact.val_div]
        · rw [if_neg hrs, if_neg hrs]
    refine ⟨hr.trans h.rows, hc.trans h.cols, hw, fun r hr' s hs hsk => ?_, fun r hr' => ?_⟩
    · apply Exact.ext
      rw [hx' r hr' s hs, if_neg fun h' => hsk h'.1, if_neg fun h' => hsk h'.2,
        h.other r hr' s hs hsk]
    · have hJy : J < y.rows := by rw [hyr]; exact hJ
      rw [sum_range_ite_ge hJy (fun s => r ≤ s), ← h.solves r hr']
      have hsum : ∑ s ∈ Finset.range y.rows, (if r ≤ s ∧ J + 1 ≤ s then (f.factors.get r s).val *
          (((List.range J).foldl (fun b r =>
            b.set r k (-(x.get J k / f.factors.get J J) * f.factors.get r J * Scalar.one +
              Scalar.one * b.get r k)) (x.set J k (x.get J k / f.factors.get J J))).get s k).val
          else 0) = ∑ s ∈ Finset.range y.rows,
            (if r ≤ s ∧ J + 1 ≤ s then (f.factors.get r s).val * (x.get s k).val else 0) :=
        Finset.sum_congr rfl fun s hs => by
          have hs' := Finset.mem_range.1 hs
          by_cases hJs : r ≤ s ∧ J + 1 ≤ s
          · rw [if_pos hJs, if_pos hJs, hx' s hs' k hk, if_neg (by omega), if_neg (by omega)]
          · rw [if_neg hJs, if_neg hJs]
      have hxJ : (((List.range J).foldl (fun b r =>
          b.set r k (-(x.get J k / f.factors.get J J) * f.factors.get r J * Scalar.one +
            Scalar.one * b.get r k)) (x.set J k (x.get J k / f.factors.get J J))).get J k).val =
          (x.get J k).val / (f.factors.get J J).val := by
        rw [hx' J hJy k hk, if_neg (fun h' : k = k ∧ J < J => absurd h'.2 (Nat.lt_irrefl J)),
          if_pos (show J = J ∧ k = k from ⟨rfl, rfl⟩)]
      rw [hsum, hxJ, hx' r hr' k hk]
      rcases lt_trichotomy r J with hrJ | rfl | hrJ
      · -- a row above: `c U_{r J}` moves from the entry into the sum
        rw [if_pos hrJ.le, if_pos hrJ, if_pos (show k = k ∧ r < J from ⟨rfl, hrJ⟩),
          if_pos (show r < J + 1 by omega)]
        ring
      · -- row `J` itself: `U_{J J} c = x_J`
        rw [if_pos le_rfl, if_neg (Nat.lt_irrefl r), if_pos (Nat.lt_succ_self r),
          mul_div_cancel₀ _ (hd r hJ)]
        ring
      · rw [if_neg (show ¬ r ≤ J by omega), if_neg (show ¬ r < J by omega),
          if_neg (show ¬ r < J + 1 by omega)]
        ring
  · rw [Finset.sum_eq_zero fun s hs => if_neg (by simp at hs; omega), zero_add,
      if_pos (by omega)]

/-- Forward substitution done on the first `m` columns of `b`, the others untouched. -/
structure ForwardColumns (F b : Matrix (Exact K)) (m : Nat) (y : Matrix (Exact K)) : Prop where
  rows : y.rows = b.rows
  cols : y.cols = b.cols
  wf : y.WF
  rest : ∀ k < b.cols, m ≤ k → ∀ r < b.rows, y.get r k = b.get r k
  solves : ∀ k < m, ∀ r < b.rows, (y.get r k).val + ∑ t ∈ Finset.range (F.rows - 1),
    (if t < r then (F.get r t).val * (y.get t k).val else 0) = (b.get r k).val

theorem forward_columns (hb : b.WF) (hbr : b.rows = f.factors.rows) :
    ForwardColumns f.factors b b.cols ((List.range b.cols).foldl (fun b k => f.forward b k) b) := by
  refine foldl_range_invariant (P := ForwardColumns f.factors b) (fun y j hj h => ?_)
    ⟨rfl, rfl, hb, fun _ _ _ _ _ => rfl, fun k hk => absurd hk (Nat.not_lt_zero k)⟩ _ le_rfl
  have hs := forward_stage (f := f) h.wf (h.rows.trans hbr) (h.cols ▸ hj)
  -- every column but `j` is kept
  have hkeep : ∀ k < b.cols, k ≠ j → ∀ r < b.rows, (f.forward y j).get r k = y.get r k :=
    fun k hk hkj r hr => hs.other r (h.rows ▸ hr) k (h.cols ▸ hk) hkj
  refine ⟨hs.rows.trans h.rows, hs.cols.trans h.cols, hs.wf, fun k hk hjk r hr => ?_,
    fun k hk r hr => ?_⟩
  · rw [hkeep k hk (by omega) r hr, h.rest k hk (by omega) r hr]
  · rcases Nat.lt_succ_iff_lt_or_eq.1 hk with hk | rfl
    · rw [← h.solves k hk r hr, hkeep k (by omega) (by omega) r hr]
      congr 1
      refine Finset.sum_congr rfl fun t ht => ?_
      rw [hkeep k (by omega) (by omega) t (by have := Finset.mem_range.1 ht; omega)]
    · rw [← h.rest k (by omega) le_rfl r hr]
      exact hs.solves r (h.rows ▸ hr)

/-- Back substitution done on the first `m` columns of `y`, the others untouched. -/
structure BackColumns (F y : Matrix (Exact K)) (m : Nat) (x : Matrix (Exact K)) : Prop where
  rows : x.rows = y.rows
  cols : x.cols = y.cols
  wf : x.WF
  rest : ∀ k < y.cols, m ≤ k → ∀ r < y.rows, x.get r k = y.get r k
  solves : ∀ k < m, ∀ r < y.rows, ∑ s ∈ Finset.range y.rows,
    (if r ≤ s then (F.get r s).val * (x.get s k).val else 0) = (y.get r k).val

theorem back_columns (hy : y.WF) (hyr : y.rows = f.factors.rows)
    (hd : ∀ t < f.factors.rows, (f.factors.get t t).val ≠ 0) :
    ∃ x, (List.range y.cols).foldlM (fun b k => f.backward b k) y = some x ∧
      BackColumns f.factors y y.cols x := by
  refine foldlM_range_invariant (P := BackColumns f.factors y) (fun x j hj h => ?_)
    ⟨rfl, rfl, hy, fun _ _ _ _ _ => rfl, fun k hk => absurd hk (Nat.not_lt_zero k)⟩ _ le_rfl
  obtain ⟨x', hx', hs⟩ := back_stage (f := f) h.wf (h.rows.trans hyr) (h.cols ▸ hj) hd
  have hkeep : ∀ k < y.cols, k ≠ j → ∀ r < y.rows, x'.get r k = x.get r k :=
    fun k hk hkj r hr => hs.other r (h.rows ▸ hr) k (h.cols ▸ hk) hkj
  refine ⟨x', hx', hs.rows.trans h.rows, hs.cols.trans h.cols, hs.wf, fun k hk hjk r hr => ?_,
    fun k hk r hr => ?_⟩
  · rw [hkeep k hk (by omega) r hr, h.rest k hk (by omega) r hr]
  · rcases Nat.lt_succ_iff_lt_or_eq.1 hk with hk | rfl
    · rw [← h.solves k hk r hr]
      refine Finset.sum_congr rfl fun s hs' => ?_
      rw [hkeep k (by omega) (by omega) s (Finset.mem_range.1 hs')]
    · have := hs.solves r (h.rows ▸ hr)
      rw [h.rows, if_neg (Nat.not_lt_zero r), add_zero, h.rest k hj le_rfl r hr] at this
      rw [← this]
      exact Finset.sum_congr rfl fun s _ => if_congr (and_iff_left (Nat.zero_le s)).symm rfl rfl

end Substitution

section Product

variable {K : Type} [Field K]

/-- `L U x = b` from `U x = y` and `L y = b`, `L` and `U` read from one matrix of factors as in
`LuStage`. -/
theorem sum_factors_mul {n r : Nat} (hr : r < n) (F : Nat → Nat → K) (x y b : Nat → K)
    (hback : ∀ t < n, ∑ s ∈ Finset.range n, (if t ≤ s then F t s * x s else 0) = y t)
    (hfwd : y r + ∑ t ∈ Finset.range n, (if t < r then F r t * y t else 0) = b r) :
    ∑ s ∈ Finset.range n, (∑ t ∈ Finset.range n, (if t < r ∧ t ≤ s then F r t * F t s else 0) +
      if r ≤ s then F r s else 0) * x s = b r := by
  simp only [add_mul, Finset.sum_mul, Finset.sum_add_distrib]
  rw [Finset.sum_comm]
  -- row `t < r` of `L` meets row `t` of `U x`, which is `y_t`
  have hinner : ∀ t ∈ Finset.range n, ∑ s ∈ Finset.range n,
      (if t < r ∧ t ≤ s then F r t * F t s else 0) * x s = if t < r then F r t * y t else 0 := by
    intro t ht
    by_cases htr : t < r
    · rw [if_pos htr, ← hback t (Finset.mem_range.1 ht), Finset.mul_sum]
      refine Finset.sum_congr rfl fun s _ => ?_
      by_cases hts : t ≤ s
      · rw [if_pos ⟨htr, hts⟩, if_pos hts, mul_assoc]
      · rw [if_neg fun h => hts h.2, if_neg hts, zero_mul, mul_zero]
    · rw [if_neg htr]
      exact Finset.sum_eq_zero fun s _ => by rw [if_neg fun h => htr h.1, zero_mul]
  have hlast : ∑ s ∈ Finset.range n, (if r ≤ s then F r s else 0) * x s = y r := by
    rw [← hback r hr]
    refine Finset.sum_congr rfl fun s _ => ?_
    by_cases hrs : r ≤ s
    · rw [if_pos hrs, if_pos hrs]
    · rw [if_neg hrs, if_neg hrs, zero_mul]
  rw [Finset.sum_congr rfl hinner, hlast, add_comm]
  exact hfwd

end Product

end Lu

variable {K R : Type} [Field K] [DecidableEq K] [Field R] [LinearOrder R]
  [Magnitude (Exact K) (Exact R)] [LawfulMagnitude K R]

/-- Solving with the LU factorization of a square matrix whose pivots are nonzero: `solve`
succeeds, and its result `x` satisfies `A x = B`. -/
theorem solve_spec {a b : Matrix (Exact K)} {n : Nat} (ha : a.WF)
    (hr : a.rows = n) (hc : a.cols = n) (hb : b.WF) (hbr : b.rows = n)
    (hd : ∀ t < n, ((a.lu (ρ := Exact R)).factors.get t t).val ≠ 0) :
    ∃ x, (a.lu (ρ := Exact R)).solve b = some x ∧ x.rows = n ∧ x.cols = b.cols ∧ x.WF ∧
      ∀ r < n, ∀ k < b.cols, ∑ s ∈ Finset.range n, (a.get r s).val * (x.get s k).val =
        (b.get r k).val := by
  have hS := lu_stage (R := R) ha hr hc
  set f := a.lu (ρ := Exact R)
  obtain ⟨h1r, h1c, h1w, h1get⟩ := Matrix.swapRows_foldl_entries hb f.swaps.toList
    fun x hx => by rw [hbr]; exact hS.swaps_lt x hx
  have hfw := Lu.forward_columns (f := f) h1w (h1r.trans (hbr.trans hS.rows.symm))
  obtain ⟨x, hx, hbk⟩ := Lu.back_columns (f := f) hfw.wf
    (hfw.rows.trans (h1r.trans (hbr.trans hS.rows.symm))) (fun t ht => hd t (hS.rows ▸ ht))
  refine ⟨x, ?_, ?_, ?_, hbk.wf, fun q hq k hk => ?_⟩
  · -- the right side with its rows exchanged, then solved
    unfold Lu.solve
    dsimp only
    rw [← Array.foldl_toList]
    exact hx
  · exact hbk.rows.trans (hfw.rows.trans (h1r.trans hbr))
  · exact hbk.cols.trans (hfw.cols.trans h1c)
  -- row `q` of `A x = B` is row `π⁻¹ q` of `P A x = P B`
  have hπ : (swapsPerm f.swaps.toList)⁻¹ q < n := swapsPerm_inv_lt hS.swaps_lt hq
  have hπq : swapsPerm f.swaps.toList ((swapsPerm f.swaps.toList)⁻¹ q) = q := by
    rw [← Equiv.Perm.mul_apply, mul_inv_cancel, Equiv.Perm.one_apply]
  rw [← hπq]
  set r := (swapsPerm f.swaps.toList)⁻¹ q
  have hb1 := h1get r (by rw [hbr]; exact hπ) k hk
  beta_reduce at hb1
  rw [← hb1]
  rw [Finset.sum_congr rfl fun s hs => by
    rw [hS.factor r hπ s (Finset.mem_range.1 hs), min_eq_left hπ.le]]
  have hn1 : f.factors.rows - 1 + 1 = n := by rw [hS.rows]; omega
  refine Lu.sum_factors_mul hπ (fun r s => (f.factors.get r s).val) (fun s => (x.get s k).val)
    (fun t => (((List.range (f.swaps.toList.foldl (fun b x => b.swapRows x.1 x.2) b).cols).foldl
      (fun b k => f.forward b k) (f.swaps.toList.foldl (fun b x => b.swapRows x.1 x.2) b)).get t k).val)
    (fun r => ((f.swaps.toList.foldl (fun b x => b.swapRows x.1 x.2) b).get r k).val)
    (fun t ht => ?_) ?_
  · have := hbk.solves k (by rw [hfw.cols, h1c]; exact hk) t (by rw [hfw.rows, h1r, hbr]; exact ht)
    rwa [hfw.rows, h1r, hbr] at this
  · have := hfw.solves k (by rw [h1c]; exact hk) r (by rw [h1r, hbr]; exact hπ)
    rw [← this, ← hn1, Finset.sum_range_succ, if_neg (by omega), add_zero]

end MixedFem
