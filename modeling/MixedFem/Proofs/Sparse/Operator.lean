import Mathlib.Algebra.BigOperators.Ring.List
import Mathlib.Algebra.BigOperators.Ring.Finset
import Mathlib.Algebra.BigOperators.Group.Finset.Sigma
import MixedFem.Sparse.Cg
import MixedFem.Proofs.Sparse.Rows
import MixedFem.Proofs.Matrix.Product

/-!
# Vectors and the operator of a linear system, in exact arithmetic

Read over an ordered field, the blocked dot product is the dot product, and
`SystemOperator.apply` is a linear map that does not look at the buffer it writes over: a sparse
product scales the buffer by zero, and a dense one replaces it.

* `vectorDot_val` : `vectorDot x y = Σ x_i y_i`, the eight lanes and the tail put together;
  `vectorNorm_eq_zero` : the norm of a zero vector is zero;

* `SystemOperator.Square op n` : the operator's matrix is `n × n`;
* `SystemOperator.product op x` : `A x`, the row sums of the stored entries of a sparse matrix,
  or of a dense row, with the entries of `x`;
* `apply_eq_ok_iff` : the product succeeds exactly on vectors and buffers of length `n`, and
  returns `A x`;
* `product_add_smul` : `A (x + c p) = A x + c A p`, entry by entry; `product_zero` : `A 0 = 0`.
-/

namespace MixedFem

section Vectors

variable {α β γ : Type} [Inhabited α] [Inhabited β] [Inhabited γ]

theorem getElem!_zipWith (f : α → β → γ) (x : Array α) (y : Array β) {i : Nat} (hx : i < x.size)
    (hy : i < y.size) : (x.zipWith f y)[i]! = f x[i]! y[i]! := by
  rw [getElem!_pos (x.zipWith f y) i (by simp [hx, hy]), Array.getElem_zipWith,
    getElem!_pos x i hx, getElem!_pos y i hy]

end Vectors

namespace Exact

variable {K : Type} [Field K] [DecidableEq K]

theorem val_getElem!_default (x : Array (Exact K)) {i : Nat} (hi : x.size ≤ i) :
    (x[i]!).val = 0 := by
  rw [getElem!_neg x i (by omega)]
  rfl

/-- Two exact vectors of one length with the same values are equal. -/
theorem array_ext {x y : Array (Exact K)} (hsize : x.size = y.size)
    (h : ∀ i < x.size, (x[i]!).val = (y[i]!).val) : x = y := by
  refine Array.ext hsize fun i hx hy => Exact.ext ?_
  have := h i hx
  rwa [getElem!_pos x i hx, getElem!_pos y i hy] at this

/-- An entrywise operation that reads as `g` in the field and sends zeros to zero, on two vectors
of one length, read at any index. -/
theorem val_zipWith {x y : Array (Exact K)} (hxy : x.size = y.size)
    (f : Exact K → Exact K → Exact K) (g : K → K → K) (hf : ∀ u v, (f u v).val = g u.val v.val)
    (hg : g 0 0 = 0) (j : Nat) : ((x.zipWith f y)[j]!).val = g (x[j]!).val (y[j]!).val := by
  by_cases hj : j < x.size
  · rw [getElem!_zipWith _ _ _ hj (hxy ▸ hj), hf]
  · rw [val_getElem!_default _ (by simp; omega), val_getElem!_default x (by omega),
      val_getElem!_default y (by omega), hg]

/-- `x + c p` read at any index, for `x` and `p` of one length. -/
theorem val_zipWith_add_mul {x p : Array (Exact K)} (hxp : x.size = p.size) (c : Exact K)
    (j : Nat) : ((x.zipWith (fun xi pi => xi + c * pi) p)[j]!).val =
      (x[j]!).val + c.val * (p[j]!).val :=
  val_zipWith hxp _ (fun u v => u + c.val * v) (fun _ _ => rfl) (by simp) j

/-- `r - c a` read at any index, for `r` and `a` of one length. -/
theorem val_zipWith_sub_mul {r a : Array (Exact K)} (hra : r.size = a.size) (c : Exact K)
    (j : Nat) : ((r.zipWith (fun ri ai => ri - c * ai) a)[j]!).val =
      (r[j]!).val - c.val * (a[j]!).val :=
  val_zipWith hra _ (fun u v => u - c.val * v) (fun _ _ => rfl) (by simp) j

theorem val_replicate_zero (m j : Nat) :
    ((Array.replicate m (Scalar.zero : Exact K))[j]! : Exact K).val = 0 := by
  by_cases hj : j < m
  · rw [getElem!_pos (Array.replicate m (Scalar.zero : Exact K)) j (by simpa using hj),
      Array.getElem_replicate, Exact.val_zero]
  · exact val_getElem!_default _ (by simpa using hj)

/-- `b - a` read at any index, for `b` and `a` of one length. -/
theorem val_zipWith_sub {b a : Array (Exact K)} (hba : b.size = a.size) (j : Nat) :
    ((b.zipWith (fun bi ai => bi - ai) a)[j]!).val = (b[j]!).val - (a[j]!).val :=
  val_zipWith hba _ (fun u v => u - v) (fun _ _ => rfl) (by simp) j

end Exact

/-- A running sum read in the field. -/
theorem Exact.val_foldl_add {K ι : Type} [Field K] [DecidableEq K] (f : ι → Exact K) :
    ∀ (l : List ι) (d : Exact K),
      (l.foldl (fun d k => d + f k) d).val = d.val + (l.map fun k => (f k).val).sum
  | [], d => by simp
  | k :: l, d => by
    rw [List.foldl_cons, Exact.val_foldl_add f l, List.map_cons, List.sum_cons, Exact.val_add,
      add_assoc]

section Dot

variable {K : Type} [Field K] [LinearOrder K]

theorem dotLane_val (x y : Array (Exact K)) (blocks k : Nat) :
    (dotLane x y blocks k).val =
      ∑ c ∈ Finset.range blocks, (x[8 * c + k]!).val * (y[8 * c + k]!).val := by
  simp only [dotLane, Std.Legacy.Range.forIn_eq_forIn_range', Std.Legacy.Range.size,
    Nat.sub_zero, Nat.add_sub_cancel, Nat.div_one, List.forIn_pure_yield_eq_foldl, pure_bind,
    Id.run_pure]
  rw [Exact.val_foldl_add, Exact.val_zero, zero_add, sum_range'_eq_sum_range]
  simp

/-- The first `8 b` terms of a sum, taken in blocks of eight. -/
theorem sum_range_eight_mul {M : Type} [AddCommMonoid M] (f : Nat → M) :
    ∀ b, ∑ i ∈ Finset.range (8 * b), f i = ∑ c ∈ Finset.range b, ∑ k ∈ Finset.range 8, f (8 * c + k)
  | 0 => by simp
  | b + 1 => by
    rw [Nat.mul_succ, Finset.sum_range_add, sum_range_eight_mul f b, Finset.sum_range_succ _ b]

/-- The blocked dot product is the dot product: lane `k` sums the terms `8 c + k` of the whole
blocks, and the tail the terms past them. -/
theorem vectorDot_val (x y : Array (Exact K)) :
    (vectorDot x y).val = ∑ i ∈ Finset.range x.size, (x[i]!).val * (y[i]!).val := by
  simp only [vectorDot, Std.Legacy.Range.forIn_eq_forIn_range', Std.Legacy.Range.size,
    Nat.add_sub_cancel, Nat.div_one, List.forIn_pure_yield_eq_foldl, pure_bind, Id.run_pure]
  have hsplit : 8 * (x.size / 8) + (x.size - 8 * (x.size / 8)) = x.size := by
    have := Nat.mul_div_le x.size 8
    omega
  have hsum : ∑ i ∈ Finset.range x.size, (x[i]!).val * (y[i]!).val =
      ∑ k ∈ Finset.range 8, ∑ c ∈ Finset.range (x.size / 8),
          (x[8 * c + k]!).val * (y[8 * c + k]!).val +
        ∑ j ∈ Finset.range (x.size - 8 * (x.size / 8)),
          (x[8 * (x.size / 8) + j]!).val * (y[8 * (x.size / 8) + j]!).val := by
    rw [Finset.sum_comm, ← sum_range_eight_mul (fun i => (x[i]!).val * (y[i]!).val),
      ← Finset.sum_range_add, hsplit]
  rw [hsum, Exact.val_foldl_add, List.range'_eq_map_range, List.map_map, List.range_eq_range',
    sum_range'_eq_sum_range]
  simp only [Exact.val_add, Exact.val_zero, zero_add, dotLane_val, Finset.sum_range_succ,
    Finset.sum_range_zero, Function.comp_def, Exact.val_mul]
  ring

theorem Exact.sqrt_zero : Exact.sqrt (0 : K) = 0 := by
  have h : ∃ y : K, 0 ≤ y ∧ y * y = 0 := ⟨0, le_rfl, mul_zero 0⟩
  rw [Exact.sqrt, dif_pos h]
  exact mul_self_eq_zero.1 (Classical.choose_spec h).2

theorem vectorNorm_eq_zero {x : Array (Exact K)} (h : ∀ i < x.size, (x[i]!).val = 0) :
    (vectorNorm x).val = 0 := by
  have hdot : (vectorDot x x).val = 0 :=
    (vectorDot_val x x).trans (Finset.sum_eq_zero fun i hi => by
      rw [h i (Finset.mem_range.1 hi), zero_mul])
  show Exact.sqrt (0 + (vectorDot x x).val) = 0
  rw [hdot, add_zero, Exact.sqrt_zero]

theorem vectorNorm_replicate_zero (m : Nat) :
    (vectorNorm (Array.replicate m (Scalar.zero : Exact K))).val = 0 :=
  vectorNorm_eq_zero fun i _ => Exact.val_replicate_zero m i

end Dot

namespace SystemOperator

variable {K : Type} [Field K] [LinearOrder K]

/-- The operator's matrix has `n` rows and `n` columns. -/
def Square {ρ : Type} : SystemOperator ρ → Nat → Prop
  | .sparse a, n => a.nrows = n ∧ a.ncols = n
  | .dense m, n => m.rows = n ∧ m.cols = n

/-- `A x` in exact arithmetic: row `i` sums the stored entries of a sparse row times the entries of
`x` in their columns, or the entries of a dense row times those of `x`. -/
def product : SystemOperator (Exact K) → Array (Exact K) → Array (Exact K)
  | .sparse a, x => Array.ofFn (n := a.nrows) fun i => Exact.mk ((a.pattern.positions i).map
      fun k => (a.values[k]!).val * (x[a.pattern.colIndices[k]!]!).val).sum
  | .dense m, x => Array.ofFn (n := m.rows) fun i => Exact.mk
      (∑ p ∈ Finset.range m.cols, (m.get i p).val * (x[p]!).val)

variable {op : SystemOperator (Exact K)} {n : Nat}

theorem size_product (h : op.Square n) (x : Array (Exact K)) : (op.product x).size = n := by
  cases op with
  | sparse a => simpa [product] using h.1
  | dense m => simpa [product] using h.1

/-- A row of the sparse product, the loop of `mulVecInto` read in the field. -/
theorem mulVecInto_row (a : Csr (Exact K)) (x : Array (Exact K)) (i : Nat) (yi : Exact K) :
    (Id.run do
      let (s, e) := a.pattern.rowRange i
      let mut dot : Exact K := Scalar.zero
      for k in [s:e] do
        dot := dot + a.values[k]! * x[a.pattern.colIndices[k]!]!
      return Scalar.zero * yi + Scalar.one * dot) =
    Exact.mk ((a.pattern.positions i).map
      fun k => (a.values[k]!).val * (x[a.pattern.colIndices[k]!]!).val).sum := by
  simp only [Std.Legacy.Range.forIn_eq_forIn_range', Std.Legacy.Range.size,
    SparsityPattern.rowRange_eq, Nat.add_sub_cancel, Nat.div_one, List.forIn_pure_yield_eq_foldl,
    pure_bind, Id.run_pure]
  ext
  rw [Exact.val_add, Exact.val_mul, Exact.val_mul, Exact.val_zero, Exact.val_one, zero_mul, zero_add,
    one_mul, Exact.val_foldl_add, Exact.val_zero, zero_add, Exact.val_mk]
  rfl

/-- The dense product `m.mulVec x`, read in the field. -/
theorem mulVec_eq_product (m : Matrix (Exact K)) (x : Array (Exact K)) :
    m.mulVec x = (SystemOperator.dense m).product x := by
  obtain ⟨hsize, hget⟩ := Matrix.mulColumn_getElem? Scalar.one m ⟨x.size, 1, x⟩ 0
  refine Exact.array_ext (by simpa [product, Matrix.mulVec] using hsize) fun i hi => ?_
  have hi' : i < m.rows := by simpa [Matrix.mulVec, hsize] using hi
  rw [getElem!_def, Matrix.mulVec, hget i hi', getElem!_pos _ i (by simpa [product] using hi')]
  simp only [product, Array.getElem_ofFn, Exact.val_mk, Exact.val_one, one_mul]
  refine Finset.sum_congr rfl fun p _ => ?_
  congr 1
  simp only [Matrix.get, Nat.zero_mul, Nat.zero_add, Array.getElem!_eq_getD]
  rfl

/-- The product succeeds exactly on vectors and buffers of the operator's size, and then it is
`A x`, whatever the buffer holds. -/
theorem apply_eq_ok_iff (h : op.Square n) (y x v : Array (Exact K)) :
    op.apply y x = .ok v ↔ y.size = n ∧ x.size = n ∧ v = op.product x := by
  cases op with
  | sparse a =>
    obtain ⟨hr, hc⟩ := h
    simp only [apply, Csr.mulVecInto, Violation.requireEq, Csr.nrows, Csr.ncols] at hr hc ⊢
    by_cases hy : y.size = n
    · by_cases hx : x.size = n
      · have hprod : y.mapIdx (fun i yi => Id.run do
            let (s, e) := a.pattern.rowRange i
            let mut dot : Exact K := Scalar.zero
            for k in [s:e] do
              dot := dot + a.values[k]! * x[a.pattern.colIndices[k]!]!
            return Scalar.zero * yi + Scalar.one * dot) = (SystemOperator.sparse a).product x := by
          refine Array.ext (by simp [product, Csr.nrows, hr, hy]) fun i hi _ => ?_
          rw [Array.getElem_mapIdx, mulVecInto_row]
          simp [product]
        simp only [hy, hr, hc, hx, if_true, true_and]
        rw [← hprod]
        exact ⟨fun h => (Except.ok.inj h).symm, fun h => h ▸ rfl⟩
      · simp only [hy, hr, hc, if_true]
        rw [if_neg (Ne.symm hx)]
        simp [hx, bind, Except.bind]
    · simp only [hr]
      simp [hy, bind, Except.bind]
  | dense m =>
    obtain ⟨hr, hc⟩ := h
    simp only [apply, Violation.require]
    by_cases hyx : y.size = n ∧ x.size = n
    · obtain ⟨hy, hx⟩ := hyx
      have hcond : (m.cols == x.size && y.size == m.rows) = true := by simp [hr, hc, hx, hy]
      have hzero : (if m.cols = 0 then Array.replicate m.rows Scalar.zero else m.mulVec x) =
          (SystemOperator.dense m).product x := by
        split_ifs with h0
        · refine Exact.array_ext (by simp [product]) fun i hi => ?_
          have hi' : i < m.rows := by simpa using hi
          rw [getElem!_pos (Array.replicate m.rows (Scalar.zero : Exact K)) i hi]
          simp [product, h0, hi']
        · exact mulVec_eq_product m x
      rw [if_pos hcond]
      simp only [hzero, hy, hx, true_and]
      exact ⟨fun h => (Except.ok.inj h).symm, fun h => h ▸ rfl⟩
    · have hcond : ¬ (m.cols == x.size && y.size == m.rows) = true := by
        simp only [Bool.and_eq_true, beq_iff_eq, hr, hc]
        omega
      rw [if_neg hcond]
      simp only [bind, Except.bind, reduceCtorEq, false_iff]
      omega

/-- Linearity of the product, entry by entry. -/
theorem product_add_smul (h : op.Square n) {x p : Array (Exact K)} (hx : x.size = n)
    (hp : p.size = n) (c : Exact K) (i : Nat) :
    ((op.product (x.zipWith (fun xi pi => xi + c * pi) p))[i]!).val =
      ((op.product x)[i]!).val + c.val * ((op.product p)[i]!).val := by
  by_cases hi : i < n
  · have hi' : ∀ y, i < (op.product y).size := fun y => (size_product h y).symm ▸ hi
    rw [getElem!_pos _ i (hi' _), getElem!_pos _ i (hi' _), getElem!_pos _ i (hi' _)]
    have hxp : x.size = p.size := hx.trans hp.symm
    cases op with
    | sparse a =>
      simp only [product, Array.getElem_ofFn, Exact.val_mk, Exact.val_zipWith_add_mul hxp,
        mul_add, List.sum_map_add, mul_left_comm _ c.val, List.sum_map_mul_left]
    | dense m =>
      simp only [product, Array.getElem_ofFn, Exact.val_mk, Exact.val_zipWith_add_mul hxp,
        mul_add, Finset.sum_add_distrib, mul_left_comm _ c.val, ← Finset.mul_sum]
  · rw [Exact.val_getElem!_default _ (by rw [size_product h]; omega),
      Exact.val_getElem!_default _ (by rw [size_product h]; omega),
      Exact.val_getElem!_default _ (by rw [size_product h]; omega), mul_zero, add_zero]

/-- The product of the zero vector is zero. -/
theorem product_zero (op : SystemOperator (Exact K)) (m i : Nat) :
    ((op.product (Array.replicate m (Scalar.zero : Exact K)))[i]!).val = 0 := by
  have hz := Exact.val_replicate_zero (K := K) m
  by_cases hi : i < (op.product (Array.replicate m (Scalar.zero : Exact K))).size
  · rw [getElem!_pos _ i hi]
    cases op with
    | sparse a => simp [product, hz]
    | dense a => simp [product, hz]
  · exact Exact.val_getElem!_default _ (by omega)

/-- The residual of the zero vector is the right-hand side. -/
theorem zipWith_sub_product_zero (h : op.Square n) {b : Array (Exact K)} (hb : b.size = n)
    (m : Nat) : b.zipWith (fun bi axi => bi - axi) (op.product (Array.replicate m Scalar.zero)) = b :=
  Exact.array_ext (by simp [size_product h, hb]) fun i _ => by
    rw [Exact.val_zipWith_sub (by rw [size_product h, hb]), product_zero, sub_zero]

end SystemOperator

end MixedFem
