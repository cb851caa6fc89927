import Mathlib.Tactic.Ring
import MixedFem.Proofs.Matrix.Accumulate
import MixedFem.Matrix.Product

/-!
# Products of dense matrices, entry by entry

* `mulColumn_getElem?` : column `j` of `alpha A B`, one entry per row of `A`;
* `mulColumnwise_entries` : the columns stored one after the other are the matrix `alpha A B`.
-/

namespace MixedFem

namespace Matrix

variable {K : Type} [Field K] [DecidableEq K]

/-- The column `Σ_{p ≤ L} alpha A[:,p] B[p,j]` after the first `L` updates of the first term. -/
theorem mulColumn_foldl (alpha : Exact K) (a b : Matrix (Exact K)) (j : Nat) : ∀ L,
    let y := (List.range' 1 L).foldl (fun y p => y.mapIdx fun i yi =>
        alpha * a.get i p * b.get p j + Scalar.one * yi)
        (Array.ofFn (n := a.rows) fun i => alpha * a.get i.val 0 * b.get 0 j)
    y.size = a.rows ∧ ∀ i < a.rows, y[i]? =
      some (Exact.mk (alpha.val * ∑ p ∈ Finset.range (L + 1), (a.get i p).val * (b.get p j).val))
  | 0 => by
    refine ⟨Array.size_ofFn, fun i hi => ?_⟩
    simp only [List.range'_zero, List.foldl_nil, Array.getElem?_ofFn, hi, dite_true,
      Option.some.injEq]
    ext
    simp [mul_assoc]
  | L + 1 => by
    obtain ⟨hsize, hget⟩ := mulColumn_foldl alpha a b j L
    simp only [List.range'_1_concat, Nat.add_comm 1 L, List.foldl_append, List.foldl_cons,
      List.foldl_nil, Array.size_mapIdx]
    refine ⟨hsize, fun i hi => ?_⟩
    rw [Array.getElem?_mapIdx, hget i hi, Option.map_some, Finset.sum_range_succ _ (L + 1)]
    congr 1
    ext
    simp only [Exact.val_add, Exact.val_mul, Exact.val_one, Exact.val_mk]
    ring

/-- Column `j` of `alpha * A * B` holds `alpha Σ_p A[i,p] B[p,j]` in row `i`. -/
theorem mulColumn_getElem? (alpha : Exact K) (a b : Matrix (Exact K)) (j : Nat) :
    (mulColumn alpha a b j).size = a.rows ∧ ∀ i < a.rows, (mulColumn alpha a b j)[i]? =
      some (Exact.mk (alpha.val * ∑ p ∈ Finset.range a.cols, (a.get i p).val * (b.get p j).val)) := by
  unfold mulColumn
  split_ifs with h0
  · refine ⟨Array.size_replicate, fun i hi => ?_⟩
    rw [Array.getElem?_replicate, if_pos hi, h0, Finset.sum_range_zero, mul_zero]
    rfl
  · have hL : a.cols - 1 + 1 = a.cols := by omega
    have := mulColumn_foldl alpha a b j (a.cols - 1)
    rw [hL] at this
    exact this

/-- The first `J` columns of `alpha * A * B`, stored one after the other. -/
theorem mulColumnwise_foldl (alpha : Exact K) (a b : Matrix (Exact K)) : ∀ J,
    let d := (List.range J).foldl (fun acc j => acc ++ mulColumn alpha a b j) #[]
    d.size = J * a.rows ∧ ∀ j < J, ∀ i < a.rows, d[j * a.rows + i]? =
      some (Exact.mk (alpha.val * ∑ p ∈ Finset.range a.cols, (a.get i p).val * (b.get p j).val))
  | 0 => ⟨by simp, fun _ h => absurd h (Nat.not_lt_zero _)⟩
  | J + 1 => by
    obtain ⟨hsize, hget⟩ := mulColumnwise_foldl alpha a b J
    obtain ⟨hsize₁, hget₁⟩ := mulColumn_getElem? alpha a b J
    simp only [List.range_succ, List.foldl_append, List.foldl_cons, List.foldl_nil,
      Array.size_append]
    refine ⟨by rw [hsize, hsize₁, Nat.succ_mul], fun j hj i hi => ?_⟩
    rcases Nat.lt_succ_iff_lt_or_eq.1 hj with hj | rfl
    · -- an earlier column, in the first part
      have hlt : j * a.rows + i < J * a.rows := by
        have := Nat.mul_le_mul_right a.rows (Nat.succ_le_of_lt hj)
        rw [Nat.succ_mul] at this
        omega
      rw [Array.getElem?_append_left (hsize ▸ hlt), hget j hj i hi]
    · rw [Array.getElem?_append_right (by omega), hsize, Nat.add_sub_cancel_left, hget₁ i hi]

/-- `mulColumnwise alpha A B` is the matrix `alpha A B`. -/
theorem mulColumnwise_entries (alpha : Exact K) (a b : Matrix (Exact K)) :
    HasEntries a.rows b.cols (fun i j =>
      alpha.val * ∑ p ∈ Finset.range a.cols, (a.get i p).val * (b.get p j).val)
      (mulColumnwise alpha a b) := by
  obtain ⟨hsize, hget⟩ := mulColumnwise_foldl alpha a b b.cols
  refine ⟨rfl, rfl, by rw [WF, Nat.mul_comm]; exact hsize, fun i hi j hj => ?_⟩
  simp only [get, mulColumnwise, Array.getD_eq_getD_getElem?, hget j hj i hi, Option.getD_some,
    Exact.val_mk]
end Matrix

end MixedFem
