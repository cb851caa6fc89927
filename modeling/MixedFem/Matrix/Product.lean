import MixedFem.Matrix.Basic

/-!
# Products of dense matrices

* `Matrix.mulColumnwise alpha A B` : `alpha * A * B` column by column: each column of the result
  starts as `(alpha * A[:,0]) * B[0,j]` and takes `(alpha * A[:,p]) * B[p,j] + 1 * y` for each
  later `p`;
* `Matrix.mulFused alpha A B` : `alpha * A * B` as register tiles form it: each entry is the
  fused sum `fma(A[i,p], B[p,j], …)` from `+0`, scaled by `alpha`, in full tiles and in tiles
  cut short by the edge of the result alike;
* `Matrix.scaledProduct` : the fused form when the scalar has a tile and the result, its rows
  and the inner dimension all exceed five, the columnwise form otherwise;
* `Matrix.mulVec` : `A * x` for a vector `x`, as a one-column product.
-/

namespace MixedFem

namespace Matrix

variable {α : Type} [Scalar α]

/-- Column `j` of `alpha * A * B`, as a sum of scaled columns of `A`. -/
def mulColumn (alpha : α) (a b : Matrix α) (j : Nat) : Array α :=
  if a.cols = 0 then Array.replicate a.rows Scalar.zero
  else
    let first := Array.ofFn (n := a.rows) fun i => alpha * a.get i.val 0 * b.get 0 j
    (List.range' 1 (a.cols - 1)).foldl (fun y p =>
      y.mapIdx fun i yi => alpha * a.get i p * b.get p j + Scalar.one * yi) first

/-- `alpha * A * B`, column by column. -/
def mulColumnwise (alpha : α) (a b : Matrix α) : Matrix α :=
  ⟨a.rows, b.cols, (List.range b.cols).foldl (fun acc j => acc ++ mulColumn alpha a b j) #[]⟩

/-- The fused sum `Σ_p A[i,p] * B[p,j]` from `+0`, each term added by one rounding. -/
def fusedDot (a b : Matrix α) (i j : Nat) : α :=
  (List.range a.cols).foldl (fun acc p => Scalar.mulAdd (a.get i p) (b.get p j) acc) Scalar.zero

/-- `alpha * A * B` from fused sums. -/
def mulFused (alpha : α) (a b : Matrix α) : Matrix α :=
  ofFn a.rows b.cols fun i j => alpha * fusedDot a b i j

/-- `alpha * A * B`. -/
def scaledProduct (alpha : α) (a b : Matrix α) : Matrix α :=
  match Scalar.tile (α := α) with
  | some _ =>
      if 5 < a.rows ∧ 5 < b.cols ∧ 5 < a.cols then mulFused alpha a b
      else mulColumnwise alpha a b
  | none => mulColumnwise alpha a b

/-- `A * x`. -/
def mulVec (a : Matrix α) (x : Array α) : Array α :=
  mulColumn Scalar.one a ⟨x.size, 1, x⟩ 0

end Matrix

end MixedFem
