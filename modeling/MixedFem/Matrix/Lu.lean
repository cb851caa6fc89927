import MixedFem.Matrix.Product

/-!
# LU factorization with partial pivoting

* `Matrix.pivotRow` : the row of the entry of largest `norm1` in a column, from the diagonal
  down; the first on ties, and a NaN never wins;
* `Matrix.eliminate` : one elimination step: rows exchanged, multipliers stored below the
  diagonal, the trailing block updated by `(-u) * l * 1 + 1 * a`;
* `Lu` : the factors in one matrix with the row exchanges made, and `Matrix.lu`;
* `Lu.solve` : `A⁻¹ B` by exchanging the rows of `B`, then forward and back substitution;
  `none` if the upper factor has a zero on its diagonal.

A column whose candidate pivots are all zero is left as it stands.
-/

namespace MixedFem

variable {α ρ : Type} [Scalar α] [RealScalar ρ] [Magnitude α ρ]

namespace Matrix

/-- The pivot row for column `i`. -/
def pivotRow (m : Matrix α) (i : Nat) : Nat :=
  ((List.range' (i + 1) (m.rows - (i + 1))).foldl (fun (best, size) r =>
      let v : ρ := Magnitude.norm1 (m.get r i)
      if size < v then (r, v) else (best, size)) (i, (Magnitude.norm1 (m.get i i) : ρ))).1

/-- Column `k` below row `i` updated by the multipliers of column `i`. -/
def eliminateColumn (m : Matrix α) (i k : Nat) : Matrix α :=
  let u := m.get i k
  (List.range' (i + 1) (m.rows - (i + 1))).foldl (fun m r =>
    m.set r k (-u * m.get r i * Scalar.one + Scalar.one * m.get r k)) m

/-- The elimination step for column `i` with pivot `diag` in row `i`. -/
def eliminate (m : Matrix α) (diag : α) (i : Nat) : Matrix α :=
  let inv := Scalar.one / diag
  let m := (List.range' (i + 1) (m.rows - (i + 1))).foldl (fun m r => m.set r i (m.get r i * inv)) m
  (List.range' (i + 1) (m.cols - (i + 1))).foldl (fun m k => m.eliminateColumn i k) m

end Matrix

/-- An LU factorization: the unit lower factor below the diagonal, the upper factor on and above
it, and the row exchanges in the order made. -/
structure Lu (α : Type) where
  factors : Matrix α
  swaps : Array (Nat × Nat)

/-- The LU factorization of a matrix. -/
def Matrix.lu (a : Matrix (α)) : Lu α :=
  (List.range (min a.rows a.cols)).foldl (fun (f : Lu α) i =>
    let m := f.factors
    let piv := m.pivotRow (ρ := ρ) i
    let diag := m.get piv i
    if Scalar.isZero diag then f
    else if piv ≠ i then ⟨(m.swapRows i piv).eliminate diag i, f.swaps.push (i, piv)⟩
    else ⟨m.eliminate diag i, f.swaps⟩) ⟨a, #[]⟩

namespace Lu

/-- The diagonal of the upper factor. -/
def pivots (f : Lu α) : Array α :=
  Array.ofFn (n := min f.factors.rows f.factors.cols) fun i => f.factors.get i.val i.val

/-- Forward substitution with the unit lower factor, in column `k` of `b`. -/
def forward (f : Lu α) (b : Matrix α) (k : Nat) : Matrix α :=
  let n := f.factors.rows
  (List.range (n - 1)).foldl (fun b i =>
    let c := b.get i k / Scalar.one
    (List.range' (i + 1) (n - (i + 1))).foldl (fun b r =>
      b.set r k (-c * f.factors.get r i * Scalar.one + Scalar.one * b.get r k)) b) b

/-- Back substitution with the upper factor, in column `k` of `b`; `none` at a zero pivot. -/
def backward (f : Lu α) (b : Matrix α) (k : Nat) : Option (Matrix α) :=
  let n := f.factors.rows
  (List.range n).reverse.foldlM (fun b i =>
    let diag := f.factors.get i i
    if Scalar.isZero diag then none
    else
      let c := b.get i k / diag
      let b := b.set i k c
      some ((List.range i).foldl (fun b r =>
        b.set r k (-c * f.factors.get r i * Scalar.one + Scalar.one * b.get r k)) b)) b

/-- `A⁻¹ B` from the factors of `A`. -/
def solve (f : Lu α) (b : Matrix α) : Option (Matrix α) :=
  let b := f.swaps.foldl (fun b (i, p) => b.swapRows i p) b
  let b := (List.range b.cols).foldl (fun b k => f.forward b k) b
  (List.range b.cols).foldlM (fun b k => f.backward b k) b

end Lu

end MixedFem
