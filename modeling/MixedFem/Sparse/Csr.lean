import MixedFem.Sparse.Pattern
import MixedFem.Matrix.Basic

/-!
# Compressed sparse row matrices

* `Csr ρ` : a sparsity pattern and a value per stored position;
* `Csr.make` : a matrix from offsets, columns and values, or the first `CsrError` found;
* `Csr.zeros`, `Csr.ofDense` : zeros on a pattern, and the nonzero entries of a dense matrix;
* `Csr.diagonal` : the diagonal of a square matrix, zero where nothing is stored;
* `Csr.frobeniusNorm` : `sqrt (Σ v²)` over the stored values from zero;
* `Csr.frobeniusDistance` : the Frobenius norm of `A - B`, rows merged by column;
* `Csr.neg` : every value negated;
* `Csr.mulVecInto` : `y ← 0·y + 1·(A x)`, each row's sum taken from zero in stored order.
-/

namespace MixedFem

/-- A sparse matrix in compressed row form. -/
structure Csr (ρ : Type) where
  pattern : SparsityPattern
  values : Array ρ
  deriving Inhabited

/-- Why offsets, columns and values do not describe a matrix. -/
inductive CsrError where
  /-- The offsets and columns do not describe a pattern. -/
  | pattern (e : PatternError)
  /-- There is not one value per listed column. -/
  | valueCount
  deriving DecidableEq, Repr

/-- The text of a format error, stated in terms of rows and columns. -/
def CsrError.message : CsrError → String
  | .pattern .offsetCount => "Length of row offset array is not equal to nrows + 1."
  | .pattern .offsetEnds => "First or last row offset is inconsistent with format specification."
  | .pattern .offsetsDecrease => "Row offsets are not monotonically increasing."
  | .pattern .columnOutOfBounds => "Column indices are out of bounds."
  | .pattern .columnsUnsorted =>
      "Column indices are not monotonically increasing (sorted) within each row."
  | .pattern .duplicateColumn => "Matrix data contains duplicate entries."
  | .valueCount => "Number of values and column indices must be the same"

namespace Csr

variable {ρ : Type}

/-- A matrix from its parts: the pattern is checked first, then the number of values. -/
def make (nrows ncols : Nat) (offsets cols : Array Nat) (values : Array ρ) :
    Except (Failure CsrError) (Csr ρ) := do
  let p ← (SparsityPattern.make nrows ncols offsets cols).mapError fun
    | .violation v => .violation v
    | .error e => .error (.pattern e)
  if p.nnz ≠ values.size then throw (.error .valueCount)
  return ⟨p, values⟩

/-- Number of rows. -/
def nrows (a : Csr ρ) : Nat := a.pattern.nrows

/-- Number of columns. -/
def ncols (a : Csr ρ) : Nat := a.pattern.ncols

/-- Number of stored entries. -/
def nnz (a : Csr ρ) : Nat := a.pattern.nnz

section

variable [RealScalar ρ]

/-- Zeros on every position of a pattern. -/
def zeros (p : SparsityPattern) : Csr ρ := ⟨p, Array.replicate p.nnz Scalar.zero⟩

/-- The entries of a dense matrix that are not zero. -/
def ofDense (m : Matrix ρ) : Csr ρ :=
  let rows := (List.range m.rows).map fun i =>
    (List.range m.cols).filterMap fun j => let v := m.get i j; if Scalar.isZero v then none else some (j, v)
  let offsets := rows.foldl (fun (o : Array Nat) r => o.push (o.back?.getD 0 + r.length)) #[0]
  let entries := rows.flatten.toArray
  ⟨⟨m.rows, m.cols, offsets, entries.map (·.1)⟩, entries.map (·.2)⟩

/-- The stored entry `(i, i)`, or zero. -/
def diagonalEntry (a : Csr ρ) (i : Nat) : ρ :=
  let (s, e) := a.pattern.rowRange i
  match (List.range' s (e - s)).find? (fun k => a.pattern.colIndices[k]! == i) with
  | some k => a.values[k]!
  | none => Scalar.zero

/-- The diagonal of a square matrix. -/
def diagonal (a : Csr ρ) : Except Violation (Array ρ) := do
  Violation.requireEq a.nrows a.ncols "Matrix must be square"
  return Array.ofFn (n := a.nrows) fun i => a.diagonalEntry i.val

/-- `sqrt (Σ v²)` over the stored values. -/
def frobeniusNorm (a : Csr ρ) : ρ :=
  RealScalar.sqrt (a.values.foldl (fun s v => s + v * v) Scalar.zero)

/-- The squares of the differences of two rows, in order of column. -/
def rowDifferences (ca : List Nat) (va : List ρ) (cb : List Nat) (vb : List ρ) : List ρ :=
  match ca, va, cb, vb with
  | i :: ca', x :: va', j :: cb', y :: vb' =>
      if i = j then (x - y) :: rowDifferences ca' va' cb' vb'
      else if i < j then x :: rowDifferences ca' va' (j :: cb') (y :: vb')
      else -y :: rowDifferences (i :: ca') (x :: va') cb' vb'
  | _, _, _ :: cb', y :: vb' => -y :: rowDifferences [] [] cb' vb'
  | _ :: ca', x :: va', _, _ => x :: rowDifferences ca' va' [] []
  | _, _, _, _ => []
termination_by ca.length + cb.length

/-- The stored values of row `i`. -/
def rowValues (a : Csr ρ) (i : Nat) : Array ρ :=
  let (s, e) := a.pattern.rowRange i
  a.values.extract s e

/-- The Frobenius norm of `A - B`. -/
def frobeniusDistance (a b : Csr ρ) : Except Violation ρ := do
  Violation.requireEq a.nrows b.nrows "Matrices must have the same number of rows"
  Violation.requireEq a.ncols b.ncols "Matrices must have the same number of columns"
  let sum := (List.range a.nrows).foldl (fun s i =>
    (rowDifferences (a.pattern.rowCols i).toList (a.rowValues i).toList
      (b.pattern.rowCols i).toList (b.rowValues i).toList).foldl (fun s d => s + d * d) s) Scalar.zero
  return RealScalar.sqrt sum

/-- Every value negated. -/
def neg (a : Csr ρ) : Csr ρ := { a with values := a.values.map (-·) }

/-- `0·y + 1·(A x)`: the sum of row `i` is taken from zero in stored order. -/
def mulVecInto (a : Csr ρ) (y x : Array ρ) : Except Violation (Array ρ) := do
  Violation.requireEq y.size a.nrows "C.nrows() != A.nrows()"
  Violation.requireEq 1 1 "C.ncols() != B.ncols()"
  Violation.requireEq a.ncols x.size "A.ncols() != B.nrows()"
  return y.mapIdx fun i yi => Id.run do
    let (s, e) := a.pattern.rowRange i
    let mut dot : ρ := Scalar.zero
    for k in [s:e] do
      dot := dot + a.values[k]! * x[a.pattern.colIndices[k]!]!
    return Scalar.zero * yi + Scalar.one * dot

end

end Csr

end MixedFem
