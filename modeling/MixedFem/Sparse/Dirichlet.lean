import MixedFem.Sparse.Csr

/-!
# Homogeneous Dirichlet conditions on assembled systems

* `Csr.constrain a dofs` : for each constrained row, its diagonal entry becomes the scale (the
  magnitude of the first nonzero diagonal entry of `a`, or one) and its other stored entries
  zero; then, in every row that a constrained row has a stored entry for and that is not
  constrained itself, the entries in constrained columns become zero. On a matrix with a
  symmetric pattern this zeroes every constrained column off the diagonal;
* `constrainRhs rhs dofs` : the constrained entries of a right-hand side set to zero.
-/

namespace MixedFem

namespace Csr

variable {ρ : Type} [RealScalar ρ]

/-- The magnitude of the first diagonal entry that is not zero, or one. -/
def diagonalScale (diag : Array ρ) : ρ :=
  match diag.toList.find? (!Scalar.isZero ·) with
  | some x => RealScalar.abs x
  | none => Scalar.one

/-- Marks the given rows; a row past the end is refused. -/
def markRows (n : Nat) (rows : List Nat) : Except Violation (Array Bool) :=
  rows.foldlM (fun m r => do let _ ← Violation.get m r; pure (m.set! r true)) (Array.replicate n false)

/-- Sets the constrained row `r`: its diagonal to `scale` and its other entries to zero, marking
the columns of those other entries. -/
def constrainRow (a : Csr ρ) (scale : ρ) (acc : Array ρ × Array Bool) (r : Nat) :
    Array ρ × Array Bool := Id.run do
  let (s, e) := a.pattern.rowRange r
  let mut (values, visit) := acc
  for k in [s:e] do
    let c := a.pattern.colIndices[k]!
    if c = r then values := values.set! k scale
    else
      values := values.set! k Scalar.zero
      visit := visit.set! c true
  return (values, visit)

/-- Zeroes the entries of row `r` that lie in constrained columns. -/
def clearColumns (a : Csr ρ) (member : Array Bool) (values : Array ρ) (r : Nat) : Array ρ := Id.run do
  let (s, e) := a.pattern.rowRange r
  let mut values := values
  for k in [s:e] do
    if member[a.pattern.colIndices[k]!]! then values := values.set! k Scalar.zero
  return values

/-- The square matrix `a` with the homogeneous Dirichlet condition on `dofs` imposed. -/
def constrain (a : Csr ρ) (dofs : List Nat) : Except Violation (Csr ρ) := do
  Violation.requireEq a.nrows a.ncols "Matrix must be square"
  let scale := diagonalScale (← a.diagonal)
  let member ← markRows a.nrows dofs
  let (values, visit) := dofs.foldl (a.constrainRow scale) (a.values, Array.replicate a.nrows false)
  let values := (List.range a.nrows).foldl (fun v r =>
    if visit[r]! && !member[r]! then a.clearColumns member v r else v) values
  return { a with values }

end Csr

/-- The right-hand side with the constrained entries set to zero. -/
def constrainRhs {ρ : Type} [RealScalar ρ] (rhs : Array ρ) (dofs : List Nat) :
    Except Violation (Array ρ) :=
  dofs.foldlM (fun v d =>
    if d < v.size then .ok (v.set! d Scalar.zero) else .error (.unmet "Matrix index out of bounds.")) rhs

end MixedFem
