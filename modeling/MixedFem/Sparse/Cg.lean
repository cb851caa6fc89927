import MixedFem.Sparse.Csr
import MixedFem.Matrix.Product
import MixedFem.Matrix.Dot

/-!
# Preconditioned conjugate gradients

* `SystemOperator` : the operator `A` of `A x = b`, sparse or dense; `SystemOperator.apply`
  writes `A x` into a buffer of the result's length, and refuses mismatched sizes;
* `Preconditioner` : the identity, the Jacobi preconditioner `diag(A)⁻¹`, whose zero diagonal
  entries count as one, or a matrix applied as an operator;
* `SolveErrorKind`, `SolveError` : why and after how many updates of `x` a solve stopped;
* `CgProblem.start`, `CgProblem.step`, `CgProblem.iterate` : the state before the first update,
  one step (the stopping test, the bound on updates, `A p`, then `CgProblem.update`), and the run
  of steps;
* `conjugateGradient` : the preconditioned iteration from a guess, stopped once the
  residual `‖r‖ ≤ tol · ‖b‖`, or after `maxIter` updates;
* `solveWithGuess` : the same on the caller's vector, overwritten in place, so that a failed solve
  leaves in it the iterate reached (`CgProblem.heldIterate`).
-/

namespace MixedFem

/-- The operator of a linear system. -/
inductive SystemOperator (ρ : Type) where
  /-- A compressed sparse row matrix. -/
  | sparse (a : Csr ρ)
  /-- A dense matrix. -/
  | dense (m : Matrix ρ)

/-- `A x`, written over the buffer `y` (which a sparse product scales by zero first). -/
def SystemOperator.apply {ρ : Type} [RealScalar ρ] :
    SystemOperator ρ → Array ρ → Array ρ → Except Violation (Array ρ)
  | .sparse a, y, x => a.mulVecInto y x
  | .dense m, y, x => do
      Violation.require (m.cols == x.size && y.size == m.rows) "Gemv: dimensions mismatch."
      return if m.cols = 0 then Array.replicate m.rows Scalar.zero else m.mulVec x

/-- A preconditioner `P ≈ A⁻¹`. -/
inductive Preconditioner (ρ : Type) where
  | identity
  /-- Multiplication by the inverses of a diagonal. -/
  | jacobi (inverseDiagonal : Array ρ)
  /-- A matrix, applied as the operator of a system. -/
  | matrix (op : SystemOperator ρ)

namespace Preconditioner

variable {ρ : Type} [RealScalar ρ]

/-- The Jacobi preconditioner of a square sparse matrix; a zero on the diagonal counts as one. -/
def ofCsr (a : Csr ρ) : Except Violation (Preconditioner ρ) := do
  let d ← a.diagonal
  return .jacobi (d.map fun v => if Scalar.isZero v then Scalar.one else Scalar.one / v)

/-- `P r` written over the buffer `y`: the Jacobi preconditioner reports a size mismatch with its
text, a matrix refuses one as a product does. -/
def apply : Preconditioner ρ → Array ρ → Array ρ → Except (Failure String) (Array ρ)
  | .identity, _, x => .ok x
  | .jacobi inv, _, x =>
      if x.size ≠ inv.size then
        .error (.error
          s!"dimension mismatch: preconditioner has dimension {inv.size}, vector has length {x.size}")
      else .ok (x.zipWith (· * ·) inv)
  | .matrix op, y, x => Failure.lift (op.apply y x)

end Preconditioner

/-- Why a solve stopped without converging. -/
inductive SolveErrorKind where
  | preconditionerError (message : String)
  | indefiniteOperator
  | indefinitePreconditioner
  | maxIterationsReached (maxIter : Nat)

/-- A failed solve: the number of updates made to `x`, and the reason. -/
structure SolveError where
  iterations : Nat
  kind : SolveErrorKind

namespace SolveErrorKind

/-- The name of the reason. -/
def name : SolveErrorKind → String
  | .preconditionerError _ => "PreconditionerError"
  | .indefiniteOperator => "IndefiniteOperator"
  | .indefinitePreconditioner => "IndefinitePreconditioner"
  | .maxIterationsReached _ => "MaxIterationsReached"

/-- The text of the reason. -/
def message : SolveErrorKind → String
  | .preconditionerError m => "error applying preconditioner: " ++ m
  | .indefiniteOperator => "operator appears to be indefinite"
  | .indefinitePreconditioner => "preconditioner appears to be indefinite"
  | .maxIterationsReached n => s!"max iterations ({n}) reached"

end SolveErrorKind

/-- The text of a failed solve. -/
def SolveError.message (e : SolveError) : String :=
  s!"CG solve failed after {e.iterations} iterations: {e.kind.message}"

/-- The vectors of the iteration: the iterate, the residual, the preconditioned residual, the
search direction, the buffer of `A p`, and `zᵀ r`. -/
structure CgState (ρ : Type) where
  x : Array ρ
  r : Array ρ
  z : Array ρ
  p : Array ρ
  ap : Array ρ
  zTr : ρ
  iterations : Nat

/-- `x + α p`: the iterate an update with step length `α` moves to. -/
def CgState.movedIterate {ρ : Type} [RealScalar ρ] (s : CgState ρ) (alpha : ρ) : Array ρ :=
  s.x.zipWith (fun xi pi => xi + alpha * pi) s.p

/-- The problem of a solve: operator, preconditioner, right-hand side norm, tolerance and the
optional bound on the number of updates. -/
structure CgProblem (ρ : Type) where
  operator : SystemOperator ρ
  preconditioner : Preconditioner ρ
  bNorm : ρ
  tol : ρ
  maxIter : Option Nat

namespace CgProblem

variable {ρ : Type} [RealScalar ρ]

/-- Applies the preconditioner over the buffer `y`, a reported mismatch stopping the solve after
`it` updates. -/
def precondition (q : CgProblem ρ) (it : Nat) (y r : Array ρ) :
    Except (Failure SolveError) (Array ρ) :=
  (q.preconditioner.apply y r).mapError fun
    | .violation v => .violation v
    | .error m => .error ⟨it, .preconditionerError m⟩

/-- The state before the first update: the guess, its residual `b - A x0`, and the preconditioned
residual as the first search direction. -/
def start (q : CgProblem ρ) (b x0 : Array ρ) : Except (Failure SolveError) (CgState ρ) := do
  let n := x0.size
  let ax ← Failure.lift (q.operator.apply (Array.replicate n Scalar.zero) x0)
  let r := b.zipWith (fun bi axi => bi - axi) ax
  let z ← q.precondition 0 (Array.replicate n Scalar.zero) r
  return ⟨x0, r, z, z, Array.replicate n Scalar.zero, vectorDot z r, 0⟩

/-- The update once `A p` is known: the signs of `pᵀ A p` and `zᵀ r` are checked before they
divide, then the iterate, the residual and the search direction are updated. -/
def update (q : CgProblem ρ) (s : CgState ρ) (ap : Array ρ) :
    Except (Failure SolveError) (Option (CgState ρ)) := do
  let pAp := vectorDot s.p ap
  if pAp ≤ Scalar.zero then throw (.error ⟨s.iterations, .indefiniteOperator⟩)
  if s.zTr ≤ Scalar.zero then throw (.error ⟨s.iterations, .indefinitePreconditioner⟩)
  let alpha := s.zTr / pAp
  let x := s.movedIterate alpha
  let r := s.r.zipWith (fun ri api => ri - alpha * api) ap
  let it := s.iterations + 1
  let z ← q.precondition it s.z r
  let zTr := vectorDot z r
  let beta := zTr / s.zTr
  let p := z.zipWith (fun zi pi => zi + beta * pi) s.p
  return some ⟨x, r, z, p, ap, zTr, it⟩

/-- One update of the iterate, or `none` when the residual is small enough. -/
def step (q : CgProblem ρ) (s : CgState ρ) : Except (Failure SolveError) (Option (CgState ρ)) := do
  if vectorNorm s.r ≤ q.tol * q.bNorm then return none
  if let some m := q.maxIter then
    if m ≤ s.iterations then throw (.error ⟨s.iterations, .maxIterationsReached m⟩)
  let ap ← Failure.lift (q.operator.apply s.ap s.p)
  q.update s ap

/-- Steps until convergence or failure; `fuel` bounds the number of steps. -/
def iterate (q : CgProblem ρ) : Nat → CgState ρ → Except (Failure SolveError) (CgState ρ)
  | 0, s => .error (.error ⟨s.iterations, .maxIterationsReached s.iterations⟩)
  | fuel + 1, s => do
      match ← q.step s with
      | none => return s
      | some s' => q.iterate fuel s'

/-- The iterate the caller's vector holds after a step from `s` fails with `e`: the
preconditioning of an update comes after `x` has moved by `α p`, every other failure before. -/
def heldAfter (q : CgProblem ρ) (s : CgState ρ) : Failure SolveError → Array ρ
  | .error ⟨_, .preconditionerError _⟩ =>
      match q.operator.apply s.ap s.p with
      | .ok ap => s.movedIterate (s.zTr / vectorDot s.p ap)
      | .error _ => s.x
  | _ => s.x

/-- The iterate the caller's vector holds where a run of `iterate` from `s` stops. -/
def heldIterate (q : CgProblem ρ) : Nat → CgState ρ → Array ρ
  | 0, s => s.x
  | fuel + 1, s =>
      match q.step s with
      | .ok none => s.x
      | .ok (some s') => q.heldIterate fuel s'
      | .error e => q.heldAfter s e

end CgProblem

/-- Solves `A x = b` from the guess `x0` by preconditioned conjugate gradients, and returns the
solution with the number of updates made to it. A zero right-hand side gives the zero solution at
once. Without `maxIter` the number of updates is bounded by `fuel` alone. -/
def conjugateGradient {ρ : Type} [RealScalar ρ] (op : SystemOperator ρ) (pc : Preconditioner ρ)
    (tol : ρ) (maxIter : Option Nat) (fuel : Nat) (b x0 : Array ρ) :
    Except (Failure SolveError) (Array ρ × Nat) := do
  Failure.lift (Violation.requireEq b.size x0.size "")
  let n := x0.size
  let bNorm := vectorNorm b
  if Scalar.isZero bNorm then return (Array.replicate n Scalar.zero, 0)
  let q : CgProblem ρ := ⟨op, pc, bNorm, tol, maxIter⟩
  let s ← q.iterate (maxIter.map (· + 1) |>.getD fuel) (← q.start b x0)
  return (s.x, s.iterations)

/-- The solve on the caller's vector, which holds the guess `x0` and is overwritten in place: a
broken precondition panics; otherwise the number of updates or the reported failure, with the
vector afterwards, which is the solution, or on a failure the iterate the solve had reached. -/
def solveWithGuess {ρ : Type} [RealScalar ρ] (op : SystemOperator ρ) (pc : Preconditioner ρ)
    (tol : ρ) (maxIter : Option Nat) (fuel : Nat) (b x0 : Array ρ) :
    Except Violation (Except SolveError Nat × Array ρ) :=
  match conjugateGradient op pc tol maxIter fuel b x0 with
  | .ok (x, it) => .ok (.ok it, x)
  | .error (.violation v) => .error v
  | .error (.error e) =>
      let q : CgProblem ρ := ⟨op, pc, vectorNorm b, tol, maxIter⟩
      match q.start b x0 with
      | .ok s₀ => .ok (.error e, q.heldIterate (maxIter.map (· + 1) |>.getD fuel) s₀)
      | .error _ => .ok (.error e, x0)

end MixedFem
