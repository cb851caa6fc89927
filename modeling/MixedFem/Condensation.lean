import MixedFem.Matrix.Lu

/-!
# Static condensation of element blocks

A mixed element system with internal unknowns `σ` and primary unknowns `u` reads
`A_ii σ + A_ip u = 0`, `A_pi σ + A_pp u = b`. Eliminating `σ` leaves the condensed matrix
`-A_pi A_ii⁻¹ A_ip` on `u` alone.

* `Block` : the four matrices of a condensation, with their names;
* `Singularity`, `CondensationFailure`, `CondensationError` : why a condensation failed, and on
  which element; `CondensationError.message`;
* `CondensationSettings.condenseInto` : validates the shapes in the order `A_ii`, `A_ip`,
  `A_pi`, output; with no internal unknowns the result is zero; otherwise the couplings must be
  finite, the pivots of `A_ii` nonzero, finite and not too small against the largest (ratio
  below the tolerance, `n_i ε` by default), and the result finite;
* `CondensationSettings.condense` : the same into an `n_p × n_p` result.
-/

namespace MixedFem

/-- The matrices taking part in a condensation. -/
inductive Block where
  | internal
  | internalPrimary
  | primaryInternal
  | output
  deriving Repr, BEq

/-- The name of a block. -/
def Block.name : Block → String
  | .internal => "A_ii"
  | .internalPrimary => "A_ip"
  | .primaryInternal => "A_pi"
  | .output => "output"

/-- The ways in which a condensation fails numerically. -/
inductive Singularity where
  /-- A coupling block has a non-finite entry. -/
  | nonFiniteCoupling (block : Block)
  /-- The factorization met an exactly zero pivot in this column. -/
  | zeroPivot (column : Nat)
  /-- The factorization produced a non-finite pivot in this column. -/
  | nonFinitePivot (column : Nat)
  /-- The smallest pivot is too small against the largest. -/
  | illConditioned
  /-- The condensed matrix has a non-finite entry. -/
  | nonFiniteResult
  deriving Repr, BEq

/-- The text of a singularity. -/
def Singularity.message : Singularity → String
  | .nonFiniteCoupling b => s!"block {b.name} has non-finite entries"
  | .zeroPivot c => s!"A_ii has a zero pivot in column {c}"
  | .nonFinitePivot c => s!"A_ii has a non-finite pivot in column {c}"
  | .illConditioned => "A_ii pivot ratio below tolerance"
  | .nonFiniteResult => "condensed matrix has non-finite entries"

/-- Why a condensation failed. -/
inductive CondensationFailure where
  /-- A block does not have the shape the others imply. -/
  | contractViolation (block : Block) (expected actual : Nat × Nat)
  /-- `A_ii` cannot be inverted reliably, or the result is not finite. -/
  | numericalSingularity (kind : Singularity)
  deriving Repr, BEq

/-- A failed condensation, with the element it happened on if known. -/
structure CondensationError where
  kind : CondensationFailure
  element : Option Nat := none
  deriving Repr, BEq

namespace CondensationError

/-- The error with the element attached. -/
def withElement (e : CondensationError) (element : Nat) : CondensationError :=
  { e with element := some element }

/-- The text of a condensation error. -/
def message (e : CondensationError) : String :=
  let base := match e.kind with
    | .contractViolation b (er, ec) (ar, ac) =>
        s!"contract violation: block {b.name} has shape {ar}x{ac}, expected {er}x{ec}"
    | .numericalSingularity k => "numerical singularity: " ++ k.message
  match e.element with
  | some n => base ++ s!" (element {n})"
  | none => base

/-- The error is a shape mismatch. -/
def isContractViolation (e : CondensationError) : Bool :=
  match e.kind with
  | .contractViolation .. => true
  | _ => false

end CondensationError

/-- Settings of the singularity checks. -/
structure CondensationSettings (ρ : Type) where
  /-- The least admissible ratio of the smallest to the largest pivot modulus. -/
  pivotTolerance : Option ρ := none

/-- The spacing of doubles at 1. -/
def floatEpsilon : Binary64 := 2.220446049250313e-16

namespace CondensationSettings

variable {α ρ : Type} [Scalar α] [RealScalar ρ] [Magnitude α ρ]

/-- The tolerance for `n` internal unknowns: the one set, or `n ε` in double precision. -/
def effectiveTolerance (s : CondensationSettings ρ) (n : Nat) : ρ :=
  s.pivotTolerance.getD (RealScalar.ofFloat (Binary64.ofNat n * floatEpsilon))

/-- Fails unless the shape is the expected one. -/
def checkShape (b : Block) (expected actual : Nat × Nat) : Except CondensationError Unit :=
  if expected = actual then .ok () else .error ⟨.contractViolation b expected actual, none⟩

/-- The pivot check: the first non-finite or zero pivot modulus fails, then the ratio of the
smallest to the largest modulus is compared with the tolerance. -/
def checkPivots (pivots : Array α) (tolerance : ρ) : Except CondensationError Unit := do
  let mut least : Option ρ := none
  let mut most : ρ := Scalar.zero
  for h : c in [0:pivots.size] do
    let m : ρ := Magnitude.modulus pivots[c]
    if !Scalar.isFinite m then throw ⟨.numericalSingularity (.nonFinitePivot c), none⟩
    if Scalar.isZero m then throw ⟨.numericalSingularity (.zeroPivot c), none⟩
    least := some (match least with
      | some cur => if cur < m then cur else m
      | none => m)
    most := if m ≤ most then most else m
  match least with
  | some l => if l < tolerance * most then throw ⟨.numericalSingularity .illConditioned, none⟩
  | none => pure ()

/-- `-A_pi A_ii⁻¹ A_ip` into a result of shape `output`. -/
def condenseInto (s : CondensationSettings ρ) (output : Nat × Nat) (aii aip api : Matrix α) :
    Except CondensationError (Matrix α) := do
  let ni := aii.rows
  let np := aip.cols
  checkShape .internal (ni, ni) aii.shape
  checkShape .internalPrimary (ni, np) aip.shape
  checkShape .primaryInternal (np, ni) api.shape
  checkShape .output (np, np) output
  if ni = 0 then return Matrix.zeros np np
  if !aip.allFinite then throw ⟨.numericalSingularity (.nonFiniteCoupling .internalPrimary), none⟩
  if !api.allFinite then throw ⟨.numericalSingularity (.nonFiniteCoupling .primaryInternal), none⟩
  let f := aii.lu (ρ := ρ)
  checkPivots f.pivots (s.effectiveTolerance ni)
  match f.solve aip with
  | none => throw ⟨.numericalSingularity .illConditioned, none⟩
  | some x =>
      let r := Matrix.scaledProduct (-Scalar.one) api x
      if r.allFinite then return r else throw ⟨.numericalSingularity .nonFiniteResult, none⟩

/-- `-A_pi A_ii⁻¹ A_ip`, of shape `n_p × n_p`. -/
def condense (s : CondensationSettings ρ) (aii aip api : Matrix α) :
    Except CondensationError (Matrix α) :=
  s.condenseInto (aip.cols, aip.cols) aii aip api

end CondensationSettings

end MixedFem
