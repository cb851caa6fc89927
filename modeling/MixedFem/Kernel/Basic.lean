import MixedFem.Condensation
import MixedFem.Geometry.Triangle

/-!
# Element tensors

* `CellData` : the index and the vertices of a cell;
* `TabulationError` : a degenerate cell, an output of the wrong shape, or a failed
  condensation; `TabulationError.message`;
* `ElementKernel ρ` : an element tensor of fixed shape, computed cell by cell;
* `ElementKernel.tabulateInto` : the tensor into an output of a given shape, refused if the
  shape differs; `ElementKernel.tabulate` : into an output of the kernel's own shape;
* `ElementKernel.condensed` : from kernels for `A_ii`, `A_ip` and `A_pi`, the kernel of the
  condensed matrix `-A_pi A_ii⁻¹ A_ip`; the shapes must agree (`A_ii` square, then `A_ip` and
  `A_pi` against it), and a failed condensation names the cell.
-/

namespace MixedFem

/-- A cell: its index in the mesh and its vertices. -/
structure CellData (ρ : Type) where
  index : Nat
  triangle : Triangle ρ

/-- Why an element tensor could not be computed. -/
inductive TabulationError where
  | degenerateCell (cell : Nat)
  | outputShape (expected actual : Nat × Nat)
  | condensation (e : CondensationError)

/-- The text of a tabulation error. -/
def TabulationError.message : TabulationError → String
  | .degenerateCell c => s!"cell {c} is degenerate"
  | .outputShape (er, ec) (ar, ac) => s!"output buffer has shape {ar}x{ac}, expected {er}x{ec}"
  | .condensation e => "condensation failed: " ++ e.message

/-- An element tensor: its shape, and its value on a cell. -/
structure ElementKernel (ρ : Type) where
  shape : Nat × Nat
  compute : CellData ρ → Except TabulationError (Matrix ρ)

namespace ElementKernel

variable {ρ : Type} [RealScalar ρ]

/-- The tensor on a cell into an output of shape `output`. -/
def tabulateInto (k : ElementKernel ρ) (output : Nat × Nat) (cell : CellData ρ) :
    Except TabulationError (Matrix ρ) :=
  if output = k.shape then k.compute cell else .error (.outputShape k.shape output)

/-- The tensor on a cell. -/
def tabulate (k : ElementKernel ρ) (cell : CellData ρ) : Except TabulationError (Matrix ρ) :=
  k.tabulateInto k.shape cell

/-- The kernel of `-A_pi A_ii⁻¹ A_ip`. -/
def condensed (settings : CondensationSettings ρ) (a00 a01 a10 : ElementKernel ρ) :
    Except CondensationError (ElementKernel ρ) := do
  let (ni, c00) := a00.shape
  let (r01, np) := a01.shape
  CondensationSettings.checkShape .internal (ni, ni) (ni, c00)
  CondensationSettings.checkShape .internalPrimary (ni, np) (r01, np)
  CondensationSettings.checkShape .primaryInternal (np, ni) a10.shape
  return { shape := (np, np), compute := fun cell => do
    let m00 ← a00.tabulateInto (ni, ni) cell
    let m01 ← a01.tabulateInto (ni, np) cell
    let m10 ← a10.tabulateInto (np, ni) cell
    match settings.condenseInto (np, np) m00 m01 m10 with
    | .ok m => pure m
    | .error e => throw (.condensation (e.withElement cell.index)) }

end ElementKernel

end MixedFem
