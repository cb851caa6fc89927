import MixedFem.Kernel.Basic
import MixedFem.Space
import MixedFem.Sparse.Csr

/-!
# Assembly of global matrices

* `AssemblyError` : a kernel whose shape is not that of the spaces' cells, spaces and mesh with
  different numbers of cells, a matrix of the wrong shape, or a failed tabulation;
  `AssemblyError.causes` lists its text and the texts of the errors beneath it;
* `assemblePattern test trial` : the positions that couple each test dof of a cell with each
  trial dof of the same cell, collected into one array of 16-byte pairs and then sorted into a
  pattern;
* `tabulateCells k mesh order` : the element tensors, written over zero tensors. The cells are
  tabulated in parallel, `order` being the order in which they are reached, and the first failure
  in it is the one reported; on one thread the order is that of the cells;
* `assembleInto a mesh test trial k` : adds the element tensor of every cell to `a`. The zeroed
  tensors of all cells are reserved (8 bytes a value, their count a machine word) and computed
  first, then added cell by cell: each element row is matched against the row of `a` in
  increasing order of global column, so every coupled position must be stored in `a`;
* `assemble` : the same into zeros on the pattern of the spaces.

The local dimensions of the spaces are positive, so the tensors are never empty and every cell is
tabulated.
-/

namespace MixedFem

/-- Why a global matrix could not be assembled. -/
inductive AssemblyError where
  | kernelShapeMismatch (kernelShape spaceDims : Nat × Nat)
  | cellCountMismatch (test trial mesh : Nat)
  | matrixShapeMismatch (matrixShape expected : Nat × Nat)
  | tabulation (e : TabulationError)

/-- The text of a tabulation error followed by the texts of the errors beneath it. -/
def TabulationError.causes (e : TabulationError) : List String :=
  match e with
  | .condensation c => [e.message, c.message]
  | _ => [e.message]

namespace AssemblyError

/-- The text of an assembly error. -/
def message : AssemblyError → String
  | .kernelShapeMismatch (kr, kc) (sr, sc) =>
      s!"kernel tensor shape {kr}x{kc} does not match local space dimensions {sr}x{sc}"
  | .cellCountMismatch t u m => s!"cell counts differ: test space {t}, trial space {u}, mesh {m}"
  | .matrixShapeMismatch (mr, mc) (er, ec) => s!"matrix has shape {mr}x{mc}, expected {er}x{ec}"
  | .tabulation e => "tabulation failed: " ++ e.message

/-- The text of an assembly error followed by the texts of the errors beneath it. -/
def causes (e : AssemblyError) : List String :=
  match e with
  | .tabulation t => e.message :: t.causes
  | _ => [e.message]

end AssemblyError

/-- The positions coupling each test dof of cell `c` with each trial dof of the cell, after
those in `acc`. -/
def cellCoordinates (test trial : FunctionSpace) (acc : Array (Nat × Nat)) (c : Nat) :
    Except Violation (Array (Nat × Nat)) := do
  let rows ← test.cellDofs c test.localDim
  let cols ← trial.cellDofs c trial.localDim
  return rows.foldl (fun acc i => cols.foldl (fun acc j => acc.push (i, j)) acc) acc

/-- The pattern coupling every test dof of a cell with every trial dof of the cell. -/
def assemblePattern (test trial : FunctionSpace) : Except Violation SparsityPattern := do
  let coords ← (List.range test.numCells).foldlM (cellCoordinates test trial) #[]
  -- the parallel collect reserves room for all the positions at once
  Violation.require (coords.size < Nat.pow 2 59) "capacity overflow"
  SparsityPattern.ofCoordinates test.numDofs trial.numDofs coords

/-- The first position in `[k, e)` whose column is `target`. -/
def seekColumn (cols : Array Nat) (target k e : Nat) : Option Nat :=
  if k < e then
    if cols[k]! = target then some k else seekColumn cols target (k + 1) e
  else none
termination_by e - k

/-- Adds column `lc` of row `localRow` of an element tensor at the first position from `k` on,
before `e`, that stores the column's global dof; the search goes on after that position. -/
def addElementEntry {ρ : Type} [RealScalar ρ] (a : Csr ρ) (colDofs : Array Nat) (tensor : Matrix ρ)
    (localRow e : Nat) (state : Array ρ × Nat) (lc : Nat) : Except Violation (Array ρ × Nat) :=
  match seekColumn a.pattern.colIndices colDofs[lc]! state.2 e with
  | some pos => .ok (state.1.modify pos (· + tensor.get localRow lc), pos + 1)
  | none => .error (.unmet "Could not find column index associated with dof in CSR row")

/-- Adds row `localRow` of an element tensor to row `globalRow` of `a`, visiting the element's
columns in the order `perm` (increasing global column) and searching the stored row forward only. -/
def addElementRow {ρ : Type} [RealScalar ρ] (a : Csr ρ) (colDofs : Array Nat) (perm : List Nat)
    (tensor : Matrix ρ) (values : Array ρ) (localRow globalRow : Nat) : Except Violation (Array ρ) := do
  let (s, e) := a.pattern.rowRange globalRow
  let (values, _) ← perm.foldlM (addElementEntry a colDofs tensor localRow e) (values, s)
  return values

/-- Adds the element tensor of one cell. -/
def addElement {ρ : Type} [RealScalar ρ] (a : Csr ρ) (test trial : FunctionSpace) (values : Array ρ)
    (cell : Nat × Matrix ρ) : Except Violation (Array ρ) := do
  let rows ← test.cellDofs cell.1 test.localDim
  let cols ← trial.cellDofs cell.1 trial.localDim
  let perm := (List.range cols.size).mergeSort fun i j => decide (cols[i]! ≤ cols[j]!)
  (List.range rows.size).foldlM (fun v lr => addElementRow a cols perm cell.2 v lr rows[lr]!) values

/-- Tabulates cell `c` into its place among the element tensors. -/
def tabulateCell {ρ : Type} [RealScalar ρ] (k : ElementKernel ρ) (mesh : Mesh ρ)
    (tensors : Array (Matrix ρ)) (c : Nat) : Except TabulationError (Array (Matrix ρ)) := do
  let t ← k.tabulate ⟨c, mesh.cellTriangle c⟩
  return tensors.set! c t

/-- The element tensors of the cells, written over zero tensors of the kernel's shape, the cells
tabulated in the order `order` in which the parallel tabulation reaches them: the first failure in
that order is the one reported. -/
def tabulateCells {ρ : Type} [RealScalar ρ] (k : ElementKernel ρ) (mesh : Mesh ρ) (order : List Nat) :
    Except TabulationError (Array (Matrix ρ)) :=
  order.foldlM (tabulateCell k mesh)
    (Array.replicate mesh.numCells (Matrix.zeros k.shape.1 k.shape.2))

/-- Adds the element tensors of all cells of the mesh to `a`, the cells tabulated in the order
`order`; on one thread, as the program runs, that is the order of the cells. -/
def assembleInto {ρ : Type} [RealScalar ρ] (a : Csr ρ) (mesh : Mesh ρ) (test trial : FunctionSpace)
    (k : ElementKernel ρ) (order : List Nat := List.range mesh.numCells) :
    Except (Failure AssemblyError) (Csr ρ) := do
  let dims := (test.localDim, trial.localDim)
  if k.shape ≠ dims then throw (.error (.kernelShapeMismatch k.shape dims))
  let n := mesh.numCells
  if test.numCells ≠ n || trial.numCells ≠ n then
    throw (.error (.cellCountMismatch test.numCells trial.numCells n))
  let expected := (test.numDofs, trial.numDofs)
  if (a.nrows, a.ncols) ≠ expected then throw (.error (.matrixShapeMismatch (a.nrows, a.ncols) expected))
  -- the zeroed tensors of all cells, one 8-byte value each, their count wrapping in a machine word
  Failure.lift (Violation.require ((n * (k.shape.1 * k.shape.2)) % Nat.pow 2 64 < Nat.pow 2 60)
    "capacity overflow")
  let tensors ← (tabulateCells k mesh order).mapError (Failure.error ∘ AssemblyError.tabulation)
  let values ← Failure.lift
    ((List.range n).zip tensors.toList |>.foldlM (addElement a test trial) a.values)
  return { a with values }

/-- The global matrix of a kernel on the pattern of the spaces, the cells tabulated in the order
`order`. -/
def assemble {ρ : Type} [RealScalar ρ] (mesh : Mesh ρ) (test trial : FunctionSpace)
    (k : ElementKernel ρ) (order : List Nat := List.range mesh.numCells) :
    Except (Failure AssemblyError) (Csr ρ) := do
  let p ← Failure.lift (assemblePattern test trial)
  assembleInto (Csr.zeros p) mesh test trial k order

end MixedFem
