import MixedFem.Assembly.Form
import MixedFem.Assembly.Facet
import MixedFem.Sparse.Dirichlet
import MixedFem.Mesh.Grid
import MixedFem.Mesh.Markers
import MixedFem.Mesh.Tags
import MixedFem.Evaluate
import MixedFem.Parameters.Basic
import MixedFem.Decimal.Text

/-!
# Cook's membrane

A sloped plane-stress cantilever, clamped at `x = 0` and loaded by a uniform traction on its free
end at `x = 48`, discretized by the mixed stress–displacement formulation. The stresses are
eliminated cell by cell (the condensed form `a_condensed`), and the condensed matrix is compared
with the pure displacement matrix `a`.

* `CookConfig` : material, traction, mesh resolution and solver settings, with defaults
  `E = 1`, `ν = 1/3`, traction `(0, 1/16)`, 16 cells per side, tolerance `10⁻¹⁰` and at most
  20000 iterations;
* `CookConfig.validate` : `E > 0`, `-1 < ν < 1/2`, at least one cell per side, positive tolerance;
* `CookConfig.toParameters`, `CookConfig.fromParameters` : the parameter layout, material and
  load at the top level and solver settings in a nested `solver` collection; absent parameters
  keep their defaults and a negative count reads as zero;
* `solveCook` : assembles both forms, loads the free end, clamps the fixed end, and solves
  `-A u = -b` (the condensed matrix is negative definite) by Jacobi-preconditioned conjugate
  gradients from zero.
-/

namespace MixedFem

/-- The settings of a Cook's membrane computation. Counts are machine-sized (below `2^64`). -/
structure CookConfig where
  young : Float
  poisson : Float
  traction : Float × Float
  cellsPerSide : Nat
  cgTolerance : Float
  cgMaxIter : Nat
  monitorConvergence : Bool

namespace CookConfig

/-- The default settings. -/
def default : CookConfig := ⟨1.0, 1.0 / 3.0, (0.0, 1.0 / 16.0), 16, 1e-10, 20000, false⟩

/-- Field-by-field equality; reals are compared as floats. -/
def equal (a b : CookConfig) : Bool :=
  a.young == b.young && a.poisson == b.poisson && a.traction.1 == b.traction.1 &&
    a.traction.2 == b.traction.2 && a.cellsPerSide == b.cellsPerSide &&
    a.cgTolerance == b.cgTolerance && a.cgMaxIter == b.cgMaxIter &&
    a.monitorConvergence == b.monitorConvergence

/-- A float as written in messages. -/
def shown (x : Float) : String := NumberStyle.message.writeFloat x

/-- The first violated requirement on the settings, if any. -/
def validate (c : CookConfig) : Except String Unit := do
  if !(c.young > 0.0) then throw s!"Young's modulus must be positive, got {shown c.young}"
  if !(c.poisson > -1.0 && c.poisson < 0.5) then
    throw s!"Poisson ratio must be in (-1, 0.5), got {shown c.poisson}"
  if c.cellsPerSide = 0 then throw "Mesh must have at least one cell per side"
  if !(c.cgTolerance > 0.0) then throw "CG tolerance must be positive"

/-- A machine-sized count as a signed 64-bit integer, wrapping past `2^63 - 1`. -/
def signedCount (n : Nat) : Int := if n < Nat.pow 2 63 then n else (n : Int) - Nat.pow 2 64

/-- A signed 64-bit integer as a count; a negative one reads as zero. -/
def countOf (i : Int) : Nat := i.toNat

/-- The parameter layout of the settings. -/
def toParameters (c : CookConfig) : Parameters :=
  let solver := (((Parameters.new "solver").set "tolerance" (.real c.cgTolerance)).set "max_iter"
    (.int (signedCount c.cgMaxIter))).set "monitor_convergence" (.bool c.monitorConvergence)
  (((((((Parameters.new "cook_membrane").set "young" (.real c.young)).set "poisson" (.real c.poisson)).set
    "traction_x" (.real c.traction.1)).set "traction_y" (.real c.traction.2)).set "cells_per_side"
    (.int (signedCount c.cellsPerSide))).set "solver" (.ofParameters solver))

/-- `read key` if the key is present, `current` otherwise. -/
def readIfPresent {α : Type} (p : Parameters) (key : String) (read : Parameters → String → Except ParameterError α)
    (current : α) : Except ParameterError α :=
  if p.contains key then read p key else .ok current

/-- The settings stored in parameters; absent ones keep their defaults. -/
def fromParameters (p : Parameters) : Except ParameterError CookConfig := do
  let d := default
  let young ← readIfPresent p "young" Parameters.getReal d.young
  let poisson ← readIfPresent p "poisson" Parameters.getReal d.poisson
  let tx ← readIfPresent p "traction_x" Parameters.getReal d.traction.1
  let ty ← readIfPresent p "traction_y" Parameters.getReal d.traction.2
  let cells ← readIfPresent p "cells_per_side" Parameters.getInt (signedCount d.cellsPerSide)
  let base : CookConfig := { d with young, poisson, traction := (tx, ty), cellsPerSide := countOf cells }
  if !p.contains "solver" then return base
  let s ← p.nested "solver"
  let tol ← readIfPresent s "tolerance" Parameters.getReal d.cgTolerance
  let maxIter ← readIfPresent s "max_iter" Parameters.getInt (signedCount d.cgMaxIter)
  let monitor ← readIfPresent s "monitor_convergence" Parameters.getBool d.monitorConvergence
  return { base with cgTolerance := tol, cgMaxIter := countOf maxIter, monitorConvergence := monitor }

end CookConfig

/-- `|a - b| ≤ 10⁻⁸ + 10⁻⁵ |b|`. -/
def isClose (a b : Float) : Bool := (a - b).abs ≤ 1e-8 + 1e-5 * b.abs

/-- The point at which the tip displacement is measured. -/
def tipPoint : Vec2 Float := ⟨48.0, 52.0⟩

/-- The marker of the loaded facets. -/
def freeEndMarker : Int32 := 1

/-- The result of a Cook's membrane computation. -/
structure CookSolution where
  mesh : Mesh Float
  space : VectorP2Space
  /-- The condensed matrix before boundary conditions. -/
  condensedMatrix : Csr Float
  /-- The pure displacement matrix before boundary conditions. -/
  displacementMatrix : Csr Float
  displacement : Array Float
  cgIterations : Nat

namespace CookSolution

/-- The displacement at a point, if it lies in the mesh. -/
def displacementAt (s : CookSolution) (x : Vec2 Float) : Except Violation (Option (Vec2 Float)) :=
  do (← FunctionEvaluator.make s.mesh s.space).evaluate s.displacement x

/-- The Frobenius norm of the difference of the two matrices. -/
def matrixDifferenceNorm (s : CookSolution) : Except Violation Float :=
  s.condensedMatrix.frobeniusDistance s.displacementMatrix

end CookSolution

/-- Solves Cook's membrane problem with the condensed mixed formulation. The iterations are
bounded by the settings. -/
def solveCook (c : CookConfig) : Except (Failure Report) CookSolution := do
  c.validate.mapError (Failure.error ∘ Report.ofMessage)
  let mesh : Mesh Float ← Failure.lift (Mesh.cook c.cellsPerSide)
  let topology := Topology.ofMesh mesh
  let space := VectorP2Space.make mesh topology
  let material ← Failure.lift (PlaneStress.make c.young c.poisson)
  let registry ← (mixedElasticityRegistry material).mapError fun e => .error (.ofMessage e.message)
  let sp := FunctionSpace.vectorP2 space
  let condensed ← assembleForm registry ⟨"a_condensed"⟩ mesh sp sp
  let displacementMatrix ← assembleForm registry ⟨"a"⟩ mesh sp sp
  let freeEnd := locateEntities mesh topology .facet (fun x => isClose x.x 48.0) true
  let tags := MeshTags.new .facet freeEnd.toList freeEndMarker
  let clamped := locateEntities mesh topology .facet (fun x => isClose x.x 0.0) true
  ensure (!tags.indices.isEmpty) "Found no facets on the free end"
  ensure (!clamped.isEmpty) "Found no facets on the clamped end"
  let rhs ← Failure.lift (assembleFacetVector mesh topology space (tags.find freeEndMarker)
    fun _ => ⟨c.traction.1, c.traction.2⟩)
  let dofs ← Failure.lift (locateDofs space clamped.toList)
  let system ← Failure.lift (condensed.neg.constrain dofs.toList)
  let rhs ← Failure.lift (constrainRhs rhs dofs.toList)
  let pc ← Failure.lift (Preconditioner.ofCsr system)
  let n := 2 * space.numNodes
  let (u, iterations) ← (conjugateGradient (.sparse system) pc c.cgTolerance (some c.cgMaxIter) 0 rhs
      (Array.replicate n 0.0)).mapError
    (Failure.mapReport fun e => (Report.ofMessage e.message).context "failed to solve condensed displacement system")
  return ⟨mesh, space, condensed, displacementMatrix, u, iterations⟩

end MixedFem
