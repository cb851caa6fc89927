import MixedFem.Cook
import MixedFem.Parameters.Read
import MixedFem.Decimal.Rounded

/-!
# Command line: Cook's membrane

`main [parameters.json]` takes the settings from a parameter file, or else takes the default
settings and prints them as a parameter file to start from. It solves Cook's membrane with the
condensed mixed formulation and prints the number of CG iterations, the vertical displacement at
the tip to six places, and the Frobenius distance between the condensed and the displacement
matrix beside the norm of the latter, both to four significant digits.

A failure is written to the error stream after `Error: ` with exit code 1; a broken
precondition is written as a panic with exit code 101.
-/

namespace MixedFem.CookCommand

/-- Why the command stops without a result. -/
inductive Stop where
  /-- The computation failed with a report. -/
  | report (r : Report)
  /-- A precondition of an operation does not hold. -/
  | violation (v : Violation)

/-- A failure of the solver as a reason to stop. -/
def Stop.ofFailure : Failure Report → Stop
  | .violation v => .violation v
  | .error r => .report r

/-- The report of a parameter file that could not be read. -/
def loadFailure (path : String) (e : ParameterError) : Stop :=
  .report ⟨("failed to load parameters from " ++ path) :: e.chain, .message⟩

/-- The settings in the text of a parameter file. -/
def settingsOf (path text : String) : Except Stop CookConfig := do
  let p ← (Parameters.fromJsonText text).mapError (loadFailure path)
  (CookConfig.fromParameters p).mapError fun e => .report ⟨e.chain, .message⟩

/-- The lines printed for a solution: the iteration count, the tip displacement and the
matrix distance. -/
def summary (s : CookSolution) (tip : Vec2 Float) (distance norm : Float) : List String :=
  let st := NumberStyle.message
  ["CG iterations: " ++ toString s.cgIterations,
    "Vertical displacement at (" ++ st.writeFloat tipPoint.x ++ ", " ++ st.writeFloat tipPoint.y ++
      "): " ++ st.writeFixed 6 tip.y ++ " (reference value 23.95)",
    "|| A - A_cond ||_F = " ++ st.writeExponent 3 distance ++ " (|| A ||_F = " ++
      st.writeExponent 3 norm ++ ")"]

/-- Solves with the given settings and measures the solution. -/
def run (c : CookConfig) : Except Stop (List String) := do
  let s ← (solveCook c).mapError Stop.ofFailure
  let tip ← match s.displacementAt tipPoint with
    | .ok (some t) => pure t
    | .ok none => throw (.report (.ofMessage "Tip point lies outside the mesh"))
    | .error v => throw (.violation v)
  let distance ← s.matrixDifferenceNorm.mapError .violation
  return summary s tip distance s.displacementMatrix.frobeniusNorm

/-- The settings: from the file named by the first argument, or the defaults, which are then
printed. -/
def settings (args : List String) : IO (Except Stop CookConfig) := do
  match args.head? with
  | some path =>
      try
        let text ← IO.FS.readFile path
        pure (settingsOf path text)
      catch e => pure (.error (loadFailure path (.io (toString e))))
  | none =>
      IO.println CookConfig.default.toParameters.toJsonText
      pure (.ok CookConfig.default)

end MixedFem.CookCommand

open MixedFem MixedFem.CookCommand in
/-- Runs the command and returns its exit code. -/
def main (args : List String) : IO UInt32 := do
  match (← settings args) >>= run with
  | .ok lines =>
      lines.forM IO.println
      pure 0
  | .error (.report r) =>
      IO.eprintln ("Error: " ++ r.describe)
      pure 1
  | .error (.violation v) =>
      IO.eprintln ("thread \x27main\x27 panicked:\n" ++ v.message)
      pure 101
