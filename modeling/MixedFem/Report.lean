import MixedFem.Kernel.Registry
import MixedFem.Assembly.Matrix
import MixedFem.Sparse.Cg

/-!
# Error reports

A report is a chain of error texts, outermost first: each layer of a computation that fails may
put a sentence of context in front of the errors it passes on. `Report.text` joins them with
`": "`, and `Report.describe` sets them out over several lines. The report also keeps the
innermost error that has a type of its own (`Cause`), or `Cause.message` when the chain is only
text.
-/

namespace MixedFem

/-- The innermost typed error of a report. -/
inductive Cause where
  /-- The report is only text. -/
  | message
  | registry (e : RegistryError)
  | assembly (e : AssemblyError)
  | solve (e : SolveError)

/-- A chain of error texts, outermost first, with its innermost typed error. -/
structure Report where
  messages : List String
  cause : Cause

namespace Report

/-- A report of a single text. -/
def ofMessage (m : String) : Report := ⟨[m], .message⟩

/-- The texts of the chain joined by `": "`. -/
def text (r : Report) : String := ": ".intercalate r.messages

/-- The report with a sentence of context in front. -/
def context (m : String) (r : Report) : Report := { r with messages := m :: r.messages }

/-- The report over several lines: the outermost text, then under `Caused by:` the texts it
wraps, indented by four, and numbered from zero when there is more than one. -/
def describe (r : Report) : String :=
  match r.messages with
  | [] => ""
  | [m] => m
  | [m, c] => m ++ "\n\nCaused by:\n    " ++ c
  | m :: cs =>
      m ++ "\n\nCaused by:" ++ String.join ((List.range cs.length).zip cs |>.map fun (i, c) =>
        "\n" ++ String.ofList (List.replicate (4 - min 4 (toString i).length) ' ') ++ toString i ++ ": " ++ c)

/-- A registry error as a report. -/
def ofRegistry (e : RegistryError) : Report := ⟨[e.message], .registry e⟩

/-- An assembly error as a report. -/
def ofAssembly (e : AssemblyError) : Report := ⟨e.causes, .assembly e⟩

/-- A failed solve as a report. -/
def ofSolve (e : SolveError) : Report := ⟨[e.message], .solve e⟩

end Report

/-- Checks a condition, or fails with a report of the given text. -/
def ensure (c : Bool) (m : String) : Except (Failure Report) Unit :=
  if c then .ok () else .error (.error (.ofMessage m))

end MixedFem
