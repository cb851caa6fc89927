import MixedFem.Report

/-!
# Assembly of registered forms

`assembleForm registry id mesh test trial` looks up the kernel of the form `id` and assembles it
on the pattern of the spaces; an assembly error is reported after the context
`failed to assemble form "id"`.
-/

namespace MixedFem

/-- Maps the reported error of a failure, keeping broken preconditions. -/
def Failure.mapReport {ε : Type} (f : ε → Report) : Failure ε → Failure Report
  | .violation v => .violation v
  | .error e => .error (f e)

/-- The global matrix of a registered form. -/
def assembleForm {ρ : Type} [RealScalar ρ] (registry : KernelRegistry ρ) (id : FormId) (mesh : Mesh ρ)
    (test trial : FunctionSpace) : Except (Failure Report) (Csr ρ) := do
  let k ← (registry.get id).mapError (Failure.error ∘ Report.ofRegistry)
  (assemble mesh test trial k).mapError
    (Failure.mapReport fun e => (Report.ofAssembly e).context s!"failed to assemble form \"{id.name}\"")

end MixedFem
