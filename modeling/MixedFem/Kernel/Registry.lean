import MixedFem.Kernel.Elasticity
import MixedFem.Quote

/-!
# Registries of element kernels

* `FormId` : the name of a weak form; `FormId.debugText` quotes it with escapes;
* `RegistryError` : a form registered twice, or asked for but never registered;
* `KernelRegistry` : kernels by form; `insert` refuses a form that is already present, `get`
  one that is absent; `formIds` lists the forms in increasing order;
* `mixedElasticityRegistry` : the five forms of mixed plane-stress elasticity, `a00` (stress
  mass), `a01` (strain–stress), `a10` (stress divergence), `a` (displacement stiffness) and
  `a_condensed` (the condensed mixed form).
-/

namespace MixedFem

/-- The name of a weak form. -/
structure FormId where
  name : String
  deriving BEq, Inhabited

/-- `FormId("name")`. -/
def FormId.debugText (id : FormId) : String := "FormId(" ++ debugString id.name ++ ")"

/-- Why a registry refused a request. -/
inductive RegistryError where
  | duplicateForm (id : FormId)
  | unknownForm (id : FormId)

/-- The text of a registry error. -/
def RegistryError.message : RegistryError → String
  | .duplicateForm id => s!"a kernel for form \"{id.name}\" is already registered"
  | .unknownForm id => s!"no kernel registered for form \"{id.name}\""

/-- Element kernels by form. -/
structure KernelRegistry (ρ : Type) where
  kernels : List (FormId × ElementKernel ρ)

namespace KernelRegistry

variable {ρ : Type}

/-- The registry without forms. -/
def empty : KernelRegistry ρ := ⟨[]⟩

/-- Whether a kernel is registered for the form. -/
def contains (r : KernelRegistry ρ) (id : FormId) : Bool := r.kernels.any (·.1 == id)

/-- Registers a kernel for a form that has none yet. -/
def insert (r : KernelRegistry ρ) (id : FormId) (k : ElementKernel ρ) : Except RegistryError (KernelRegistry ρ) :=
  if r.contains id then .error (.duplicateForm id) else .ok ⟨r.kernels ++ [(id, k)]⟩

/-- The kernel of a form. -/
def get (r : KernelRegistry ρ) (id : FormId) : Except RegistryError (ElementKernel ρ) :=
  match r.kernels.find? (·.1 == id) with
  | some (_, k) => .ok k
  | none => .error (.unknownForm id)

/-- The number of registered forms. -/
def size (r : KernelRegistry ρ) : Nat := r.kernels.length

/-- Whether no form is registered. -/
def isEmpty (r : KernelRegistry ρ) : Bool := r.kernels.isEmpty

/-- The registered forms in increasing order of name. -/
def formIds (r : KernelRegistry ρ) : List FormId :=
  (r.kernels.map (·.1)).mergeSort fun a b => decide (a.name ≤ b.name)

/-- `KernelRegistry { forms: [FormId("a"), …] }`. -/
def debugText (r : KernelRegistry ρ) : String :=
  "KernelRegistry \x7b forms: [" ++ ", ".intercalate (r.formIds.map FormId.debugText) ++ "] \x7d"

end KernelRegistry

/-- The forms of mixed plane-stress elasticity for a material. -/
def mixedElasticityRegistry {ρ : Type} [RealScalar ρ] (m : PlaneStress ρ) :
    Except CondensationError (KernelRegistry ρ) := do
  let condensed ← condensedElasticity {} m
  return ⟨[(⟨"a00"⟩, stressMass), (⟨"a01"⟩, strainStress m), (⟨"a10"⟩, stressDivergence),
    (⟨"a"⟩, displacementStiffness m), (⟨"a_condensed"⟩, condensed)]⟩

end MixedFem
