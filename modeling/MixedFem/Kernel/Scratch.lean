import MixedFem.Kernel.Basic

/-!
# Element tensors written into buffers

The program's element tensors are written into output buffers, and the condensed kernel keeps one
scratch buffer per block, resized in place and reused from call to call.

* `TensorProvider ρ` : a tensor of fixed shape written cell by cell into a buffer: the buffer
  after the call, and whether it succeeded; `TensorProvider.writeInto` : the tensor left in the
  buffer on success; `TensorProvider.tabulate` : the tensor written into zeros of its shape;
* `TensorProvider.ofKernel` : an element kernel as a provider, writing its tensor over the whole
  buffer;
* `CondensationScratch` : the three scratch blocks, empty at first;
* `CondensedKernel` : the kernel of `-A_pi A_ii⁻¹ A_ip` over three providers, with its settings;
  `CondensedKernel.new` checks the shapes in the order `A_ii`, `A_ip`, `A_pi`;
* `CondensedKernel.tabulateInto` : one call from a scratch: the output shape is checked, the three
  blocks are resized to `n_i × n_i`, `n_i × n_p`, `n_p × n_i` and written in that order, the first
  failure stopping the call, and the blocks are condensed into the output;
  `CondensedKernel.scratchAfter` : the scratch after a sequence of calls.
-/

namespace MixedFem

/-- An element tensor of fixed shape, written into a buffer: the buffer after the call, and
whether the call succeeded. -/
structure TensorProvider (ρ : Type) where
  shape : Nat × Nat
  tabulateInto : CellData ρ → Matrix ρ → Matrix ρ × Except TabulationError Unit

namespace TensorProvider

variable {ρ : Type} [RealScalar ρ]

/-- The tensor left in the buffer `b` by a call that succeeds. -/
def writeInto (p : TensorProvider ρ) (cell : CellData ρ) (b : Matrix ρ) :
    Except TabulationError (Matrix ρ) :=
  let r := p.tabulateInto cell b
  r.2.map fun _ => r.1

/-- The tensor on a cell, written into zeros of the provider's shape. -/
def tabulate (p : TensorProvider ρ) (cell : CellData ρ) : Except TabulationError (Matrix ρ) :=
  p.writeInto cell (Matrix.zeros p.shape.1 p.shape.2)

/-- An element kernel as a provider: a buffer of the kernel's shape is overwritten by the tensor,
and left as it is on failure; a buffer of another shape is refused. -/
def ofKernel (k : ElementKernel ρ) : TensorProvider ρ where
  shape := k.shape
  tabulateInto cell b :=
    if b.shape = k.shape then
      match k.compute cell with
      | .ok m => (m, .ok ())
      | .error e => (b, .error e)
    else (b, .error (.outputShape k.shape b.shape))

end TensorProvider

/-- The scratch blocks of a condensed kernel. -/
structure CondensationScratch (ρ : Type) where
  a00 : Matrix ρ := ⟨0, 0, #[]⟩
  a01 : Matrix ρ := ⟨0, 0, #[]⟩
  a10 : Matrix ρ := ⟨0, 0, #[]⟩

/-- The kernel of `-A_pi A_ii⁻¹ A_ip` over three providers of blocks. -/
structure CondensedKernel (ρ : Type) where
  a00 : TensorProvider ρ
  a01 : TensorProvider ρ
  a10 : TensorProvider ρ
  settings : CondensationSettings ρ := {}

namespace CondensedKernel

variable {ρ : Type} [RealScalar ρ]

/-- The kernel, if `A_ii` is square and `A_ip`, `A_pi` fit it, checked in that order. -/
def new (a00 a01 a10 : TensorProvider ρ) : Except CondensationError (CondensedKernel ρ) := do
  let (ni, c00) := a00.shape
  let (r01, np) := a01.shape
  CondensationSettings.checkShape .internal (ni, ni) (ni, c00)
  CondensationSettings.checkShape .internalPrimary (ni, np) (r01, np)
  CondensationSettings.checkShape .primaryInternal (np, ni) a10.shape
  return { a00, a01, a10 }

/-- The kernel with other settings. -/
def withSettings (k : CondensedKernel ρ) (settings : CondensationSettings ρ) : CondensedKernel ρ :=
  { k with settings }

/-- The shape `n_p × n_p` of the condensed tensor. -/
def shape (k : CondensedKernel ρ) : Nat × Nat := (k.a01.shape.2, k.a01.shape.2)

/-- One call into an output of shape `output`, from the scratch `s`: the result and the scratch
after the call. -/
def tabulateInto (k : CondensedKernel ρ) (s : CondensationScratch ρ) (cell : CellData ρ)
    (output : Nat × Nat) : Except TabulationError (Matrix ρ) × CondensationScratch ρ :=
  if output ≠ k.shape then (.error (.outputShape k.shape output), s) else
  let (ni, np) := k.a01.shape
  let s₁ : CondensationScratch ρ := ⟨s.a00.resize ni ni Scalar.zero,
    s.a01.resize ni np Scalar.zero, s.a10.resize np ni Scalar.zero⟩
  match k.a00.tabulateInto cell s₁.a00 with
  | (b00, .error e) => (.error e, { s₁ with a00 := b00 })
  | (b00, .ok ()) =>
  match k.a01.tabulateInto cell s₁.a01 with
  | (b01, .error e) => (.error e, { s₁ with a00 := b00, a01 := b01 })
  | (b01, .ok ()) =>
  match k.a10.tabulateInto cell s₁.a10 with
  | (b10, .error e) => (.error e, ⟨b00, b01, b10⟩)
  | (b10, .ok ()) =>
    ((k.settings.condenseInto output b00 b01 b10).mapError
      fun e => .condensation (e.withElement cell.index), ⟨b00, b01, b10⟩)

/-- The scratch after a sequence of calls of a new kernel, each a cell and an output shape. -/
def scratchAfter (k : CondensedKernel ρ) (calls : List (CellData ρ × (Nat × Nat))) :
    CondensationScratch ρ :=
  calls.foldl (fun s call => (k.tabulateInto s call.1 call.2).2) {}

end CondensedKernel

end MixedFem
