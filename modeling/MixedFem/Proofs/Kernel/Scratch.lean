import MixedFem.Kernel.Scratch
import MixedFem.Proofs.CondensationOutcome
import MixedFem.Proofs.Kernel.Tensors
import MixedFem.Proofs.Loop

/-!
# Condensed kernels with scratch buffers

A condensed kernel keeps its three blocks in scratch buffers that outlive a call: at each call
they are resized to the blocks' shapes and handed to the block providers. A provider that
overwrites the whole buffer it is given leaves nothing of an earlier call, failed or not, so a
call from any scratch gives what a call that tabulates the three blocks afresh gives, and the
shapes checked at construction are the shapes the condensation meets: it can only fail
numerically.

* `TensorProvider.Overwrites` : on a buffer of its shape a provider succeeds or fails as on zeros,
  and leaves a tensor of its shape; `TensorProvider.ofKernel_overwrites` : so does an element
  kernel whose tensors have its shape, as the tensors of mixed elasticity do;
* `CondensedKernel.new_eq` : construction checks `A_ii`, `A_ip`, `A_pi` in this order and reports
  the first mismatch; `CondensedKernel.Fits` : the shapes it checks;
* `CondensedKernel.freshTabulate` : a call that tabulates the three blocks afresh;
  `CondensedKernel.tabulateInto_fst` : a call from any scratch gives it;
  `CondensedKernel.freshTabulate_ofKernel` : over element kernels it is the tensor of
  `ElementKernel.condensed`; hence `condensedElasticity_eq_condensedKernel` : the kernel the
  registry holds for the condensed form is the program's condensed kernel, scratch and all;
* `CondensationSettings.condenseInto_error_of_fits` : blocks of fitting shapes are condensed or
  fail on a numerical singularity.
-/

namespace MixedFem

theorem Except.ok_bind {ε α β : Type} (a : α) (f : α → Except ε β) : (Except.ok a >>= f) = f a :=
  rfl

theorem Except.bind_eq_error {ε α β : Type} {x : Except ε α} {f : α → Except ε β} {e : ε}
    (h : (x >>= f) = .error e) : x = .error e ∨ ∃ a, x = .ok a ∧ f a = .error e := by
  cases x with
  | error e' => exact Or.inl (by simpa [bind, Except.bind] using h)
  | ok a => exact Or.inr ⟨a, rfl, h⟩

@[simp] theorem Matrix.shape_zeros {α : Type} [Scalar α] (r c : Nat) :
    (Matrix.zeros (α := α) r c).shape = (r, c) :=
  rfl

@[simp] theorem Matrix.shape_resize {α : Type} [Scalar α] (m : Matrix α) (r c : Nat) (v : α) :
    (m.resize r c v).shape = (r, c) :=
  rfl

namespace CondensationSettings

section Failures

variable {α ρ : Type} [Scalar α] [RealScalar ρ] [Magnitude α ρ]

omit [Scalar α] in
/-- The pivot check fails only on a numerical singularity. -/
theorem checkPivots_error {pivots : Array α} {tol : ρ} {e : CondensationError}
    (h : checkPivots pivots tol = .error e) : ∃ k, e = ⟨.numericalSingularity k, none⟩ := by
  unfold checkPivots at h
  dsimp only at h
  simp only [Std.Legacy.Range.forIn'_eq_forIn'_range'] at h
  rcases Except.bind_eq_error h with h | ⟨r, -, h⟩
  · -- the loop over the pivots throws a zero or a non-finite pivot
    refine forIn'_except_error (fun e => ∃ k, e = ⟨.numericalSingularity k, none⟩) _ _ _ ?_ e h
    intro c hc s e' hs
    split at hs
    · exact ⟨_, (Except.error.inj hs).symm⟩
    · split at hs
      · exact ⟨_, (Except.error.inj hs).symm⟩
      · cases hs
  · -- the ratio of the extreme pivots
    split at h
    · split at h
      · exact ⟨_, (Except.error.inj h).symm⟩
      · cases h
    · cases h

/-- A condensation of blocks of fitting shapes into an output of fitting shape fails only on a
numerical singularity: the shape checks pass. -/
theorem condenseInto_error_of_fits (s : CondensationSettings ρ) {aii aip api : Matrix α}
    {ni np : Nat} (hii : aii.shape = (ni, ni)) (hip : aip.shape = (ni, np))
    (hpi : api.shape = (np, ni)) {e : CondensationError}
    (h : s.condenseInto (np, np) aii aip api = .error e) :
    ∃ k, e = ⟨.numericalSingularity k, none⟩ := by
  simp only [Matrix.shape, Prod.mk.injEq] at hii hip hpi
  unfold condenseInto at h
  simp only [Matrix.shape, hii.1, hii.2, hip.1, hip.2, hpi.1, hpi.2, checkShape_self,
    Except.ok_bind] at h
  -- past the shapes every failure thrown is numerical, the pivot check's included
  have hthrow : ∀ {β : Type} (k : Singularity) (f : Unit → Except CondensationError β),
      (throw ⟨.numericalSingularity k, none⟩ >>= f) = .error e →
        ∃ k, e = ⟨.numericalSingularity k, none⟩ :=
    fun k _ hk => ⟨k, (Except.error.inj hk).symm⟩
  split at h
  · cases h
  split at h
  · exact hthrow _ _ h
  split at h
  · exact hthrow _ _ h
  · rcases Except.bind_eq_error h with h | ⟨_, -, h⟩
    · exact checkPivots_error h
    split at h
    · exact ⟨_, (Except.error.inj h).symm⟩
    · split at h
      · cases h
      · exact ⟨_, (Except.error.inj h).symm⟩

end Failures

end CondensationSettings

namespace TensorProvider

variable {ρ : Type} [RealScalar ρ]

/-- The provider overwrites the whole buffer it is given: on a buffer of its shape a call
succeeds or fails as on zeros and leaves the same tensor, and the tensors it leaves have its
shape. -/
structure Overwrites (p : TensorProvider ρ) : Prop where
  writeInto_eq : ∀ cell b, b.shape = p.shape → p.writeInto cell b = p.tabulate cell
  tabulate_shape : ∀ cell m, p.tabulate cell = .ok m → m.shape = p.shape

variable {p : TensorProvider ρ}

/-- A call of an overwriting provider into a buffer of its shape fails with the error of
`tabulate`, or leaves the tensor of `tabulate`. -/
theorem Overwrites.tabulateInto_cases (hp : p.Overwrites) {b : Matrix ρ} (hb : b.shape = p.shape)
    (cell : CellData ρ) :
    (∃ b' e, p.tabulateInto cell b = (b', .error e) ∧ p.tabulate cell = .error e) ∨
      ∃ m, p.tabulateInto cell b = (m, .ok ()) ∧ p.tabulate cell = .ok m ∧ m.shape = p.shape := by
  have h := hp.writeInto_eq cell b hb
  rcases hc : p.tabulateInto cell b with ⟨b', e | u⟩
  · refine .inl ⟨b', e, rfl, ?_⟩
    rw [← h, writeInto, hc]
    rfl
  · have ht : p.tabulate cell = .ok b' := by
      rw [← h, writeInto, hc]
      rfl
    exact .inr ⟨b', rfl, ht, hp.tabulate_shape cell b' ht⟩

omit [RealScalar ρ] in
@[simp] theorem shape_ofKernel (k : ElementKernel ρ) : (ofKernel k).shape = k.shape :=
  rfl

omit [RealScalar ρ] in
/-- On a buffer of its shape, a kernel's provider leaves the kernel's tensor. -/
theorem ofKernel_writeInto (k : ElementKernel ρ) (cell : CellData ρ) {b : Matrix ρ}
    (hb : b.shape = k.shape) : (ofKernel k).writeInto cell b = k.compute cell := by
  simp only [writeInto, ofKernel, if_pos hb]
  cases k.compute cell <;> rfl

theorem ofKernel_tabulate (k : ElementKernel ρ) (cell : CellData ρ) :
    (ofKernel k).tabulate cell = k.compute cell :=
  ofKernel_writeInto k cell (Matrix.shape_zeros _ _)

/-- A kernel whose tensors have its shape overwrites its buffer. -/
theorem ofKernel_overwrites (k : ElementKernel ρ)
    (hk : ∀ cell m, k.compute cell = .ok m → m.shape = k.shape) : (ofKernel k).Overwrites where
  writeInto_eq cell _ hb := by rw [ofKernel_writeInto k cell hb, ofKernel_tabulate]
  tabulate_shape cell m h := hk cell m (by rwa [ofKernel_tabulate] at h)

end TensorProvider

namespace CondensedKernel

variable {ρ : Type}

/-- The block shapes fit: with `A_ip` of shape `n_i × n_p`, `A_ii` is `n_i × n_i` and `A_pi` is
`n_p × n_i`. -/
structure Fits (k : CondensedKernel ρ) : Prop where
  a00_shape : k.a00.shape = (k.a01.shape.1, k.a01.shape.1)
  a10_shape : k.a10.shape = (k.a01.shape.2, k.a01.shape.1)

@[simp] theorem withSettings_a00 (k : CondensedKernel ρ) (st : CondensationSettings ρ) :
    (k.withSettings st).a00 = k.a00 :=
  rfl

@[simp] theorem withSettings_a01 (k : CondensedKernel ρ) (st : CondensationSettings ρ) :
    (k.withSettings st).a01 = k.a01 :=
  rfl

@[simp] theorem withSettings_a10 (k : CondensedKernel ρ) (st : CondensationSettings ρ) :
    (k.withSettings st).a10 = k.a10 :=
  rfl

@[simp] theorem withSettings_settings (k : CondensedKernel ρ) (st : CondensationSettings ρ) :
    (k.withSettings st).settings = st :=
  rfl

theorem Fits.withSettings {k : CondensedKernel ρ} (hk : k.Fits) (st : CondensationSettings ρ) :
    (k.withSettings st).Fits :=
  ⟨hk.a00_shape, hk.a10_shape⟩

/-- Construction checks the shapes of `A_ii`, `A_ip` and `A_pi` in this order against those that
`A_ii`'s rows and `A_ip`'s columns imply, and reports the first mismatch. -/
theorem new_eq (a00 a01 a10 : TensorProvider ρ) :
    new a00 a01 a10 =
      if (a00.shape.1, a00.shape.1) ≠ a00.shape then
        .error ⟨.contractViolation .internal (a00.shape.1, a00.shape.1) a00.shape, none⟩
      else if (a00.shape.1, a01.shape.2) ≠ a01.shape then
        .error ⟨.contractViolation .internalPrimary (a00.shape.1, a01.shape.2) a01.shape, none⟩
      else if (a01.shape.2, a00.shape.1) ≠ a10.shape then
        .error ⟨.contractViolation .primaryInternal (a01.shape.2, a00.shape.1) a10.shape, none⟩
      else .ok { a00, a01, a10 } := by
  obtain ⟨⟨ni, c00⟩, t00⟩ := a00
  obtain ⟨⟨r01, np⟩, t01⟩ := a01
  simp only [new, CondensationSettings.checkShape_bind]
  split_ifs <;> first | rfl | contradiction

/-- A kernel is constructed exactly from blocks that fit, and is then made of them. -/
theorem new_eq_ok {a00 a01 a10 : TensorProvider ρ} {k : CondensedKernel ρ} :
    new a00 a01 a10 = .ok k ↔ k = { a00, a01, a10 } ∧ k.Fits := by
  obtain ⟨⟨ni, c00⟩, t00⟩ := a00
  obtain ⟨⟨r01, np⟩, t01⟩ := a01
  rw [new_eq]
  constructor
  · intro h
    split_ifs at h with h00 h01 h10
    cases h
    simp only [ne_eq, Prod.mk.injEq, true_and, and_true, not_not] at h00 h01 h10
    subst h00 h01
    exact ⟨rfl, rfl, h10.symm⟩
  · rintro ⟨rfl, h00, h10⟩
    simp only [Prod.mk.injEq] at h00 h10
    obtain ⟨rfl, rfl⟩ := h00
    simp [h10]

variable [RealScalar ρ]

/-- A call that tabulates the three blocks afresh: the output shape is checked, the first block
that fails stops the call with its error, and the blocks are condensed, a failure naming the
cell's element. -/
def freshTabulate (k : CondensedKernel ρ) (cell : CellData ρ) (output : Nat × Nat) :
    Except TabulationError (Matrix ρ) :=
  if output ≠ k.shape then .error (.outputShape k.shape output) else do
    let m00 ← k.a00.tabulate cell
    let m01 ← k.a01.tabulate cell
    let m10 ← k.a10.tabulate cell
    (k.settings.condenseInto output m00 m01 m10).mapError
      fun e => .condensation (e.withElement cell.index)

section Refinement

variable {k : CondensedKernel ρ} (hk : k.Fits) (h00 : k.a00.Overwrites)
  (h01 : k.a01.Overwrites) (h10 : k.a10.Overwrites)
include hk h00 h01 h10

/-- A call from any scratch gives what a call that tabulates the blocks afresh gives: the
scratch is resized to the blocks' shapes and every block written over. -/
theorem tabulateInto_fst (s : CondensationScratch ρ) (cell : CellData ρ) (output : Nat × Nat) :
    (k.tabulateInto s cell output).1 = k.freshTabulate cell output := by
  unfold tabulateInto freshTabulate
  split_ifs with hout
  · rfl
  obtain ⟨s00, s10⟩ := hk
  rcases hs : k.a01.shape with ⟨ni, np⟩
  rw [hs] at s00 s10
  -- the three blocks in order, each failing with the error `tabulate` gives or written whole
  rcases h00.tabulateInto_cases (b := s.a00.resize ni ni Scalar.zero) (by simp [s00]) cell with
    ⟨b, e, h, ht⟩ | ⟨m00, h, ht, -⟩
  · simp only [h, ht]
    rfl
  rcases h01.tabulateInto_cases (b := s.a01.resize ni np Scalar.zero) (by simp [hs]) cell with
    ⟨b, e, h', ht'⟩ | ⟨m01, h', ht', -⟩
  · simp only [h, ht, h', ht']
    rfl
  rcases h10.tabulateInto_cases (b := s.a10.resize np ni Scalar.zero) (by simp [s10]) cell with
    ⟨b, e, h'', ht''⟩ | ⟨m10, h'', ht'', -⟩
  · simp only [h, ht, h', ht', h'', ht'']
    rfl
  · simp only [h, ht, h', ht', h'', ht'']
    rfl

/-- When the output has the kernel's shape and the three blocks tabulate, a fresh call condenses
them or fails on a numerical singularity of the cell's element, never on a shape. -/
theorem freshTabulate_error {cell : CellData ρ} {m00 m01 m10 : Matrix ρ}
    (t00 : k.a00.tabulate cell = .ok m00) (t01 : k.a01.tabulate cell = .ok m01)
    (t10 : k.a10.tabulate cell = .ok m10) {e : TabulationError}
    (h : k.freshTabulate cell k.shape = .error e) :
    ∃ kind, e = .condensation ⟨.numericalSingularity kind, some cell.index⟩ := by
  have s00 := h00.tabulate_shape cell m00 t00
  have s01 := h01.tabulate_shape cell m01 t01
  have s10 := h10.tabulate_shape cell m10 t10
  obtain ⟨hs00, hs10⟩ := hk
  rcases hs : k.a01.shape with ⟨ni, np⟩
  rw [hs] at hs00 hs10 s01
  rw [hs00] at s00
  rw [hs10] at s10
  have hshape : k.shape = (np, np) := by rw [shape, hs]
  simp only [freshTabulate, ne_eq, not_true_eq_false, if_false, t00, t01, t10, Except.ok_bind,
    hshape] at h
  rcases hc : k.settings.condenseInto (np, np) m00 m01 m10 with e' | m
  · -- the condensation failed: numerically, since the blocks have the checked shapes
    rw [hc] at h
    obtain ⟨kind, rfl⟩ := CondensationSettings.condenseInto_error_of_fits k.settings s00 s01 s10 hc
    exact ⟨kind, (Except.error.inj h).symm⟩
  · rw [hc] at h
    cases h

end Refinement

/-- The condensed kernel with its scratch refines the kernel that tabulates its blocks afresh.
Construction succeeds exactly on blocks of fitting shapes and otherwise reports the first that
does not fit. Over providers that overwrite their buffers, whatever the settings and whatever
scratch earlier calls left, a call gives the fresh tabulation, and once the output has the
kernel's shape and the blocks tabulate it fails only on a numerical singularity. -/
theorem tabulateInto_refines (a00 a01 a10 : TensorProvider ρ) :
    new a00 a01 a10 =
      (if (a00.shape.1, a00.shape.1) ≠ a00.shape then
        .error ⟨.contractViolation .internal (a00.shape.1, a00.shape.1) a00.shape, none⟩
      else if (a00.shape.1, a01.shape.2) ≠ a01.shape then
        .error ⟨.contractViolation .internalPrimary (a00.shape.1, a01.shape.2) a01.shape, none⟩
      else if (a01.shape.2, a00.shape.1) ≠ a10.shape then
        .error ⟨.contractViolation .primaryInternal (a01.shape.2, a00.shape.1) a10.shape, none⟩
      else .ok { a00, a01, a10 }) ∧
    (a00.Overwrites → a01.Overwrites → a10.Overwrites →
      ∀ k, new a00 a01 a10 = .ok k → ∀ (settings : CondensationSettings ρ)
        (s : CondensationScratch ρ) (cell : CellData ρ) (output : Nat × Nat),
        ((k.withSettings settings).tabulateInto s cell output).1 =
            (k.withSettings settings).freshTabulate cell output ∧
          ∀ m00 m01 m10 e, output = k.shape → a00.tabulate cell = .ok m00 →
            a01.tabulate cell = .ok m01 → a10.tabulate cell = .ok m10 →
            ((k.withSettings settings).tabulateInto s cell output).1 = .error e →
            ∃ kind, e = .condensation ⟨.numericalSingularity kind, some cell.index⟩) := by
  refine ⟨new_eq a00 a01 a10, fun h00 h01 h10 k hnew settings s cell output => ?_⟩
  obtain ⟨rfl, hk⟩ := new_eq_ok.1 hnew
  have hfits := hk.withSettings settings
  have hfst := tabulateInto_fst hfits h00 h01 h10 s cell output
  refine ⟨hfst, fun m00 m01 m10 e hout t00 t01 t10 he => ?_⟩
  subst hout
  rw [hfst] at he
  exact freshTabulate_error hfits h00 h01 h10 t00 t01 t10 he

/-- The condensed element kernel is the condensed kernel over its blocks as providers: both are
built on the same blocks, and a fresh call of the latter gives the tensor of the former into
every output. -/
theorem freshTabulate_ofKernel {settings : CondensationSettings ρ}
    {a00 a01 a10 k : ElementKernel ρ} (hk : ElementKernel.condensed settings a00 a01 a10 = .ok k) :
    ∃ ck, new (.ofKernel a00) (.ofKernel a01) (.ofKernel a10) = .ok ck ∧ ∀ cell output,
      (ck.withSettings settings).freshTabulate cell output = k.tabulateInto output cell := by
  obtain ⟨⟨ni, c00⟩, f00⟩ := a00
  obtain ⟨⟨r01, np⟩, f01⟩ := a01
  obtain ⟨s10, f10⟩ := a10
  -- the element kernel checks the shapes that the condensed kernel checks
  simp only [ElementKernel.condensed, CondensationSettings.checkShape_bind] at hk
  split_ifs at hk with h00 h01 h10
  cases hk
  simp only [Prod.mk.injEq, true_and, and_true] at h00 h01
  subst h00 h01 h10
  refine ⟨_, new_eq_ok.2 ⟨rfl, rfl, rfl⟩, fun cell output => ?_⟩
  unfold freshTabulate ElementKernel.tabulateInto
  by_cases hout : output = (np, np)
  · -- each block is tabulated at its own shape, and the blocks are condensed alike
    subst hout
    simp only [withSettings, shape, TensorProvider.shape_ofKernel, ne_eq, not_true_eq_false,
      if_false, if_true, TensorProvider.ofKernel_tabulate]
    rcases f00 cell with e | m00
    · rfl
    rcases f01 cell with e | m01
    · rfl
    rcases f10 cell with e | m10
    · rfl
    simp only [Except.ok_bind]
    rcases settings.condenseInto (np, np) m00 m01 m10 with e | m <;> rfl
  · simp only [withSettings, shape, TensorProvider.shape_ofKernel, ne_eq, hout,
      not_false_eq_true, if_true, if_false]

end CondensedKernel

section Elasticity

variable {K : Type} [Field K] [LinearOrder K]

/-- A kernel that fails where the cell's geometry fails, and elsewhere gives a tensor with entries
over its shape, gives tensors of its shape only. -/
theorem compute_shape_of_entries {k : ElementKernel (Exact K)}
    (hfail : ∀ cell e, cellGeometry cell = .error e → k.compute cell = .error e)
    (hentries : ∀ cell D it, cellGeometry cell = .ok (D, it) →
      ∃ M f, k.compute cell = .ok M ∧ Matrix.HasEntries k.shape.1 k.shape.2 f M)
    (cell : CellData (Exact K)) (M : Matrix (Exact K)) (h : k.compute cell = .ok M) :
    M.shape = k.shape := by
  rcases hg : cellGeometry cell with e | ⟨D, it⟩
  · rw [hfail cell e hg] at h
    cases h
  · obtain ⟨M', f, hM', hrows, hcols, -⟩ := hentries cell D it hg
    rw [hM'] at h
    cases h
    rw [Matrix.shape, hrows, hcols]

/-- The tensors of mixed elasticity overwrite their buffers. -/
theorem elasticity_overwrites (m : PlaneStress (Exact K)) :
    (TensorProvider.ofKernel (stressMass (ρ := Exact K))).Overwrites ∧
      (TensorProvider.ofKernel (strainStress m)).Overwrites ∧
      (TensorProvider.ofKernel (stressDivergence (ρ := Exact K))).Overwrites ∧
      (TensorProvider.ofKernel (displacementStiffness m)).Overwrites := by
  -- each kernel starts from the geometry, and its entries are known where that succeeds
  refine ⟨?_, ?_, ?_, ?_⟩ <;> refine TensorProvider.ofKernel_overwrites _
    (compute_shape_of_entries (fun cell e he => ?_) fun cell D it h => ?_) <;>
    try (simp only [stressMass, strainStress, stressDivergence, displacementStiffness, he]; rfl)
  · obtain ⟨M, hM, hE⟩ := stressMass_entries h
    exact ⟨M, _, hM, hE⟩
  · obtain ⟨M, hM, hE⟩ := strainStress_entries m h
    exact ⟨M, _, hM, hE⟩
  · obtain ⟨M, hM, hE⟩ := stressDivergence_entries h
    exact ⟨M, _, hM, hE⟩
  · obtain ⟨M, hM, hE⟩ := displacementStiffness_entries m h
    exact ⟨M, _, hM, hE⟩

/-- The kernel of the condensed form is the condensed kernel over the three mixed blocks that the
program registers: whatever scratch earlier calls left, a call of the latter gives the tensor of
the former. -/
theorem condensedElasticity_eq_condensedKernel (m : PlaneStress (Exact K))
    {k : ElementKernel (Exact K)} (hk : condensedElasticity {} m = .ok k) :
    ∃ ck, CondensedKernel.new (.ofKernel stressMass) (.ofKernel (strainStress m))
        (.ofKernel stressDivergence) = .ok ck ∧
      ∀ s cell output, (ck.tabulateInto s cell output).1 = k.tabulateInto output cell := by
  obtain ⟨ck, hnew, hfresh⟩ := CondensedKernel.freshTabulate_ofKernel hk
  obtain ⟨h00, h01, h10, -⟩ := elasticity_overwrites m
  obtain ⟨rfl, hfits⟩ := CondensedKernel.new_eq_ok.1 hnew
  refine ⟨_, hnew, fun s cell output => ?_⟩
  rw [CondensedKernel.tabulateInto_fst hfits h00 h01 h10 s cell output]
  exact hfresh cell output

end Elasticity

/-- The refinement for the blocks of mixed elasticity with `E = 1`, `ν = 1/3`, on the cell
`(0, 0), (2, 0), (1, 3)` and from an empty scratch. -/
theorem tabulateInto_refines_on_elasticity :
    let m : PlaneStress (Exact ℚ) := ⟨.mk 1, .mk (1 / 3)⟩
    let cell : CellData (Exact ℚ) := ⟨0, ⟨⟨.mk 0, .mk 0⟩, ⟨.mk 2, .mk 0⟩, ⟨.mk 1, .mk 3⟩⟩⟩
    let k : CondensedKernel (Exact ℚ) :=
      { a00 := .ofKernel stressMass, a01 := .ofKernel (strainStress m),
        a10 := .ofKernel stressDivergence }
    k.a00.Overwrites ∧ k.a01.Overwrites ∧ k.a10.Overwrites ∧
      CondensedKernel.new k.a00 k.a01 k.a10 = .ok k ∧
      ((k.withSettings {}).tabulateInto {} cell (12, 12)).1 =
        (k.withSettings {}).freshTabulate cell (12, 12) := by
  intro m cell k
  obtain ⟨h00, h01, h10, -⟩ := elasticity_overwrites m
  have hnew : CondensedKernel.new k.a00 k.a01 k.a10 = .ok k := rfl
  exact ⟨h00, h01, h10, hnew,
    ((CondensedKernel.tabulateInto_refines k.a00 k.a01 k.a10).2 h00 h01 h10 k hnew {} {} cell
      (12, 12)).1⟩

end MixedFem
