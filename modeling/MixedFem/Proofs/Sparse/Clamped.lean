import Mathlib
import MixedFem.Proofs.Sparse.Termination
import MixedFem.Proofs.Sparse.Dirichlet

/-!
# Clamped degrees of freedom stay fixed under conjugate gradients

After `Csr.constrain a dofs` a row of `dofs` is zero off its diagonal, whatever the pattern, and
after `constrainRhs` the right-hand side is zero on `dofs`. A product with such a matrix is then
zero at a dof where its argument is, and so are a Jacobi or identity preconditioning and every
vector update of the iteration. So the iterate, the residual, the preconditioned residual and the
search direction stay zero on `dofs` along every run from a guess that is zero there.

The argument needs no exact arithmetic. It uses only the laws of `ZeroPropagation`: a zero times
a value gives a zero as long as the product is finite, sums and differences of zeros are zeros,
and a finite sum, difference or product has finite operands. IEEE 754 arithmetic satisfies them
with zero tested as `±0` (`Float.zeroPropagation`, read off Lean's model of binary64), and exact
arithmetic, where every value is finite, satisfies them too (`Exact.zeroPropagation`).
Finiteness is asked of the states of a run only.

* `CgProblem.Clamps q dofs` : the operator is a sparse matrix zero off the diagonal in the rows of
  `dofs`, and the preconditioner is the identity or a Jacobi one;
* `CgState.ZeroOn dofs s` : `x`, `r`, `z` and `p` are zero on `dofs`;
* `start_zeroOn`, `step_zeroOn`, `Reaches.zeroOn` : the state before the first update, one step,
  and a whole run keep `ZeroOn`;
* `constrain_clamps` : the elimination leaves the rows of `dofs` zero off the diagonal, on any
  valid matrix; `constrain_ok_iff` : it fails only on a matrix that is not square or a dof out
  of range;
* `conjugateGradient_keeps_dirichlet_dofs` : the solve on a constrained system, and the caller's
  vector after a failed solve (`solveWithGuess`).
-/

namespace MixedFem

/-- The laws by which zeros propagate through the arithmetic of a scalar. -/
class ZeroPropagation (ρ : Type) [Scalar ρ] : Prop where
  isZero_zero : Scalar.isZero (Scalar.zero : ρ) = true
  isFinite_zero : Scalar.isFinite (Scalar.zero : ρ) = true
  isZero_mul_left (a b : ρ) : Scalar.isZero a = true → Scalar.isFinite (a * b) = true →
    Scalar.isZero (a * b) = true
  isZero_mul_right (a b : ρ) : Scalar.isZero b = true → Scalar.isFinite (a * b) = true →
    Scalar.isZero (a * b) = true
  isZero_add (a b : ρ) : Scalar.isZero a = true → Scalar.isZero b = true →
    Scalar.isZero (a + b) = true
  isZero_sub (a b : ρ) : Scalar.isZero a = true → Scalar.isZero b = true →
    Scalar.isZero (a - b) = true
  isFinite_add (a b : ρ) : Scalar.isFinite (a + b) = true →
    Scalar.isFinite a = true ∧ Scalar.isFinite b = true
  isFinite_sub (a b : ρ) : Scalar.isFinite (a - b) = true →
    Scalar.isFinite a = true ∧ Scalar.isFinite b = true
  isFinite_mul (a b : ρ) : Scalar.isFinite (a * b) = true →
    Scalar.isFinite a = true ∧ Scalar.isFinite b = true

/-- Exact arithmetic: a product with a zero factor is zero, and every value is finite. -/
instance Exact.zeroPropagation {K : Type} [Field K] [LinearOrder K] : ZeroPropagation (Exact K) where
  isZero_zero := by simp
  isFinite_zero := rfl
  isZero_mul_left a b ha _ := by simp_all
  isZero_mul_right a b hb _ := by simp_all
  isZero_add a b ha hb := by simp_all
  isZero_sub a b ha hb := by simp_all
  isFinite_add _ _ _ := ⟨rfl, rfl⟩
  isFinite_sub _ _ _ := ⟨rfl, rfl⟩
  isFinite_mul _ _ _ := ⟨rfl, rfl⟩

/-! ### IEEE 754 binary64

`Float` arithmetic unpacks its operands into signed zeros, finite values, infinities and NaN,
operates there and packs the result. Packing keeps zeros, infinities and NaN, so the laws of
`ZeroPropagation` are read off the unpacked operations case by case. -/

namespace FloatModel

open Float.Model (UnpackedFloat pack Format)

theorem unpack_pack_of_isFinite_false : ∀ u : UnpackedFloat, u.isFinite = false → (pack u).unpack = u
  | .notANumber, _ => rfl
  | .infinity s, _ => by cases s <;> rfl
  | .zero _, h => by cases h
  | .finite .., h => by cases h

theorem unpack_pack_zero (s : UnpackedFloat.Sign) : (pack (.zero s)).unpack = .zero s := by
  cases s <;> rfl

/-- A float that unpacks from a finite-valued packing came from a finite value. -/
theorem isFinite_of_isFinite_pack {u : UnpackedFloat} (h : (pack u).unpack.isFinite = true) :
    u.isFinite = true := by
  cases hu : u.isFinite
  · rw [unpack_pack_of_isFinite_false u hu, hu] at h
    exact h
  · rfl

-- an infinite or undefined operand gives an infinite or undefined sum, difference or product
theorem isFinite_of_add {x y : UnpackedFloat}
    (h : (UnpackedFloat.add Format.binary64 x y).isFinite = true) :
    x.isFinite = true ∧ y.isFinite = true := by
  cases x <;> cases y <;> simp_all [UnpackedFloat.add, UnpackedFloat.isFinite]
  -- two infinities: their sum is an infinity or undefined, by their signs
  rename_i s t
  cases s <;> cases t <;> cases h

theorem isFinite_of_sub {x y : UnpackedFloat}
    (h : (UnpackedFloat.sub Format.binary64 x y).isFinite = true) :
    x.isFinite = true ∧ y.isFinite = true := by
  cases x <;> cases y <;> simp_all [UnpackedFloat.sub, UnpackedFloat.isFinite]
  rename_i s t
  cases s <;> cases t <;> cases h

theorem isFinite_of_mul {x y : UnpackedFloat}
    (h : (UnpackedFloat.mul Format.binary64 x y).isFinite = true) :
    x.isFinite = true ∧ y.isFinite = true := by
  cases x <;> cases y <;> simp_all [UnpackedFloat.mul, UnpackedFloat.isFinite]

/-- A float is zero, as the library tests it, exactly when it unpacks to a signed zero. -/
theorem isZero_iff (x : Float) : Scalar.isZero x = true ↔ ∃ s, x.toModel.unpack = .zero s := by
  show x.toModel.unpack.beq (.zero .positive) = true ↔ _
  cases x.toModel.unpack with
  | zero s => exact ⟨fun _ => ⟨s, rfl⟩, fun _ => by cases s <;> rfl⟩
  | notANumber =>
    constructor
    · intro h
      cases h
    · rintro ⟨_, h⟩
      cases h
  | infinity s =>
    constructor
    · intro h
      cases s <;> cases h
    · rintro ⟨_, h⟩
      cases h
  | finite s m e hm =>
    constructor
    · intro h
      cases s <;> cases h
    · rintro ⟨_, h⟩
      cases h

theorem isFinite_iff (x : Float) : Scalar.isFinite x = x.toModel.unpack.isFinite := rfl

theorem unpack_add (a b : Float) : (a + b).toModel.unpack =
    (pack (UnpackedFloat.add Format.binary64 a.toModel.unpack b.toModel.unpack)).unpack := rfl

theorem unpack_sub (a b : Float) : (a - b).toModel.unpack =
    (pack (UnpackedFloat.sub Format.binary64 a.toModel.unpack b.toModel.unpack)).unpack := rfl

theorem unpack_mul (a b : Float) : (a * b).toModel.unpack =
    (pack (UnpackedFloat.mul Format.binary64 a.toModel.unpack b.toModel.unpack)).unpack := rfl

/-- A zero times a value is a signed zero, unless the value is infinite or undefined. -/
theorem mul_zero_left (s : UnpackedFloat.Sign) {y : UnpackedFloat} (hy : y.isFinite = true) :
    ∃ t, UnpackedFloat.mul Format.binary64 (.zero s) y = .zero t := by
  cases y with
  | zero t => exact ⟨s * t, rfl⟩
  | finite t _ _ _ => exact ⟨s * t, rfl⟩
  | notANumber => cases hy
  | infinity _ => cases hy

theorem mul_zero_right (s : UnpackedFloat.Sign) {x : UnpackedFloat} (hx : x.isFinite = true) :
    ∃ t, UnpackedFloat.mul Format.binary64 x (.zero s) = .zero t := by
  cases x with
  | zero t => exact ⟨t * s, rfl⟩
  | finite t _ _ _ => exact ⟨t * s, rfl⟩
  | notANumber => cases hx
  | infinity _ => cases hx

theorem add_zero_zero (s t : UnpackedFloat.Sign) :
    ∃ u, UnpackedFloat.add Format.binary64 (.zero s) (.zero t) = .zero u := by
  cases s <;> cases t <;> exact ⟨_, rfl⟩

theorem sub_zero_zero (s t : UnpackedFloat.Sign) :
    ∃ u, UnpackedFloat.sub Format.binary64 (.zero s) (.zero t) = .zero u := by
  cases s <;> cases t <;> exact ⟨_, rfl⟩

end FloatModel

open FloatModel in
/-- IEEE 754 binary64 arithmetic, zero tested as `±0`: a zero times a finite value is a signed
zero, a sum or difference of zeros is a zero, and an infinite or undefined operand gives an
infinite or undefined result. -/
instance Float.zeroPropagation : ZeroPropagation Float where
  isZero_zero := rfl
  isFinite_zero := rfl
  isZero_mul_left a b ha hfin := by
    obtain ⟨s, hs⟩ := (isZero_iff a).1 ha
    rw [isFinite_iff, unpack_mul] at hfin
    obtain ⟨t, ht⟩ := mul_zero_left s (isFinite_of_mul (isFinite_of_isFinite_pack hfin)).2
    rw [isZero_iff, unpack_mul, hs, ht, unpack_pack_zero]
    exact ⟨t, rfl⟩
  isZero_mul_right a b hb hfin := by
    obtain ⟨s, hs⟩ := (isZero_iff b).1 hb
    rw [isFinite_iff, unpack_mul] at hfin
    obtain ⟨t, ht⟩ := mul_zero_right s (isFinite_of_mul (isFinite_of_isFinite_pack hfin)).1
    rw [isZero_iff, unpack_mul, hs, ht, unpack_pack_zero]
    exact ⟨t, rfl⟩
  isZero_add a b ha hb := by
    obtain ⟨s, hs⟩ := (isZero_iff a).1 ha
    obtain ⟨t, ht⟩ := (isZero_iff b).1 hb
    obtain ⟨u, hu⟩ := add_zero_zero s t
    rw [isZero_iff, unpack_add, hs, ht, hu, unpack_pack_zero]
    exact ⟨u, rfl⟩
  isZero_sub a b ha hb := by
    obtain ⟨s, hs⟩ := (isZero_iff a).1 ha
    obtain ⟨t, ht⟩ := (isZero_iff b).1 hb
    obtain ⟨u, hu⟩ := sub_zero_zero s t
    rw [isZero_iff, unpack_sub, hs, ht, hu, unpack_pack_zero]
    exact ⟨u, rfl⟩
  isFinite_add _ _ h := isFinite_of_add (isFinite_of_isFinite_pack h)
  isFinite_sub _ _ h := isFinite_of_sub (isFinite_of_isFinite_pack h)
  isFinite_mul _ _ h := isFinite_of_mul (isFinite_of_isFinite_pack h)

namespace ZeroPropagation

variable {ρ : Type} [Scalar ρ] [ZeroPropagation ρ]

theorem isZero_getElem!_of_le {v : Array ρ} {i : Nat} (h : v.size ≤ i) :
    Scalar.isZero v[i]! = true := by
  rw [getElem!_neg v i (by omega)]
  exact isZero_zero

theorem isFinite_getElem! {v : Array ρ} (h : ∀ e ∈ v, Scalar.isFinite e = true) (i : Nat) :
    Scalar.isFinite v[i]! = true := by
  by_cases hi : i < v.size
  · rw [getElem!_pos v i hi]
    exact h _ (Array.getElem_mem hi)
  · rw [getElem!_neg v i hi]
    exact isFinite_zero

/-- An entry of `u.zipWith f w` is zero where `f` of the entries of `u` and `w` is, or where the
arrays end. -/
theorem isZero_zipWith {u w : Array ρ} {f : ρ → ρ → ρ} {i : Nat}
    (hf : Scalar.isFinite (f u[i]! w[i]!) = true → Scalar.isZero (f u[i]! w[i]!) = true)
    (hfin : Scalar.isFinite (u.zipWith f w)[i]! = true) :
    Scalar.isZero (u.zipWith f w)[i]! = true := by
  by_cases hi : i < u.size ∧ i < w.size
  · rw [getElem!_zipWith f u w hi.1 hi.2] at hfin ⊢
    exact hf hfin
  · exact isZero_getElem!_of_le (by simp only [Array.size_zipWith]; omega)

/-- `a + c b` with `a` and `b` zero, as an iterate or a direction is updated. -/
theorem isZero_add_mul {a b : ρ} (c : ρ) (ha : Scalar.isZero a = true)
    (hb : Scalar.isZero b = true) (hfin : Scalar.isFinite (a + c * b) = true) :
    Scalar.isZero (a + c * b) = true :=
  isZero_add _ _ ha (isZero_mul_right c b hb (isFinite_add _ _ hfin).2)

/-- `a - c b` with `a` and `b` zero, as a residual is updated. -/
theorem isZero_sub_mul {a b : ρ} (c : ρ) (ha : Scalar.isZero a = true)
    (hb : Scalar.isZero b = true) (hfin : Scalar.isFinite (a - c * b) = true) :
    Scalar.isZero (a - c * b) = true :=
  isZero_sub _ _ ha (isZero_mul_right c b hb (isFinite_sub _ _ hfin).2)

/-- A finite running sum started from `init` has a finite start. -/
theorem isFinite_of_foldl_add {ι : Type} (t : ι → ρ) :
    ∀ (l : List ι) (init : ρ), Scalar.isFinite (l.foldl (fun s k => s + t k) init) = true →
      Scalar.isFinite init = true
  | [], _, h => h
  | k :: l, init, h => (isFinite_add _ _ (isFinite_of_foldl_add t l (init + t k) h)).1

/-- A finite running sum of terms that are zero wherever they are finite is zero. -/
theorem isZero_foldl_add {ι : Type} (t : ι → ρ) :
    ∀ (l : List ι) (init : ρ), Scalar.isZero init = true →
      (∀ k ∈ l, Scalar.isFinite (t k) = true → Scalar.isZero (t k) = true) →
      Scalar.isFinite (l.foldl (fun s k => s + t k) init) = true →
      Scalar.isZero (l.foldl (fun s k => s + t k) init) = true
  | [], _, hinit, _, _ => hinit
  | k :: l, init, hinit, ht, hfin => by
    -- the sum after the first term is finite, so the first term is, and so it is zero
    have hk := (isFinite_add _ _ (isFinite_of_foldl_add t l (init + t k) hfin)).2
    exact isZero_foldl_add t l (init + t k)
      (isZero_add _ _ hinit (ht k List.mem_cons_self hk))
      (fun k' hk' => ht k' (List.mem_cons_of_mem k hk')) hfin

end ZeroPropagation

open ZeroPropagation

/-- A fold whose step, from every state of `I`, succeeds only on elements with `P` and keeps `I`:
when the fold succeeds, every element has `P`. -/
theorem foldlM_except_forall {α σ ε : Type} {I : σ → Prop} {P : α → Prop}
    (f : σ → α → Except ε σ) (hstep : ∀ s a s', I s → f s a = .ok s' → P a ∧ I s') :
    ∀ (l : List α) (init r : σ), I init → l.foldlM f init = .ok r → ∀ a ∈ l, P a
  | [], _, _, _, _ => by simp
  | a :: l, init, r, h₀, h => by
    rw [List.foldlM_cons] at h
    cases hf : f init a with
    | error e => rw [hf] at h; cases h
    | ok s =>
      rw [hf] at h
      obtain ⟨hP, hI⟩ := hstep init a s h₀ hf
      intro b hb
      rcases List.mem_cons.1 hb with rfl | hb
      · exact hP
      · exact foldlM_except_forall f hstep l s r hI h b hb

/-- A right-hand side is constrained only at entries it has. -/
theorem constrainRhs_lt {ρ : Type} [RealScalar ρ] {rhs v : Array ρ} {dofs : List Nat}
    (h : constrainRhs rhs dofs = .ok v) : ∀ d ∈ dofs, d < rhs.size :=
  foldlM_except_forall (I := fun w : Array ρ => w.size = rhs.size) _ (fun w d w' hw hd => by
    by_cases hlt : d < w.size
    · simp only [if_pos hlt] at hd
      cases hd
      exact ⟨hw ▸ hlt, (Array.size_set! ..).trans hw⟩
    · simp only [if_neg hlt] at hd
      cases hd) dofs rhs v rfl h

/-- The constrained right-hand side is zero on the dofs. -/
theorem constrainRhs_isZero {ρ : Type} [RealScalar ρ] [ZeroPropagation ρ] {rhs v : Array ρ}
    {dofs : List Nat} (h : constrainRhs rhs dofs = .ok v) :
    ∀ d ∈ dofs, Scalar.isZero v[d]! = true := by
  obtain ⟨w, hw, hsize, hget⟩ := constrainRhs_getElem! (constrainRhs_lt h)
  rw [h] at hw
  cases hw
  intro d hd
  rw [hget d (constrainRhs_lt h d hd), if_pos hd]
  exact isZero_zero

namespace Csr

variable {ρ : Type} [RealScalar ρ] {a a' : Csr ρ} {dofs : List Nat}

/-- Marking fails on a row past the end. -/
theorem markRows_lt {n : Nat} {m : Array Bool} (h : markRows n dofs = .ok m) :
    ∀ d ∈ dofs, d < n :=
  foldlM_except_forall (I := fun w : Array Bool => w.size = n) _ (fun w r w' hw hr => by
    by_cases hlt : r < w.size
    · simp only [Violation.get, dif_pos hlt] at hr
      cases hr
      exact ⟨hw ▸ hlt, (Array.size_set! ..).trans hw⟩
    · simp only [Violation.get, dif_neg hlt] at hr
      cases hr) dofs _ m (Array.size_replicate ..) h

/-- The elimination fails exactly on a matrix that is not square or a dof out of range. -/
theorem constrain_ok_iff : (∃ a', a.constrain dofs = .ok a') ↔
    a.nrows = a.ncols ∧ ∀ d ∈ dofs, d < a.nrows := by
  constructor
  · rintro ⟨a', h⟩
    by_cases hsq : a.nrows = a.ncols
    · simp only [constrain, Violation.requireEq, if_pos hsq, diagonal] at h
      cases hm : markRows a.nrows dofs with
      | error e => simp [hm, bind, Except.bind, pure, Except.pure] at h
      | ok m => exact ⟨hsq, markRows_lt hm⟩
    · simp only [constrain, Violation.requireEq, if_neg hsq] at h
      cases h
  · rintro ⟨hsq, hd⟩
    obtain ⟨m, hm, -, -⟩ := markRows_eq hd
    simp only [constrain, Violation.requireEq, if_pos hsq, diagonal, hm]
    exact ⟨_, rfl⟩

/-- On any valid matrix, symmetric or not, the elimination keeps the pattern and leaves every row
of `dofs` zero off its diagonal. -/
theorem constrain_clamps (ha : a.Valid) (h : a.constrain dofs = .ok a') :
    a'.pattern = a.pattern ∧ ∀ d ∈ dofs, ∀ k ∈ a.pattern.positions d,
      a.pattern.colIndices[k]! ≠ d → a'.values[k]! = Scalar.zero := by
  obtain ⟨hsq, hd⟩ := constrain_ok_iff.1 ⟨a', h⟩
  obtain ⟨m, hm, -, -⟩ := markRows_eq hd
  have hinit : RowsConstrained a (diagonalScale (Array.ofFn fun i : Fin a.nrows => a.diagonalEntry i))
      [] (a.values, Array.replicate a.nrows false) := RowsConstrained.init
  have hrows := RowsConstrained.foldl ha dofs [] _ hinit hd
  obtain ⟨-, hclear⟩ := hrows.clearPass ha m
  simp only [constrain, Violation.requireEq, if_pos hsq, diagonal, hm] at h
  cases h
  refine ⟨rfl, fun d hdm k hk hkd => ?_⟩
  -- the second pass writes zero or keeps the zero that the first wrote
  rw [hclear d (hd d hdm) k hk, hrows.values d (hd d hdm) k hk]
  simp [hdm, hkd]

/-- An entry of the product: `0 · y_i + 1 · Σ a_k x_(c k)` over the offsets `k` of row `i`,
summed from zero in stored order. -/
theorem mulVecInto_getElem! {y x v : Array ρ} (h : a.mulVecInto y x = .ok v) :
    v.size = y.size ∧ ∀ i < y.size, v[i]! = Scalar.zero * y[i]! + Scalar.one *
      (a.pattern.positions i).foldl (fun dot k => dot + a.values[k]! * x[a.pattern.colIndices[k]!]!)
        Scalar.zero := by
  simp only [mulVecInto, Violation.requireEq, bind, Except.bind] at h
  -- a check that fails is an error, and the one that passes gives the product
  split_ifs at h
  cases h
  refine ⟨Array.size_mapIdx .., fun i hi => ?_⟩
  rw [getElem!_pos _ i (by simpa using hi), Array.getElem_mapIdx, getElem!_pos y i hi]
  simp only [Std.Legacy.Range.forIn_eq_forIn_range', Std.Legacy.Range.size,
    SparsityPattern.rowRange_eq, Nat.add_sub_cancel, Nat.div_one, List.forIn_pure_yield_eq_foldl,
    Id.run_pure]
  rfl

/-- The rows of `dofs` are zero off the diagonal. -/
def ClampsRows (a : Csr ρ) (dofs : List Nat) : Prop :=
  ∀ d ∈ dofs, ∀ k ∈ a.pattern.positions d, a.pattern.colIndices[k]! ≠ d →
    Scalar.isZero a.values[k]! = true

theorem clampsRows_of_constrain [ZeroPropagation ρ] (ha : a.Valid) (h : a.constrain dofs = .ok a') :
    a'.ClampsRows dofs := by
  obtain ⟨hpat, hzero⟩ := constrain_clamps ha h
  intro d hd k hk hkd
  rw [hpat] at hk hkd
  rw [hzero d hd k hk hkd]
  exact isZero_zero

/-- A product with a matrix that clamps the rows of `dofs` is zero at a dof where its argument
is, as long as that entry is finite. -/
theorem ClampsRows.isZero_mulVecInto [ZeroPropagation ρ] (hA : a.ClampsRows dofs)
    {y x v : Array ρ} (h : a.mulVecInto y x = .ok v) {d : Nat} (hd : d ∈ dofs)
    (hx : Scalar.isZero x[d]! = true) (hfin : Scalar.isFinite v[d]! = true) :
    Scalar.isZero v[d]! = true := by
  obtain ⟨hsize, hrow⟩ := mulVecInto_getElem! h
  by_cases hdy : d < y.size
  · rw [hrow d hdy] at hfin ⊢
    -- each term of row `d` is a zero times a value: off the diagonal the matrix entry, on it `x_d`
    have hterm : ∀ k ∈ a.pattern.positions d,
        Scalar.isFinite (a.values[k]! * x[a.pattern.colIndices[k]!]!) = true →
        Scalar.isZero (a.values[k]! * x[a.pattern.colIndices[k]!]!) = true := by
      intro k hk hkfin
      by_cases hkd : a.pattern.colIndices[k]! = d
      · rw [hkd] at hkfin ⊢
        exact isZero_mul_right _ _ hx hkfin
      · exact isZero_mul_left _ _ (hA d hd k hk hkd) hkfin
    obtain ⟨hleft, hright⟩ := isFinite_add _ _ hfin
    have hsum := isZero_foldl_add (fun k => a.values[k]! * x[a.pattern.colIndices[k]!]!) _ _
      isZero_zero hterm (isFinite_mul _ _ hright).2
    exact isZero_add _ _ (isZero_mul_left _ _ isZero_zero hleft) (isZero_mul_right _ _ hsum hright)
  · exact isZero_getElem!_of_le (by omega)

end Csr

namespace Preconditioner

variable {ρ : Type} [RealScalar ρ] {pc : Preconditioner ρ}

theorem ofCsr_eq_jacobi {a : Csr ρ} (h : ofCsr a = .ok pc) : ∃ inv, pc = .jacobi inv := by
  simp only [ofCsr, bind, Except.bind] at h
  cases hd : a.diagonal with
  | error e => rw [hd] at h; cases h
  | ok d =>
    rw [hd] at h
    cases h
    exact ⟨_, rfl⟩

/-- The identity and a Jacobi preconditioner act entry by entry: the result is zero where the
argument is, as long as it is finite there. -/
theorem isZero_apply [ZeroPropagation ρ] (hpc : pc = .identity ∨ ∃ inv, pc = .jacobi inv)
    {y r z : Array ρ} (h : pc.apply y r = .ok z) {d : Nat} (hr : Scalar.isZero r[d]! = true)
    (hfin : Scalar.isFinite z[d]! = true) : Scalar.isZero z[d]! = true := by
  rcases hpc with rfl | ⟨inv, rfl⟩
  · cases h
    exact hr
  · simp only [apply] at h
    split_ifs at h
    cases h
    exact isZero_zipWith (isZero_mul_left _ _ hr) hfin

end Preconditioner

namespace CgState

variable {ρ : Type} [Scalar ρ]

/-- Every value of the vectors of the state is finite. -/
structure Finite (s : CgState ρ) : Prop where
  x : ∀ e ∈ s.x, Scalar.isFinite e = true
  r : ∀ e ∈ s.r, Scalar.isFinite e = true
  z : ∀ e ∈ s.z, Scalar.isFinite e = true
  p : ∀ e ∈ s.p, Scalar.isFinite e = true
  ap : ∀ e ∈ s.ap, Scalar.isFinite e = true

/-- The iterate, the residual, the preconditioned residual and the search direction are zero on
`dofs`. -/
structure ZeroOn (dofs : List Nat) (s : CgState ρ) : Prop where
  x : ∀ d ∈ dofs, Scalar.isZero s.x[d]! = true
  r : ∀ d ∈ dofs, Scalar.isZero s.r[d]! = true
  z : ∀ d ∈ dofs, Scalar.isZero s.z[d]! = true
  p : ∀ d ∈ dofs, Scalar.isZero s.p[d]! = true

end CgState

namespace CgProblem

variable {ρ : Type} [RealScalar ρ] {q : CgProblem ρ} {dofs : List Nat}

/-- A problem whose operator is a sparse matrix that clamps the rows of `dofs`, and whose
preconditioner acts entry by entry. -/
structure Clamps (q : CgProblem ρ) (dofs : List Nat) : Prop where
  operator : ∃ a : Csr ρ, q.operator = .sparse a ∧ a.ClampsRows dofs
  preconditioner : q.preconditioner = .identity ∨ ∃ inv, q.preconditioner = .jacobi inv

theorem precondition_eq_ok {it : Nat} {y r z : Array ρ} (h : q.precondition it y r = .ok z) :
    q.preconditioner.apply y r = .ok z := by
  simp only [precondition] at h
  cases hp : q.preconditioner.apply y r with
  | error f =>
    rw [hp] at h
    cases f <;> cases h
  | ok z' =>
    rw [hp] at h
    cases h
    rfl

/-- The state before the first update holds the guess, the residual `b - A x0` and its
preconditioned form, which is also the first direction. -/
theorem start_eq_ok_parts {b x0 : Array ρ} {s : CgState ρ} (h : q.start b x0 = .ok s) :
    ∃ ax, q.operator.apply (Array.replicate x0.size Scalar.zero) x0 = .ok ax ∧
      q.precondition 0 (Array.replicate x0.size Scalar.zero) s.r = .ok s.z ∧
      s.x = x0 ∧ s.r = b.zipWith (fun bi axi => bi - axi) ax ∧ s.p = s.z := by
  cases hax : q.operator.apply (Array.replicate x0.size Scalar.zero) x0 with
  | error v =>
    simp only [start, hax, Failure.lift, Except.mapError, bind, Except.bind] at h
    cases h
  | ok ax =>
    simp only [start, hax, Failure.lift, Except.mapError, bind, Except.bind] at h
    cases hz : q.precondition 0 (Array.replicate x0.size Scalar.zero)
        (b.zipWith (fun bi axi => bi - axi) ax) with
    | error f => rw [hz] at h; cases h
    | ok z =>
      rw [hz] at h
      cases h
      exact ⟨ax, rfl, hz, rfl, rfl, rfl⟩

variable [ZeroPropagation ρ]

theorem Clamps.isZero_apply (hq : q.Clamps dofs) {y x v : Array ρ}
    (h : q.operator.apply y x = .ok v) {d : Nat} (hd : d ∈ dofs) (hx : Scalar.isZero x[d]! = true)
    (hfin : Scalar.isFinite v[d]! = true) : Scalar.isZero v[d]! = true := by
  obtain ⟨a, hop, hA⟩ := hq.operator
  rw [hop] at h
  exact hA.isZero_mulVecInto h hd hx hfin

theorem Clamps.isZero_precondition (hq : q.Clamps dofs) {it : Nat} {y r z : Array ρ}
    (h : q.precondition it y r = .ok z) {d : Nat} (hr : Scalar.isZero r[d]! = true)
    (hfin : Scalar.isFinite z[d]! = true) : Scalar.isZero z[d]! = true :=
  Preconditioner.isZero_apply hq.preconditioner (precondition_eq_ok h) hr hfin

/-- From right-hand side and guess zero on `dofs`, the state before the first update is zero
there. -/
theorem start_zeroOn (hq : q.Clamps dofs) {b x0 : Array ρ}
    (hb : ∀ d ∈ dofs, Scalar.isZero b[d]! = true) (hx0 : ∀ d ∈ dofs, Scalar.isZero x0[d]! = true)
    {s : CgState ρ} (h : q.start b x0 = .ok s) (hfin : s.Finite) : s.ZeroOn dofs := by
  obtain ⟨ax, hax, hz, hx, hr, hp⟩ := start_eq_ok_parts h
  -- `A x0` is zero on the dofs, so `b - A x0` is, and so is its preconditioned form
  have hr0 : ∀ d ∈ dofs, Scalar.isZero s.r[d]! = true := by
    intro d hd
    have hrfin := isFinite_getElem! hfin.r d
    rw [hr] at hrfin ⊢
    exact isZero_zipWith (fun hf => isZero_sub _ _ (hb d hd)
      (hq.isZero_apply hax hd (hx0 d hd) (isFinite_sub _ _ hf).2)) hrfin
  have hz0 : ∀ d ∈ dofs, Scalar.isZero s.z[d]! = true := fun d hd =>
    hq.isZero_precondition hz (hr0 d hd) (isFinite_getElem! hfin.z d)
  refine ⟨fun d hd => ?_, hr0, hz0, fun d hd => ?_⟩
  · rw [hx]
    exact hx0 d hd
  · rw [hp]
    exact hz0 d hd

/-- The step: an update from a state zero on `dofs` to a finite state is zero there. -/
theorem step_zeroOn (hq : q.Clamps dofs) {s s' : CgState ρ} (hs : s.ZeroOn dofs)
    (h : q.step s = .ok (some s')) (hfin : s'.Finite) : s'.ZeroOn dofs := by
  obtain ⟨-, ap, hap, hu⟩ := q.step_eq_some h
  obtain ⟨-, -, z, hz, rfl⟩ := q.update_eq_some hu
  -- `A p` is zero on the dofs, as `p` is; then `r - α A p`, its preconditioned form, `x + α p`
  -- and `z + β p`
  have hap0 : ∀ d ∈ dofs, Scalar.isZero ap[d]! = true := fun d hd =>
    hq.isZero_apply hap hd (hs.p d hd) (isFinite_getElem! hfin.ap d)
  have hr0 : ∀ d ∈ dofs, Scalar.isZero
      (s.r.zipWith (fun ri api => ri - s.zTr / vectorDot s.p ap * api) ap)[d]! = true :=
    fun d hd => isZero_zipWith (isZero_sub_mul _ (hs.r d hd) (hap0 d hd)) (isFinite_getElem! hfin.r d)
  have hz0 : ∀ d ∈ dofs, Scalar.isZero z[d]! = true := fun d hd =>
    hq.isZero_precondition hz (hr0 d hd) (isFinite_getElem! hfin.z d)
  exact ⟨fun d hd => isZero_zipWith (isZero_add_mul _ (hs.x d hd) (hs.p d hd))
      (isFinite_getElem! hfin.x d), hr0, hz0,
    fun d hd => isZero_zipWith (isZero_add_mul _ (hz0 d hd) (hs.p d hd)) (isFinite_getElem! hfin.p d)⟩

/-- The run: every state reached from a state zero on `dofs`, through finite states, is zero
there. -/
theorem Reaches.zeroOn (hq : q.Clamps dofs) {s₀ s : CgState ρ} {k : Nat} (h₀ : s₀.ZeroOn dofs)
    (h : q.Reaches s₀ k s) (hfin : ∀ j u, j ≤ k → q.Reaches s₀ j u → u.Finite) :
    s.ZeroOn dofs := by
  induction h with
  | start => exact h₀
  | next hr hs ih =>
    exact step_zeroOn hq (ih fun j u hj hu => hfin j u (by omega) hu) hs
      (hfin _ _ le_rfl (.next hr hs))

end CgProblem

section Solve

variable {ρ : Type} [RealScalar ρ] [ZeroPropagation ρ]

theorem isZero_getElem!_replicate (n i : Nat) :
    Scalar.isZero (Array.replicate n (Scalar.zero : ρ))[i]! = true := by
  by_cases hi : i < n
  · rw [getElem!_pos _ i (by simpa using hi), Array.getElem_replicate]
    exact isZero_zero
  · exact isZero_getElem!_of_le (by simpa using hi)

/-- Homogeneous Dirichlet conditions are kept by conjugate gradients. Eliminate `dofs` from a
valid sparse matrix and a right-hand side, precondition by the identity or by the Jacobi
preconditioner of the result, and start from a guess zero on `dofs`. Then every state that the
iteration reaches through finite states has its iterate, residual, preconditioned residual and
search direction zero on `dofs`; a solve that returns, with every state of its run finite,
returns a solution zero on `dofs`; and a solve that reports a failure leaves in the caller's
vector, when it and the states of the run are finite, an iterate zero on `dofs`. Over exact
arithmetic every value is finite; over binary64 these are the runs that stay finite. -/
theorem conjugateGradient_keeps_dirichlet_dofs (a a' : Csr ρ) (dofs : List Nat)
    (b₀ b x0 : Array ρ) (pc : Preconditioner ρ) (tol : ρ) (maxIter : Option Nat)
    (ha : a.Valid) (h : a.constrain dofs = .ok a') (hb : constrainRhs b₀ dofs = .ok b)
    (hpc : pc = .identity ∨ Preconditioner.ofCsr a' = .ok pc)
    (hx0 : ∀ d ∈ dofs, Scalar.isZero x0[d]! = true) :
    let q : CgProblem ρ := ⟨.sparse a', pc, vectorNorm b, tol, maxIter⟩
    (∀ s₀ k s, q.start b x0 = .ok s₀ → q.Reaches s₀ k s →
      (∀ j u, j ≤ k → q.Reaches s₀ j u → u.Finite) → s.ZeroOn dofs) ∧
    (∀ fuel x it, conjugateGradient (.sparse a') pc tol maxIter fuel b x0 = .ok (x, it) →
      (∀ s₀ k s, q.start b x0 = .ok s₀ → q.Reaches s₀ k s → s.Finite) →
      ∀ d ∈ dofs, Scalar.isZero x[d]! = true) ∧
    ∀ fuel e x, solveWithGuess (.sparse a') pc tol maxIter fuel b x0 = .ok (.error e, x) →
      (∀ s₀ k s, q.start b x0 = .ok s₀ → q.Reaches s₀ k s → s.Finite) →
      (∀ v ∈ x, Scalar.isFinite v = true) → ∀ d ∈ dofs, Scalar.isZero x[d]! = true := by
  intro q
  have hq : q.Clamps dofs :=
    ⟨⟨a', rfl, Csr.clampsRows_of_constrain ha h⟩, hpc.imp id Preconditioner.ofCsr_eq_jacobi⟩
  have hruns : ∀ s₀ k s, q.start b x0 = .ok s₀ → q.Reaches s₀ k s →
      (∀ j u, j ≤ k → q.Reaches s₀ j u → u.Finite) → s.ZeroOn dofs := fun s₀ k s hs₀ hr hfin =>
    CgProblem.Reaches.zeroOn hq (CgProblem.start_zeroOn hq (constrainRhs_isZero hb) hx0 hs₀
      (hfin 0 s₀ (Nat.zero_le k) .start)) hr hfin
  refine ⟨hruns, fun fuel x it hsolve hfin d hd => ?_, fun fuel e x hsolve hfin hxfin d hd => ?_⟩
  · -- a solve that returns has checked the sizes, and returns zero or the iterate where its run
    -- stops
    have hsize : b.size = x0.size := by
      by_contra hne
      simp only [conjugateGradient, Violation.requireEq, if_neg hne, Failure.lift, Except.mapError,
        bind, Except.bind] at hsolve
      cases hsolve
    rcases CgProblem.conjugateGradient_eq_ok hsize hsolve with
      ⟨-, rfl, -⟩ | ⟨-, s₀, t, hs₀, ht, rfl, -⟩
    · exact isZero_getElem!_replicate _ d
    · obtain ⟨k, -, hr, -⟩ := CgProblem.iterate_eq_ok ht
      exact (hruns s₀ k t hs₀ hr fun j u _ hu => hfin s₀ j u hs₀ hu).x d hd
  · -- a reported failure leaves the guess, or the iterate of a reached state, possibly moved by
    -- `α p`, which is zero on `dofs` with the direction
    rcases CgProblem.solveWithGuess_eq_failure hsolve with rfl | ⟨s₀, k, t, hs, hr, hx⟩
    · exact hx0 d hd
    have ht := hruns s₀ k t hs hr fun j u _ hu => hfin s₀ j u hs hu
    rcases hx with rfl | ⟨alpha, rfl⟩
    · exact ht.x d hd
    · exact isZero_zipWith (fun hf => isZero_add_mul alpha (ht.x d hd) (ht.p d hd) hf)
        (isFinite_getElem! hxfin d)

/-- The second-difference matrix in binary64, clamped at its first dof, solved from a guess zero
there. -/
theorem conjugateGradient_keeps_dirichlet_dofs_on_tridiagonal :
    let a : Csr Float := ⟨⟨3, 3, #[0, 2, 5, 7], #[0, 1, 0, 1, 2, 1, 2]⟩,
      #[2.0, -1.0, -1.0, 2.0, -1.0, -1.0, 2.0]⟩
    a.Valid ∧ constrainRhs #[1.0, 1.0, 1.0] [0] = .ok #[Scalar.zero, 1.0, 1.0] ∧
    (∀ d ∈ [0], Scalar.isZero (#[0.0, 1.0, 2.0] : Array Float)[d]! = true) ∧
    ∃ a', a.constrain [0] = .ok a' ∧
      let q : CgProblem Float := ⟨.sparse a', .identity, vectorNorm #[Scalar.zero, 1.0, 1.0], 1e-3,
        some 5⟩
      (∀ s₀ k s, q.start #[Scalar.zero, 1.0, 1.0] #[0.0, 1.0, 2.0] = .ok s₀ → q.Reaches s₀ k s →
        (∀ j u, j ≤ k → q.Reaches s₀ j u → u.Finite) → s.ZeroOn [0]) ∧
      (∀ fuel x it, conjugateGradient (.sparse a') .identity 1e-3 (some 5) fuel
          #[Scalar.zero, 1.0, 1.0] #[0.0, 1.0, 2.0] = .ok (x, it) →
        (∀ s₀ k s, q.start #[Scalar.zero, 1.0, 1.0] #[0.0, 1.0, 2.0] = .ok s₀ →
          q.Reaches s₀ k s → s.Finite) →
        ∀ d ∈ [0], Scalar.isZero x[d]! = true) ∧
      ∀ fuel e x, solveWithGuess (.sparse a') .identity 1e-3 (some 5) fuel
          #[Scalar.zero, 1.0, 1.0] #[0.0, 1.0, 2.0] = .ok (.error e, x) →
        (∀ s₀ k s, q.start #[Scalar.zero, 1.0, 1.0] #[0.0, 1.0, 2.0] = .ok s₀ →
          q.Reaches s₀ k s → s.Finite) →
        (∀ v ∈ x, Scalar.isFinite v = true) → ∀ d ∈ [0], Scalar.isZero x[d]! = true := by
  intro a
  have hv : a.Valid := ⟨⟨rfl, rfl, rfl, by decide, by decide, by decide⟩, rfl⟩
  have hrhs : constrainRhs #[1.0, 1.0, 1.0] [0] = .ok #[(Scalar.zero : Float), 1.0, 1.0] := rfl
  have hx0 : ∀ d ∈ [0], Scalar.isZero (#[0.0, 1.0, 2.0] : Array Float)[d]! = true := by decide
  obtain ⟨a', h⟩ : ∃ a', a.constrain [0] = .ok a' := Csr.constrain_ok_iff.2 ⟨rfl, by decide⟩
  exact ⟨hv, hrhs, hx0, a', h, conjugateGradient_keeps_dirichlet_dofs a a' [0] _ _ _
    .identity _ _ hv h hrhs (Or.inl rfl) hx0⟩

end Solve

end MixedFem
